/-
  RocketCo.Lib.Heap — what a program may expect of an allocator.

  A heap is the set of blocks a program holds, the addresses its allocator has nothing to do with,
  and the contents of the memory.  That blocks are disjoint, and away from those addresses, is part
  of the type.  A step hands out a block, fails to, takes one back, or writes a byte.  It says
  nothing about where a block comes from, nor about the memory in between, which is the allocator's.

  What follows from the steps alone:

    • `Heap.kept` — a byte of a block reads what was written last, until the block is taken back,
    • `Heap.kept_foreign` — and so does a byte outside the allocator's memory.
-/
import RocketCo.Lib.Run
import RocketCo.Lib.Tiling

namespace RocketCo.Lib

/-- The blocks of a program, the memory that is not the allocator's, and what is in memory. -/
structure Heap (κ β : Type*) where
  blocks : Tiling κ
  foreign : Set Nat
  away : ∀ b ∈ blocks.tiles, ∀ x, b.Covers x → x ∉ foreign
  byte : Nat → β

/-- What a program and its allocator do to the heap. -/
inductive HeapOp (κ β : Type*) where
  | alloc (b : Tile κ)
  | fail
  | free (b : Tile κ)
  | write (x : Nat) (v : β)

namespace HeapOp

variable {κ β : Type*}

/-- The blocks after the operation. -/
def live (op : HeapOp κ β) (S : Set (Tile κ)) : Set (Tile κ) :=
  match op with
  | alloc b => insert b S
  | fail => S
  | free b => S \ {b}
  | write _ _ => S

/-- The byte at `x` after the operation, when it was `v`. -/
def after (op : HeapOp κ β) (x : Nat) (v : β) : β :=
  match op with
  | write y w => if y = x then w else v
  | _ => v

/-- The block handed out is new, the one taken back is held, and the program writes into a block of
its own or outside the allocator's memory. -/
def Fits (op : HeapOp κ β) (h : Heap κ β) : Prop :=
  match op with
  | alloc b => b ∉ h.blocks.tiles
  | fail => True
  | free b => b ∈ h.blocks.tiles
  | write x _ => x ∈ h.blocks.covered ∨ x ∈ h.foreign

end HeapOp

namespace Heap

variable {κ β : Type*} {h h' : Heap κ β} {ops : List (HeapOp κ β)} {b : Tile κ} {x : Nat}

/-- Before the first block is handed out. -/
def bare (m : Nat → β) : Heap κ β where
  blocks := Tiling.empty
  foreign := Set.univ
  away := fun _ ht => ht.elim
  byte := m

/-- One step.  The allocator may take more memory, but changes no byte of a block that stays with
the program, and none outside its own memory. -/
structure Step (h : Heap κ β) (op : HeapOp κ β) (h' : Heap κ β) : Prop where
  fits : op.Fits h
  live : h'.blocks.tiles = op.live h.blocks.tiles
  foreign : h'.foreign ⊆ h.foreign
  block : ∀ b ∈ h.blocks.tiles, b ∈ h'.blocks.tiles → ∀ x, b.Covers x →
    h'.byte x = op.after x (h.byte x)
  outside : ∀ x ∈ h'.foreign, h'.byte x = op.after x (h.byte x)

/-- Only its return takes a block from the program. -/
theorem Step.stays {op : HeapOp κ β} (hs : h.Step op h') (hb : b ∈ h.blocks.tiles)
    (hop : op ≠ .free b) : b ∈ h'.blocks.tiles := by
  rw [hs.live]
  cases op with
  | alloc d => exact Set.mem_insert_of_mem d hb
  | fail => exact hb
  | free d =>
      refine ⟨hb, ?_⟩
      intro heq
      rw [Set.mem_singleton_iff.mp heq] at hop
      exact hop rfl
  | write y v => exact hb

/-- The byte at `x` after a list of operations, when it was `v`. -/
def written (x : Nat) (v : β) (ops : List (HeapOp κ β)) : β :=
  ops.foldl (fun v op => op.after x v) v

theorem written_snoc (x : Nat) (v : β) (ops : List (HeapOp κ β)) (op : HeapOp κ β) :
    written x v (ops ++ [op]) = op.after x (written x v ops) := by
  unfold written
  rw [List.foldl_append]
  rfl

/-- **A block keeps what was written last**, as long as it is not taken back. -/
theorem kept (hrun : Run Step h ops h') (hb : b ∈ h.blocks.tiles) (hx : b.Covers x)
    (hfree : HeapOp.free b ∉ ops) :
    b ∈ h'.blocks.tiles ∧ h'.byte x = written x (h.byte x) ops := by
  induction hrun with
  | nil => exact ⟨hb, rfl⟩
  | @snoc k k' ops op _ hstep ih =>
      have hold : HeapOp.free b ∉ ops := fun hin => hfree (List.mem_append_left _ hin)
      have hop : op ≠ .free b := by
        intro heq
        exact hfree (List.mem_append_right _ (by rw [heq]; exact List.mem_singleton.mpr rfl))
      obtain ⟨hk, hbyte⟩ := ih hold
      have hk' := hstep.stays hk hop
      refine ⟨hk', ?_⟩
      rw [written_snoc, hstep.block b hk hk' x hx, hbyte]

/-- **So does the memory that never was the allocator's.** -/
theorem kept_foreign (hrun : Run Step h ops h') (hx : x ∈ h'.foreign) :
    x ∈ h.foreign ∧ h'.byte x = written x (h.byte x) ops := by
  induction hrun with
  | nil => exact ⟨hx, rfl⟩
  | @snoc k k' ops op _ hstep ih =>
      obtain ⟨hk, hbyte⟩ := ih (hstep.foreign hx)
      refine ⟨hk, ?_⟩
      rw [written_snoc, hstep.outside x hx, hbyte]

end Heap

end RocketCo.Lib
