/-
  RocketCo.MemoryPool.Client — whole runs of a program that uses the allocator.

  A client holds the blocks it was given and not yet returned.  It allocates, returns blocks it
  holds, and writes what it likes into them; the memory outside the pool changes freely.  The
  source keeps two promises only under conditions of its own making:

    • `SafeMerge` — `RocketCoFree` merges with a neighbour that really is free.  `Refill` marks
      neither the block it returns nor a block of a one-block run, so an unmarked neighbour may be
      in use; and the test for the upper end of a chunk never fires, so the neighbour may even
      lie outside it.
    • `SafeUnlink` — the neighbour is not the tail of a longer list (`MoveToFreeList` writes
      through the null link behind it), and the fallback of `ChunkAlloc` takes a block nothing
      stands behind (it does not clear the back link of the next one).

  Under the first, blocks never overlap (`blocks_apart`); under both, the lists stay well formed
  and no step dereferences a null link (`lists_wellFormed`).
-/
import RocketCo.Lib.Run
import RocketCo.MemoryPool.Refill

namespace RocketCo.MemoryPool

open RocketCo.Lib

/-! ## §1. The client. -/

/-- The allocator and the blocks in the client's hands, each with the size it asked for. -/
structure Client where
  pool : RocketCoAlloctor
  out : List (Nat × Nat)

/-- What happens next.  `answer` is what `malloc` would say to a request made meanwhile. -/
inductive Action where
  | malloc (n : Nat) (answer : Option Nat)
  | free (p n : Nat)
  | write (a : Nat) (v : BitVec 8)

/-- One byte of memory written. -/
def writeByte (m : Mem) (a : Nat) (v : BitVec 8) : Mem := fun x => if x = a then v else m x

/-- `none` is undefined behaviour of the source. -/
def Client.step (c : Client) : Action → Option Client
  | .malloc n answer =>
      match rocketCoMalloc (fun _ => answer) c.pool n with
      | none => none
      | some (st, .ret p) => some ⟨st, (p, n) :: c.out⟩
      | some (st, .badAlloc) => some ⟨st, c.out⟩
  | .free p n =>
      match rocketCoFree c.pool p n with
      | none => none
      | some st => some ⟨st, c.out.erase (p, n)⟩
  | .write a v => some ⟨{ c.pool with mem := writeByte c.pool.mem a v }, c.out⟩

/-- What a step can do. -/
inductive Client.Stepped (c : Client) : Action → Client → Prop
  | malloc {n : Nat} {answer : Option Nat} {st : RocketCoAlloctor} {p : Nat}
      (hres : rocketCoMalloc (fun _ => answer) c.pool n = some (st, .ret p)) :
      Stepped c (.malloc n answer) ⟨st, (p, n) :: c.out⟩
  | badAlloc {n : Nat} {answer : Option Nat} {st : RocketCoAlloctor}
      (hres : rocketCoMalloc (fun _ => answer) c.pool n = some (st, .badAlloc)) :
      Stepped c (.malloc n answer) ⟨st, c.out⟩
  | free {p n : Nat} {st : RocketCoAlloctor} (hres : rocketCoFree c.pool p n = some st) :
      Stepped c (.free p n) ⟨st, c.out.erase (p, n)⟩
  | write (a : Nat) (v : BitVec 8) :
      Stepped c (.write a v) ⟨{ c.pool with mem := writeByte c.pool.mem a v }, c.out⟩

theorem Client.stepped {c c' : Client} {a : Action} (h : c.step a = some c') : c.Stepped a c' := by
  unfold Client.step at h
  cases a with
  | malloc n answer =>
      simp only at h
      split at h
      · cases h
      · next hres =>
          rw [← Option.some.inj h]
          exact .malloc hres
      · next hres =>
          rw [← Option.some.inj h]
          exact .badAlloc hres
  | free p n =>
      simp only at h
      split at h
      · cases h
      · next hres =>
          rw [← Option.some.inj h]
          exact .free hres
  | write x v =>
      rw [← Option.some.inj h]
      exact .write x v

/-- Address `x` lies in a block the client holds. -/
def Held (c : Client) (x : Nat) : Prop := ∃ b ∈ c.out, b.1 ≤ x ∧ x < b.1 + dataAlignment b.2

/-- Address `x` lies in no chunk. -/
def Outside (c : Client) (x : Nat) : Prop :=
  ∀ iv ∈ c.pool.pointerEffectiveInterval, iv.1 = 0 ∨ x < iv.1 ∨ iv.2 ≤ x

instance (c : Client) (x : Nat) : Decidable (Held c x) := inferInstanceAs (Decidable (∃ _ ∈ _, _))

instance (c : Client) (x : Nat) : Decidable (Outside c x) :=
  inferInstanceAs (Decidable (∀ _ ∈ _, _))

/-- The actions of a well-behaved client, over a `malloc` that hands out fresh regions. -/
def Allowed (c : Client) : Action → Prop
  | .malloc n answer => 1 ≤ n ∧ n ≤ thirdSlot ∧ ∀ a ∈ answer,
      FreshRegion c.pool.pointerEffectiveInterval a (2 * (dataAlignment n * refillNumber))
  | .free p n => (p, n) ∈ c.out
  | .write a _ => Held c a ∨ Outside c a

instance (c : Client) : ∀ a, Decidable (Allowed c a)
  | .malloc n answer => by
      unfold Allowed
      cases answer with
      | none => exact decidable_of_iff (1 ≤ n ∧ n ≤ thirdSlot) (by simp)
      | some a =>
          exact decidable_of_iff (1 ≤ n ∧ n ≤ thirdSlot ∧
            FreshRegion c.pool.pointerEffectiveInterval a (2 * (dataAlignment n * refillNumber)))
            (by simp)
  | .free p n => inferInstanceAs (Decidable ((p, n) ∈ c.out))
  | .write a _ => inferInstanceAs (Decidable (Held c a ∨ Outside c a))

/-- The underlying `malloc` does not fail. -/
def Succeeds : Action → Prop
  | .malloc _ answer => answer ≠ none
  | _ => True

/-- The client before its first call. -/
def Client.start (m : Mem) : Client := ⟨RocketCoAlloctor.init m, []⟩

/-! ## §2. The two conditions. -/

/-- Address `x` is neither in a block the client holds nor in the unused region. -/
def NotInUse (c : Client) (x : Nat) : Prop :=
  ¬ Held c x ∧ ¬ (c.pool.startfree ≤ x ∧ x < c.pool.endfree)

instance (c : Client) (x : Nat) : Decidable (NotInUse c x) := inferInstanceAs (Decidable (_ ∧ _))

/-- The neighbour `RocketCoFree` merges with is not in use, and lies in the same chunk. -/
def SafeMerge (c : Client) : Action → Prop
  | .free p n => ∀ item ∈ findInterval c.pool.pointerEffectiveInterval p,
      (MergesLeft c.pool item p (dataAlignment n) → NotInUse c (p - 1)) ∧
      (¬ MergesLeft c.pool item p (dataAlignment n) →
        MergesRight c.pool item p (dataAlignment n) →
        p + dataAlignment n < item.2 ∧ NotInUse c (p + dataAlignment n))
  | _ => True

/-- No merge takes a tail, and no fallback takes a block something stands behind. -/
def SafeUnlink (c : Client) : Action → Prop
  | .free p n => ∀ item ∈ findInterval c.pool.pointerEffectiveInterval p,
      ¬ MergesTail c.pool item p (dataAlignment n)
  | .malloc n answer => SafeFallback c.pool (dataAlignment n) answer
  | .write _ _ => True

instance (c : Client) : ∀ a, Decidable (SafeMerge c a)
  | .free _ _ => inferInstanceAs (Decidable (∀ _ ∈ _, _))
  | .malloc _ _ => .isTrue trivial
  | .write _ _ => .isTrue trivial

instance (c : Client) : ∀ a, Decidable (SafeUnlink c a)
  | .free _ _ => inferInstanceAs (Decidable (∀ _ ∈ _, _))
  | .malloc _ _ => inferInstanceAs (Decidable (SafeFallback _ _ _))
  | .write _ _ => .isTrue trivial

instance : ∀ a, Decidable (Succeeds a)
  | .malloc _ _ => inferInstanceAs (Decidable (_ ≠ _))
  | .free _ _ => .isTrue trivial
  | .write _ _ => .isTrue trivial

/-- A fallback needs a failing `malloc`. -/
theorem Succeeds.safeFallback {c : Client} {n : Nat} {answer : Option Nat}
    (h : Succeeds (.malloc n answer)) : SafeFallback c.pool (dataAlignment n) answer := by
  intro hnone
  exact absurd hnone h

/-! ## §3. The invariant. -/

/-- The block of a client's entry. -/
def tileOf (b : Nat × Nat) : Tile Owner := ⟨.user, b.1, dataAlignment b.2⟩

/-- The pool is well formed and its user tiles are the blocks the client holds. -/
structure ClientInv (c : Client) (T : Tiling Owner) : Prop where
  pool : Pool c.pool T
  held : ∀ t, t ∈ users T ↔ ∃ b ∈ c.out, t = tileOf b
  nodup : (c.out.map Prod.fst).Nodup
  sizes : ∀ b ∈ c.out, 0 < b.2 ∧ b.2 ≤ thirdSlot

section Inv

variable {c c' : Client} {T : Tiling Owner}

theorem ClientInv.tile (h : ClientInv c T) {b : Nat × Nat} (hb : b ∈ c.out) :
    tileOf b ∈ T.tiles := ((h.held _).mpr ⟨b, hb, rfl⟩).1

theorem ClientInv.start (m : Mem) : ClientInv (Client.start m) Tiling.empty := by
  have hnot : ∀ c, ¬ IsChunk [(longMax, longMax)] c := by
    intro c ⟨hc, _, hlt⟩
    rw [List.mem_singleton.mp hc] at hlt
    exact absurd hlt (Nat.lt_irrefl _)
  refine ⟨⟨fun _ => [], fun _ => [], ?_, ?_, ?_⟩, ?_, List.nodup_nil, fun b hb => by cases hb⟩
  · refine ⟨List.pairwise_singleton _ _, List.mem_singleton.mpr rfl, ?_, ?_, ?_, ?_⟩
    · intro c hc
      exact Or.inl (List.mem_singleton.mp hc)
    · intro c d hc
      exact absurd hc (hnot c)
    · intro t ht
      exact ht.elim
    · intro c hc
      exact absurd hc (hnot c)
  · refine ⟨fun _ => rfl, fun _ => trivial, ?_, fun _ => List.nodup_nil, ?_,
      fun t ht => ht.elim, fun t ht => ht.elim⟩
    · intro i l hl
      simp at hl
    · intro i a ha
      simp [nodes] at ha
  · refine ⟨Nat.le_refl 0, ?_, fun hlt => absurd hlt (Nat.lt_irrefl 0)⟩
    intro t
    constructor
    · intro ⟨ht, _⟩
      exact ht.elim
    · intro ⟨hlt, _⟩
      exact absurd hlt (Nat.lt_irrefl 0)
  · intro t
    constructor
    · intro ⟨ht, _⟩
      exact ht.elim
    · intro ⟨b, hb, _⟩
      cases hb

/-- A byte of a chunk that is not in use is free. -/
theorem ClientInv.free_of_notInUse (h : ClientInv c T) {iv : Nat × Nat}
    (hiv : IsChunk c.pool.pointerEffectiveInterval iv) {x : Nat} (hlo : iv.1 ≤ x) (hhi : x < iv.2)
    (hx : NotInUse c x) : ∃ t ∈ T.tiles, t.kind = .free ∧ t.Covers x := by
  obtain ⟨t, ht, hcov⟩ := h.pool.chunkInv.cover iv hiv x hlo hhi
  refine ⟨t, ht, ?_, hcov⟩
  cases hk : t.kind with
  | free => rfl
  | user =>
      obtain ⟨b, hb, heq⟩ := (h.held t).mp ⟨ht, hk⟩
      rw [heq] at hcov
      exact absurd ⟨b, hb, hcov⟩ hx.1
  | unused =>
      obtain ⟨cur, lost, hp⟩ := h.pool
      obtain ⟨hlt, heq⟩ := (hp.region.unused t).mp ⟨ht, hk⟩
      rw [heq] at hcov
      obtain ⟨h1, h2⟩ := hcov
      simp only at h1 h2
      exact absurd ⟨h1, by omega⟩ hx.2

/-- A write into a held block or outside the pool. -/
theorem ClientInv.write_lists (h : ClientInv c T) {cur : Nat → List Nat}
    {lost : Nat → List (List Nat)} (hp : PoolInv c.pool T cur lost) {a : Nat} (v : BitVec 8)
    (ha : Held c a ∨ Outside c a) :
    PoolInv { c.pool with mem := writeByte c.pool.mem a v } T cur lost := by
  refine ⟨hp.chunks, hp.lists.of_agree ?_, hp.region⟩
  intro t ht hk x hlo hhi
  have hne : x ≠ a := by
    intro heq
    rw [heq] at hlo hhi
    rcases ha with ⟨b, hb, hblo, hbhi⟩ | hout
    · have htb := T.eq_of_covers ht (h.tile hb) ⟨hlo, hhi⟩ ⟨hblo, hbhi⟩
      rw [htb] at hk
      simp [tileOf] at hk
    · obtain ⟨iv, ⟨hiv, hpos, _⟩, hivlo, hivhi⟩ := hp.chunks.within t ht
      have := hout iv hiv
      omega
  show (if x = a then v else c.pool.mem x) = c.pool.mem x
  rw [if_neg hne]

theorem ClientInv.write (h : ClientInv c T) {a : Nat} (v : BitVec 8)
    (ha : Held c a ∨ Outside c a) :
    ClientInv ⟨{ c.pool with mem := writeByte c.pool.mem a v }, c.out⟩ T := by
  obtain ⟨cur, lost, hp⟩ := h.pool
  exact ⟨⟨cur, lost, h.write_lists hp v ha⟩, h.held, h.nodup, h.sizes⟩

/-- The client after an allocation. -/
theorem ClientInv.allocated (h : ClientInv c T) {n : Nat} {answer : Option Nat} (hn : 0 < n)
    (hle : n ≤ thirdSlot) {st' : RocketCoAlloctor} {r : MallocResult} {T' : Tiling Owner}
    (hres : rocketCoMalloc (fun _ => answer) c.pool n = some (st', r)) (hpool : Pool st' T')
    (halloc : Allocated T T' (dataAlignment n) r) :
    ∃ c', c.step (.malloc n answer) = some c' ∧ c'.pool = st' ∧ ClientInv c' T' := by
  unfold Client.step
  simp only [hres]
  cases r with
  | badAlloc =>
      refine ⟨_, rfl, rfl, hpool, ?_, h.nodup, h.sizes⟩
      intro t
      -- what malloc refuses changes nobody's blocks
      rw [show users T' = users T from halloc]
      exact h.held t
  | ret p =>
      obtain ⟨hnot, husers⟩ := halloc
      refine ⟨_, rfl, rfl, hpool, ?_, ?_, ?_⟩
      · intro t
        rw [husers, Set.mem_insert_iff, h.held t]
        constructor
        · intro hor
          rcases hor with heq | ⟨b, hb, heq⟩
          · exact ⟨(p, n), List.mem_cons_self, heq⟩
          · exact ⟨b, List.mem_cons_of_mem _ hb, heq⟩
        · intro ⟨b, hb, heq⟩
          rcases List.mem_cons.mp hb with hpn | hold
          · left
            rw [heq, hpn]
            rfl
          · exact Or.inr ⟨b, hold, heq⟩
      · -- no other block starts at `p`
        refine List.nodup_cons.mpr ⟨?_, h.nodup⟩
        intro hin
        obtain ⟨b, hb, hbp⟩ := List.mem_map.mp hin
        have hnew : (⟨.user, p, dataAlignment n⟩ : Tile Owner) ∈ users T' := by
          rw [husers]
          exact Set.mem_insert _ _
        have hold : tileOf b ∈ users T' := by
          rw [husers]
          exact Set.mem_insert_of_mem _ ((h.held _).mpr ⟨b, hb, rfl⟩)
        have heq := T'.eq_of_base hnew.1 hold.1 hbp.symm
        rw [heq] at hnot
        exact hnot ((h.held _).mpr ⟨b, hb, rfl⟩)
      · intro b hb
        rcases List.mem_cons.mp hb with hpn | hold
        · rw [hpn]
          exact ⟨hn, hle⟩
        · exact h.sizes b hold

/-- **An allocation.** -/
theorem ClientInv.malloc (h : ClientInv c T) {n : Nat} {answer : Option Nat}
    (ha : Allowed c (.malloc n answer)) (hs : SafeFallback c.pool (dataAlignment n) answer) :
    ∃ c' T', c.step (.malloc n answer) = some c' ∧ ClientInv c' T' := by
  obtain ⟨hn, hle, hfresh⟩ := ha
  obtain ⟨st', r, T', hres, hpool, halloc⟩ := h.pool.malloc_spec hn hle
    (fun a heq => hfresh a (by rw [heq]; rfl)) hs
  obtain ⟨c', hstep, _, hinv⟩ := h.allocated hn hle hres hpool halloc
  exact ⟨c', T', hstep, hinv⟩

/-- Returning a block: two entries of the client never start at one address. -/
theorem ClientInv.erase_out (h : ClientInv c T) {b : Nat × Nat} (hb : b ∈ c.out) (d : Nat × Nat) :
    d ∈ c.out.erase b ↔ d ∈ c.out ∧ tileOf d ≠ tileOf b := by
  have hnd : c.out.Nodup := List.Nodup.of_map _ h.nodup
  rw [hnd.mem_erase_iff]
  constructor
  · intro ⟨hne, hd⟩
    refine ⟨hd, ?_⟩
    intro heq
    exact hne (List.inj_on_of_nodup_map h.nodup hd hb (congrArg Tile.base heq))
  · intro ⟨hd, hne⟩
    refine ⟨?_, hd⟩
    intro heq
    exact hne (by rw [heq])

/-- **A return.**  It dereferences a null link exactly when it merges with a tail. -/
theorem ClientInv.free (h : ClientInv c T) {p n : Nat} (ha : Allowed c (.free p n))
    (hs : SafeMerge c (.free p n)) :
    ∃ c' T', ClientInv c' T' ∧ (c.step (.free p n) = some c' ∨
      (c.step (.free p n) = none ∧ ¬ SafeUnlink c (.free p n))) := by
  have hb : (p, n) ∈ c.out := ha
  have ht : (⟨.user, p, dataAlignment n⟩ : Tile Owner) ∈ T.tiles := h.tile hb
  obtain ⟨hn, hle⟩ := h.sizes _ hb
  have hsized : SlotSized (dataAlignment n) := dataAlignment_slotSized hn hle
  obtain ⟨iv, hiv, hlo, hhi⟩ := h.pool.chunkInv.within _ ht
  simp only at hlo hhi
  have hpos := hsized.pos
  have hfind := h.pool.chunkInv.findInterval_eq hiv hlo (by omega)
  -- `SafeMerge` speaks of the chunk that the code finds
  obtain ⟨hleft, hright⟩ := hs iv (by rw [hfind]; rfl)
  obtain ⟨st', T', hres, hpool, _, husers⟩ := h.pool.free_spec rfl ht hsized (dataAlignment_le hle)
    hiv hlo hhi
    (by
      intro hm
      have hne : p ≠ iv.1 := by
        have hlook := hm.1
        unfold looksLeft at hlook
        simp only [Bool.and_eq_true, decide_eq_true_eq] at hlook
        exact hlook.1
      exact h.free_of_notInUse hiv (by omega) (by omega) (hleft hm))
    (by
      intro hnm hm
      obtain ⟨hlt, hnot⟩ := hright hnm hm
      obtain ⟨t, htt, hk, hcov⟩ := h.free_of_notInUse hiv (by omega) hlt hnot
      exact ⟨t, htt, hk, hcov, hlt⟩)
  refine ⟨⟨st', c.out.erase (p, n)⟩, T', ⟨hpool, ?_, ?_, ?_⟩, ?_⟩
  · intro t
    rw [husers, Set.mem_sdiff, h.held t, Set.mem_singleton_iff]
    constructor
    · intro ⟨⟨b, hbo, heq⟩, hne⟩
      refine ⟨b, (h.erase_out hb b).mpr ⟨hbo, ?_⟩, heq⟩
      rw [← heq]
      exact hne
    · intro ⟨b, hbo, heq⟩
      obtain ⟨hbo', hne⟩ := (h.erase_out hb b).mp hbo
      refine ⟨⟨b, hbo', heq⟩, ?_⟩
      rw [heq]
      exact hne
  · exact (h.nodup.sublist (List.Sublist.map _ List.erase_sublist))
  · intro b hbo
    exact h.sizes b ((h.erase_out hb b).mp hbo).1
  · unfold Client.step
    simp only [hres]
    -- the free faults exactly when it merges with the tail of a list
    by_cases htail : MergesTail c.pool iv p (dataAlignment n)
    · right
      rw [if_pos htail]
      refine ⟨rfl, ?_⟩
      intro hsafe
      exact hsafe iv (by rw [hfind]; rfl) htail
    · left
      rw [if_neg htail]

end Inv

/-- Every step under `SafeMerge` and a fallback that is safe keeps the invariant. -/
theorem ClientInv.step {c c' : Client} {T : Tiling Owner} (h : ClientInv c T) {a : Action}
    (ha : Allowed c a) (hm : SafeMerge c a)
    (hf : ∀ n answer, a = .malloc n answer → SafeFallback c.pool (dataAlignment n) answer)
    (hstep : c.step a = some c') : ∃ T', ClientInv c' T' := by
  cases a with
  | malloc n answer =>
      obtain ⟨d, T', hres, hinv⟩ := h.malloc ha (hf n answer rfl)
      rw [hres] at hstep
      exact ⟨T', Option.some.inj hstep ▸ hinv⟩
  | free p n =>
      obtain ⟨d, T', hinv, hres | ⟨hres, _⟩⟩ := h.free ha hm
      · rw [hres] at hstep
        exact ⟨T', Option.some.inj hstep ▸ hinv⟩
      · rw [hres] at hstep
        simp at hstep
  | write x v =>
      exact ⟨T, Option.some.inj hstep ▸ h.write v ha⟩

/-! ## §4. Blocks never overlap. -/

/-- A block linked from the head of free list `i`. -/
inductive Linked (st : RocketCoAlloctor) (i : Nat) : Nat → Prop
  | head (h : st.freeList i ≠ 0) : Linked st i (st.freeList i)
  | next {a : Nat} (ha : Linked st i a) (h : nextOf st.mem a ≠ 0) : Linked st i (nextOf st.mem a)

/-- What a linked block is in the ghost chains. -/
theorem ListInv.mem_cur_of_linked {st : RocketCoAlloctor} {T : Tiling Owner}
    {cur : Nat → List Nat} {lost : Nat → List (List Nat)}
    (h : ListInv st.freeList st.mem T cur lost) {i a : Nat} (ha : Linked st i a) : a ∈ cur i := by
  induction ha with
  | head h0 =>
      obtain ⟨l, hl⟩ := h.cur_of_head h0
      rw [hl]
      exact List.mem_cons_self
  | next _ hne ih =>
      obtain ⟨l₁, l₂, hsplit⟩ := List.append_of_mem ih
      have hc := h.chain i
      rw [hsplit] at hc ⊢
      have hnext := hc.next_eq
      cases l₂ with
      | nil =>
          rw [hnext] at hne
          simp at hne
      | cons b l =>
          rw [hnext]
          simp

/-- The blocks a client holds: at least as long as asked for, each inside one chunk, disjoint from
each other, from every linked free block and from the unused region. -/
structure BlocksApart (c : Client) : Prop where
  sized : ∀ b ∈ c.out, b.2 ≤ dataAlignment b.2
  inChunk : ∀ b ∈ c.out, ∃ iv, IsChunk c.pool.pointerEffectiveInterval iv ∧
    iv.1 ≤ b.1 ∧ b.1 + dataAlignment b.2 ≤ iv.2
  apart : c.out.Pairwise fun b d =>
    b.1 + dataAlignment b.2 ≤ d.1 ∨ d.1 + dataAlignment d.2 ≤ b.1
  free : ∀ b ∈ c.out, ∀ i a, Linked c.pool i a →
    a + itemLengthOf c.pool.mem a ≤ b.1 ∨ b.1 + dataAlignment b.2 ≤ a
  unused : ∀ b ∈ c.out, ∀ x, b.1 ≤ x → x < b.1 + dataAlignment b.2 →
    ¬ (c.pool.startfree ≤ x ∧ x < c.pool.endfree)

theorem ClientInv.blocksApart {c : Client} {T : Tiling Owner} (h : ClientInv c T) :
    BlocksApart c := by
  refine ⟨fun b _ => le_dataAlignment b.2, ?_, ?_, ?_, ?_⟩
  · intro b hb
    exact h.pool.chunkInv.within _ (h.tile hb)
  · -- different entries start at different addresses, so they are different tiles
    have hne : c.out.Pairwise fun b d => b.1 ≠ d.1 := List.pairwise_map.mp h.nodup
    refine hne.imp_of_mem ?_
    intro b d hb hd hbd
    exact T.apart _ (h.tile hb) _ (h.tile hd) fun heq => hbd (congrArg Tile.base heq)
  · intro b hb i a ha
    obtain ⟨cur, lost, hp⟩ := h.pool
    have hmem : a ∈ nodes cur lost i := cur_sub (hp.lists.mem_cur_of_linked ha)
    have hlen : itemLengthOf c.pool.mem a = slotLength i :=
      (hp.lists.free _ (hp.lists.node_tile hmem) rfl).2.2.2.length
    rw [hlen]
    exact hp.lists.user_apart (h.tile hb) hmem
  · intro b hb x hlo hhi ⟨hs, he⟩
    obtain ⟨cur, lost, hp⟩ := h.pool
    have hu := ((hp.region.unused _).mpr ⟨by omega, rfl⟩).1
    have heq := T.eq_of_covers (h.tile hb) hu ⟨hlo, hhi⟩ (x := x) ⟨hs, by simp only; omega⟩
    exact absurd (congrArg Tile.kind heq) (by simp [tileOf])

/-- One step of a well-behaved client over a `malloc` that never fails. -/
def Plays (c : Client) (a : Action) (c' : Client) : Prop :=
  Allowed c a ∧ Succeeds a ∧ c.step a = some c'

/-- **Blocks never overlap** as long as every merge finds a neighbour that is not in use. -/
theorem blocks_apart {m : Mem} {as : List Action} {c : Client}
    (h : Run (fun c a c' => Plays c a c' ∧ SafeMerge c a) (Client.start m) as c) :
    BlocksApart c := by
  have hinv : ∃ T, ClientInv c T := by
    refine h.invariant (I := fun c => ∃ T, ClientInv c T) ?_ ⟨_, ClientInv.start m⟩
    intro c a c' ⟨T, hT⟩ ⟨⟨hallowed, hsucc, hstep⟩, hmerge⟩
    refine hT.step hallowed hmerge ?_ hstep
    intro n answer heq
    rw [heq] at hsucc
    exact hsucc.safeFallback
  obtain ⟨T, hT⟩ := hinv
  exact hT.blocksApart

/-- Three blocks are handed out and the last one, whose upper neighbour is free, comes back. -/
theorem blocks_apart_merge : ∃ c, Run (fun c a c' => Plays c a c' ∧ SafeMerge c a)
    (Client.start fun _ => 0) [.malloc 512 (some 4096), .malloc 512 (some 40960),
      .malloc 512 (some 40960), .free 5120 512] c ∧ BlocksApart c := by
  have hcheck : checkRun Client.step
      (fun c a => decide (Allowed c a ∧ Succeeds a ∧ SafeMerge c a)) (Client.start fun _ => 0)
      [.malloc 512 (some 4096), .malloc 512 (some 40960), .malloc 512 (some 40960),
        .free 5120 512] (fun _ => true) = true := by
    decide +kernel
  have hof : ∀ c a c', decide (Allowed c a ∧ Succeeds a ∧ SafeMerge c a) = true →
      c.step a = some c' → Plays c a c' ∧ SafeMerge c a := by
    intro c a c' hok hstep
    obtain ⟨h1, h2, h3⟩ := of_decide_eq_true hok
    exact ⟨⟨h1, h2, hstep⟩, h3⟩
  obtain ⟨c, hrun, -⟩ := Run.of_check hof hcheck
  exact ⟨c, hrun, blocks_apart hrun⟩

/-- The client writes into its first block, which carries no mark; freeing the second merges the
first one, still in use, onto a free list. -/
theorem not_blocks_apart : ∃ c, Run Plays (Client.start fun _ => 0)
    [.malloc 512 (some 4096), .malloc 512 (some 40960), .write 4601 2, .free 4608 512] c ∧
      ¬ BlocksApart c := by
  have hcheck : checkRun Client.step (fun c a => decide (Allowed c a ∧ Succeeds a))
      (Client.start fun _ => 0) [.malloc 512 (some 4096), .malloc 512 (some 40960),
        .write 4601 2, .free 4608 512]
      (fun c => c.pool.freeList 1 == 4096 && c.out == [(4096, 512)] &&
        itemLengthOf c.pool.mem 4096 == 1024) = true := by
    decide +kernel
  have hof : ∀ c a c', decide (Allowed c a ∧ Succeeds a) = true → c.step a = some c' →
      Plays c a c' := by
    intro c a c' hok hstep
    obtain ⟨h1, h2⟩ := of_decide_eq_true hok
    exact ⟨h1, h2, hstep⟩
  obtain ⟨c, hrun, hend⟩ := Run.of_check hof hcheck
  simp only [Bool.and_eq_true, beq_iff_eq] at hend
  obtain ⟨⟨hhead, hout⟩, hlen⟩ := hend
  refine ⟨c, hrun, ?_⟩
  intro h
  have hlinked : Linked c.pool 1 4096 := by
    have hne : c.pool.freeList 1 ≠ 0 := by
      rw [hhead]
      decide
    exact hhead ▸ Linked.head hne
  have hfar := h.free (4096, 512) (by rw [hout]; exact List.mem_singleton.mpr rfl) 1 4096
    hlinked
  rw [hlen] at hfar
  have hal : dataAlignment 512 = 512 := by decide
  simp only [hal] at hfar
  omega

/-! ## §5. The free lists stay well formed. -/

/-- Free list `i` holds the nodes `l`: properly linked, none twice, each with its slot and both
its lengths. -/
structure ListOk (st : RocketCoAlloctor) (i : Nat) (l : List Nat) : Prop where
  head : st.freeList i = l.headD 0
  chain : Chain st.mem l
  nodup : l.Nodup
  nonnull : ∀ a ∈ l, a ≠ 0
  slot : ∀ a ∈ l, slotOf st.mem a = i
  length : ∀ a ∈ l, index2SlotLength i = some (itemLengthOf st.mem a)
  trailer : ∀ a ∈ l, itemLengthOf st.mem (a + (itemLengthOf st.mem a - nodeSize)) =
    itemLengthOf st.mem a

/-- All free lists are well formed. -/
def WellFormed (st : RocketCoAlloctor) : Prop := ∀ i, i < slotCount → ∃ l, ListOk st i l

theorem Pool.wellFormed {st : RocketCoAlloctor} {T : Tiling Owner} (h : Pool st T) :
    WellFormed st := by
  obtain ⟨cur, lost, hp⟩ := h
  intro i hi
  have hnode : ∀ a ∈ cur i, NodeOk st.mem a (slotLength i) := by
    intro a ha
    exact (hp.lists.free _ (hp.lists.node_tile (cur_sub ha)) rfl).2.2.2
  refine ⟨cur i, hp.lists.head i, hp.lists.chain i, (List.nodup_append.mp (hp.lists.nodup i)).1,
    ?_, ?_, ?_, ?_⟩
  · intro a ha
    have := hp.lists.node_pos (cur_sub ha)
    omega
  · intro a ha
    rw [(hnode a ha).slot]
    exact (hp.lists.node i a (cur_sub ha)).2.1
  · intro a ha
    rw [(hnode a ha).length]
    exact index2SlotLength_eq_slotLength hi
  · intro a ha
    rw [(hnode a ha).length]
    exact (hnode a ha).trailer

/-- Under both conditions no step dereferences a null link. -/
theorem ClientInv.no_fault {c : Client} {T : Tiling Owner} (h : ClientInv c T) {a : Action}
    (ha : Allowed c a) (hm : SafeMerge c a) (hu : SafeUnlink c a) : c.step a ≠ none := by
  cases a with
  | malloc n answer =>
      obtain ⟨d, T', hres, _⟩ := h.malloc ha hu
      rw [hres]
      simp
  | free p n =>
      obtain ⟨d, T', _, hres | ⟨_, hnot⟩⟩ := h.free ha hm
      · rw [hres]
        simp
      · exact absurd hu hnot
  | write x v => simp [Client.step]

/-- One step of a well-behaved client, whatever `malloc` answers. -/
def Calls (c : Client) (a : Action) (c' : Client) : Prop := Allowed c a ∧ c.step a = some c'

/-- **The lists stay well formed and no null link is dereferenced**, as long as every merge finds
a neighbour that is neither in use nor a tail, and every fallback the only block of its list. -/
theorem lists_wellFormed {m : Mem} {as : List Action} {c : Client}
    (h : Run (fun c a c' => Calls c a c' ∧ SafeMerge c a ∧ SafeUnlink c a) (Client.start m) as c) :
    WellFormed c.pool ∧
      ∀ a, Allowed c a → SafeMerge c a → SafeUnlink c a → c.step a ≠ none := by
  have hinv : ∃ T, ClientInv c T := by
    refine h.invariant (I := fun c => ∃ T, ClientInv c T) ?_ ⟨_, ClientInv.start m⟩
    intro c a c' ⟨T, hT⟩ ⟨⟨hallowed, hstep⟩, hmerge, hunlink⟩
    refine hT.step hallowed hmerge ?_ hstep
    intro n answer heq
    rw [heq] at hunlink
    exact hunlink
  obtain ⟨T, hT⟩ := hinv
  exact ⟨hT.pool.wellFormed, fun a ha hm hu => hT.no_fault ha hm hu⟩

/-- A failing `malloc` without anything to fall back on, then a block out of a fresh chunk. -/
theorem lists_wellFormed_retry : ∃ c, Run
    (fun c a c' => Calls c a c' ∧ SafeMerge c a ∧ SafeUnlink c a) (Client.start fun _ => 0)
    [.malloc 512 none, .malloc 512 (some 4096), .malloc 512 none] c ∧ WellFormed c.pool := by
  have hcheck : checkRun Client.step
      (fun c a => decide (Allowed c a ∧ SafeMerge c a ∧ SafeUnlink c a)) (Client.start fun _ => 0)
      [.malloc 512 none, .malloc 512 (some 4096), .malloc 512 none] (fun _ => true) = true := by
    decide +kernel
  have hof : ∀ c a c', decide (Allowed c a ∧ SafeMerge c a ∧ SafeUnlink c a) = true →
      c.step a = some c' → Calls c a c' ∧ SafeMerge c a ∧ SafeUnlink c a := by
    intro c a c' hok hstep
    obtain ⟨h1, h2, h3⟩ := of_decide_eq_true hok
    exact ⟨⟨h1, hstep⟩, h2, h3⟩
  obtain ⟨c, hrun, -⟩ := Run.of_check hof hcheck
  exact ⟨c, hrun, (lists_wellFormed hrun).1⟩

/-- A second run of blocks starts right behind the tail of the first list; freeing its first block
unlinks that tail, and `MoveToFreeList` dereferences the null link behind it. -/
theorem not_lists_wellFormed : ∃ c, Run Calls (Client.start fun _ => 0)
    [.malloc 512 (some 4096), .malloc 1024 none] c ∧ Allowed c (.free 14336 1024) ∧
      prevOf c.pool.mem 13824 ≠ 0 ∧ nextOf c.pool.mem 13824 = 0 ∧
      c.step (.free 14336 1024) = none := by
  have hcheck : checkRun Client.step (fun c a => decide (Allowed c a))
      (Client.start fun _ => 0) [.malloc 512 (some 4096), .malloc 1024 none]
      (fun c => decide (Allowed c (.free 14336 1024)) && decide (prevOf c.pool.mem 13824 ≠ 0) &&
        decide (nextOf c.pool.mem 13824 = 0) && (c.step (.free 14336 1024)).isNone) = true := by
    decide +kernel
  have hof : ∀ c a c', decide (Allowed c a) = true → c.step a = some c' → Calls c a c' :=
    fun _ _ _ hok hstep => ⟨of_decide_eq_true hok, hstep⟩
  obtain ⟨c, hrun, hend⟩ := Run.of_check hof hcheck
  simp only [Bool.and_eq_true, decide_eq_true_eq, Option.isNone_iff_eq_none] at hend
  obtain ⟨⟨⟨h1, h2⟩, h3⟩, h4⟩ := hend
  exact ⟨c, hrun, h1, h2, h3, h4⟩

end RocketCo.MemoryPool
