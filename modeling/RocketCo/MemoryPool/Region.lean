/-
  RocketCo.MemoryPool.Region — the length of the unused region, whatever the memory holds.

  `[startfree, endfree)` changes in `ChunkAlloc` only, and only by lengths: a run of blocks is taken
  from its front, a chunk for twice twenty blocks replaces it, or the slot length of a list does.  So
  its length stays a slot length in every run, also when the free lists have been broken, when blocks
  are returned that were never handed out, and whatever `malloc` answers.

  Main results:
    • `leftover_pieces` — the rest of a region goes to the lists of its pieces' lengths,
    • `fallback_complete_iff` — when the search for a longer block misses one.
-/
import RocketCo.MemoryPool.Client

namespace RocketCo.MemoryPool

open RocketCo.Lib

/-! ## §1. The invariant. -/

/-- Nothing, or a slot length at an address other than `nullptr`. -/
structure RegionOk (st : RocketCoAlloctor) : Prop where
  start_le : st.startfree ≤ st.endfree
  sized : st.startfree < st.endfree →
    0 < st.startfree ∧ SlotSized (st.endfree - st.startfree)

variable {st st' st₁ : RocketCoAlloctor} {L : Nat}

theorem RegionOk.init (m : Mem) : RegionOk (RocketCoAlloctor.init m) :=
  ⟨Nat.le_refl 0, fun h => absurd h (Nat.lt_irrefl 0)⟩

/-- What the edits of the free lists leave alone. -/
structure Untouched (st st' : RocketCoAlloctor) : Prop where
  start : st'.startfree = st.startfree
  stop : st'.endfree = st.endfree
  marks : st'.markAllocatedBlock = st.markAllocatedBlock

/-- An edit of the free lists changes their heads and the memory. -/
def Edited (st st' : RocketCoAlloctor) : Prop :=
  ∃ freeList mem, st' = { st with freeList := freeList, mem := mem }

theorem Edited.refl (st : RocketCoAlloctor) : Edited st st := ⟨st.freeList, st.mem, rfl⟩

theorem Edited.trans {a b c : RocketCoAlloctor} (h : Edited a b) (h' : Edited b c) :
    Edited a c := by
  obtain ⟨_, _, hb⟩ := h
  obtain ⟨freeList, mem, hc⟩ := h'
  subst hb
  exact ⟨freeList, mem, hc⟩

theorem Edited.untouched (h : Edited st st') : Untouched st st' := by
  obtain ⟨_, _, heq⟩ := h
  subst heq
  exact ⟨rfl, rfl, rfl⟩

theorem Edited.pairs (h : Edited st st') :
    st'.pointerEffectiveInterval = st.pointerEffectiveInterval := by
  obtain ⟨_, _, heq⟩ := h
  subst heq
  rfl

theorem RegionOk.same (h : RegionOk st) (hstart : st'.startfree = st.startfree)
    (hstop : st'.endfree = st.endfree) : RegionOk st' := by
  constructor
  · rw [hstart, hstop]
    exact h.start_le
  · rw [hstart, hstop]
    exact h.sized

/-! ## §2. What leaves the region alone. -/

theorem setBlock2FreeList_edited {ptr len : Nat} (h : setBlock2FreeList st ptr len = some st') :
    Edited st st' := by
  unfold setBlock2FreeList at h
  simp only at h
  split at h
  · cases h
  · exact ⟨_, _, (Option.some.inj h).symm⟩

theorem moveToFreeList_edited {ptr len : Nat} (h : moveToFreeList st ptr len = some st') :
    Edited st st' := by
  unfold moveToFreeList at h
  simp only at h
  split at h
  · split at h
    · cases h
    · exact ⟨_, _, (Option.some.inj h).symm⟩
  · split at h
    · cases h
    · exact ⟨_, _, (Option.some.inj h).symm⟩

theorem mergeData_edited {lhs lenA rhs lenB : Nat} {flag : LeftOrRightMod} {b : Bool}
    (h : mergeData st lhs lenA rhs lenB flag = some (st', b)) : Edited st st' := by
  unfold mergeData at h
  simp only at h
  split at h
  · split at h
    · cases h
    · next st₁ hunlinked =>
        have hfirst : Edited st st₁ := by
          cases flag with
          | leftNeedModified => exact moveToFreeList_edited hunlinked
          | rightNeedModified => exact moveToFreeList_edited hunlinked
        split at h
        · cases h
        · next st₂ hset =>
            have heq : st₂ = st' := (Prod.mk.inj (Option.some.inj h)).1
            rw [← heq]
            exact hfirst.trans (setBlock2FreeList_edited hset)
  · have heq : st = st' := (Prod.mk.inj (Option.some.inj h)).1
    rw [← heq]
    exact Edited.refl st

/-- **`RocketCoFree` erases the marks of the block** and edits the lists, or does nothing at all. -/
theorem rocketCoFree_edited {ptr len : Nat} (h : rocketCoFree st ptr len = some st') :
    (findInterval st.pointerEffectiveInterval ptr = none ∧ st' = st) ∨
      Edited (unmarked st ptr (dataAlignment len)) st' := by
  unfold rocketCoFree at h
  simp only at h
  split at h
  · next hfind => exact Or.inl ⟨hfind, (Option.some.inj h).symm⟩
  · right
    unfold unmarked
    generalize (st.eraseMark ptr).eraseMark (ptr + (dataAlignment len - 1)) = base at h ⊢
    split at h
    · cases h
    · next st₁ hleft =>
        have heq : st₁ = st' := Option.some.inj h
        rw [← heq]
        split at hleft
        · exact mergeData_edited hleft
        · cases hleft
    · next st₁ hleft =>
        have hfirst : Edited base st₁ := by
          split at hleft
          · exact mergeData_edited hleft
          · rw [← (Prod.mk.inj (Option.some.inj hleft)).1]
            exact Edited.refl base
        split at h
        · cases h
        · next st₂ hright =>
            have heq : st₂ = st' := Option.some.inj h
            rw [← heq]
            split at hright
            · exact hfirst.trans (mergeData_edited hright)
            · cases hright
        · next st₂ hright =>
            have hsecond : Edited base st₂ := by
              split at hright
              · exact hfirst.trans (mergeData_edited hright)
              · rw [← (Prod.mk.inj (Option.some.inj hright)).1]
                exact hfirst
            exact hsecond.trans (setBlock2FreeList_edited h)

/-- **`RocketCoFree` does not touch the region**, whatever it is given. -/
theorem rocketCoFree_region {ptr len : Nat} (h : rocketCoFree st ptr len = some st') :
    st'.startfree = st.startfree ∧ st'.endfree = st.endfree := by
  rcases rocketCoFree_edited h with ⟨_, heq⟩ | hedit
  · rw [heq]
    exact ⟨rfl, rfl⟩
  · exact ⟨hedit.untouched.start, hedit.untouched.stop⟩

/-- **`RocketCoFree` leaves the set of intervals alone.** -/
theorem rocketCoFree_pairs {ptr len : Nat} (h : rocketCoFree st ptr len = some st') :
    st'.pointerEffectiveInterval = st.pointerEffectiveInterval := by
  rcases rocketCoFree_edited h with ⟨_, heq⟩ | hedit
  · rw [heq]
  · exact hedit.pairs

/-! ## §3. `ChunkAlloc` calls itself. -/

/-- The rest of the region is put on the free lists, if there is a rest. -/
def recycled (st : RocketCoAlloctor) : Option RocketCoAlloctor :=
  if 0 < st.endfree - st.startfree then useLeftover st (st.endfree - st.startfree) else some st

/-- The state in which `ChunkAlloc` calls itself, after `malloc` gave `answer`: with a new chunk, or
with the head of a longer list.  `none` when it does not. -/
def nestedCall (answer : Option Nat) (st : RocketCoAlloctor) (L number : Nat) :
    Option RocketCoAlloctor :=
  if L * number < st.endfree - st.startfree ∨ L < st.endfree - st.startfree then none
  else
    match recycled st with
    | none => none
    | some st =>
        let start := answer.getD 0
        let st := afterMalloc st start (2 * (L * number))
        if start = 0 then
          let i := findFreeListIndex L + 1
          match findLarger st i (slotCount - i) with
          | some i =>
              match index2SlotLength i with
              | none => none
              | some slotLen =>
                  some { st.setFreeList i (nextOf st.mem (st.freeList i)) with
                    startfree := st.freeList i
                    endfree := st.freeList i + slotLen }
          | none => none
        else some { st with endfree := start + 2 * (L * number) }

/-- Where it does, the outer call is the inner one. -/
theorem chunkAlloc_nested {answer : Option Nat} {number : Nat}
    (h : nestedCall answer st L number = some st') (fuel : Nat) :
    chunkAlloc (fuel + 1) (fun _ => answer) st L number =
      chunkAlloc fuel (fun _ => answer) st' L number := by
  unfold nestedCall at h
  split at h
  · cases h
  · next hroom =>
      obtain ⟨hall, hone⟩ := not_or.mp hroom
      split at h
      · cases h
      · next st₁ hrec =>
          rw [chunkAlloc_grow fuel answer hall hone hrec]
          unfold newRegion
          simp only at h ⊢
          by_cases h0 : answer.getD 0 = 0
          · rw [if_pos h0] at h ⊢
            cases hfind : findLarger (afterMalloc st₁ (answer.getD 0) (2 * (L * number)))
                (findFreeListIndex L + 1) (slotCount - (findFreeListIndex L + 1)) with
            | none =>
                rw [hfind] at h
                cases h
            | some i =>
                rw [hfind] at h
                simp only at h ⊢
                cases hlen : index2SlotLength i with
                | none =>
                    rw [hlen] at h
                    cases h
                | some slotLen =>
                    rw [hlen] at h
                    rw [← Option.some.inj h]
          · rw [if_neg h0] at h ⊢
            rw [← Option.some.inj h]

/-- Where it does not, one level of the recursion says it all. -/
theorem chunkAlloc_not_nested {answer : Option Nat} {number : Nat}
    (h : nestedCall answer st L number = none) (fuel : Nat) :
    chunkAlloc (fuel + 1) (fun _ => answer) st L number =
      chunkAlloc 1 (fun _ => answer) st L number := by
  unfold nestedCall at h
  by_cases hall : L * number < st.endfree - st.startfree
  · unfold chunkAlloc
    simp only [hall, if_true]
  by_cases hone : L < st.endfree - st.startfree
  · unfold chunkAlloc
    simp only [hall, hone, if_true, if_false]
  rw [if_neg (not_or.mpr ⟨hall, hone⟩)] at h
  cases hrec : recycled st with
  | none =>
      unfold recycled at hrec
      unfold chunkAlloc
      simp only [hall, hone, hrec, if_false]
  | some st₁ =>
      rw [hrec] at h
      rw [chunkAlloc_grow fuel answer hall hone hrec,
        show (1 : Nat) = 0 + 1 from rfl, chunkAlloc_grow 0 answer hall hone hrec]
      unfold newRegion
      simp only at h ⊢
      by_cases h0 : answer.getD 0 = 0
      · -- the region is on a list of longer blocks, or the search fails
        rw [if_pos h0] at h
        rw [if_pos h0, if_pos h0]
        cases hfind : findLarger (afterMalloc st₁ (answer.getD 0) (2 * (L * number)))
            (findFreeListIndex L + 1) (slotCount - (findFreeListIndex L + 1)) with
        | none => rfl
        | some i =>
            rw [hfind] at h
            simp only at h ⊢
            cases hlen : index2SlotLength i with
            | none => rfl
            | some slotLen =>
                rw [hlen] at h
                cases h
      · rw [if_neg h0] at h
        cases h

/-- The states in which `ChunkAlloc` runs during one call: its own, and those of its recursion. -/
inductive ChunkCall (answer : Option Nat) (L number : Nat) (st : RocketCoAlloctor) :
    RocketCoAlloctor → Prop
  | outer : ChunkCall answer L number st st
  | nested {s s' : RocketCoAlloctor} (hs : ChunkCall answer L number st s)
      (hcall : nestedCall answer s L number = some s') : ChunkCall answer L number st s'

/-! ## §4. The region of a new call. -/

/-- A search that starts past the end finds nothing. -/
theorem findLarger_lt {st : RocketCoAlloctor} {i j : Nat}
    (h : findLarger st i (slotCount - i) = some j) : i ≤ j ∧ j < slotCount ∧ st.freeList j ≠ 0 := by
  obtain ⟨hlo, hhi, hne⟩ := findLarger_spec h
  exact ⟨hlo, by omega, hne⟩

/-- **An inner call has room**, in a region of a slot length. -/
theorem nestedCall_region {answer : Option Nat} (hs : SlotSized L) (hle : L ≤ thirdSlot)
    (h : nestedCall answer st L refillNumber = some st') :
    RegionOk st' ∧ L < st'.endfree - st'.startfree := by
  have hLpos := hs.pos
  unfold nestedCall at h
  split at h
  · cases h
  · split at h
    · cases h
    · next st₁ _ =>
        simp only at h
        split at h
        · split at h
          · next i hfind =>
              -- the head of a longer list
              obtain ⟨hlo, hi, hne⟩ := findLarger_lt hfind
              rw [index2SlotLength_eq_slotLength hi] at h
              rw [← Option.some.inj h]
              have hlt : L < slotLength i := by
                rw [← slotLength_findFreeListIndex hs hle]
                exact slotLength_lt hi (by omega)
              have hsize := slotLength_slotSized hi
              refine ⟨⟨Nat.le_add_right _ _, ?_⟩, ?_⟩
              · intro _
                simp only [Nat.add_sub_cancel_left]
                exact ⟨Nat.pos_of_ne_zero hne, hsize⟩
              · simp only [Nat.add_sub_cancel_left]
                exact hlt
          · cases h
        · next h0 =>
            -- a new chunk
            rw [← Option.some.inj h]
            refine ⟨⟨Nat.le_add_right _ _, ?_⟩, ?_⟩
            · intro _
              show 0 < answer.getD 0 ∧ SlotSized (answer.getD 0 + _ - answer.getD 0)
              rw [Nat.add_sub_cancel_left]
              exact ⟨Nat.pos_of_ne_zero h0, hs.chunk⟩
            · show L < answer.getD 0 + 2 * (L * refillNumber) - answer.getD 0
              unfold refillNumber
              omega

/-- **A call that does not call itself** leaves a slot length, or nothing. -/
theorem chunkAlloc_one_region {malloc : Nat → Option Nat} {chunk k : Nat} (h : RegionOk st)
    (hs : SlotSized L) (hres : chunkAlloc 1 malloc st L refillNumber = some (st', chunk, k)) :
    RegionOk st' := by
  have hstart := h.start_le
  unfold chunkAlloc at hres
  simp only at hres
  split at hres
  · -- room for all the blocks
    next hall =>
      obtain ⟨hpos, hsize⟩ := h.sized (by omega)
      rw [← (Prod.mk.inj (Option.some.inj hres)).1]
      unfold refillNumber at hall ⊢
      have hleft := hsize.sub_run hs (by omega)
      constructor
      · show st.startfree + L * 20 ≤ st.endfree
        omega
      · intro _
        refine ⟨by simp only; omega, ?_⟩
        show SlotSized (st.endfree - (st.startfree + L * 20))
        rw [show st.endfree - (st.startfree + L * 20) = st.endfree - st.startfree - 20 * L by omega]
        exact hleft
  · split at hres
    · -- room for some of them
      next hone =>
        obtain ⟨hpos, hsize⟩ := h.sized (by omega)
        rw [← (Prod.mk.inj (Option.some.inj hres)).1]
        -- what stays of the region is the remainder of the division
        have hdiv : L * ((st.endfree - st.startfree) / L) + (st.endfree - st.startfree) % L =
            st.endfree - st.startfree := Nat.div_add_mod _ _
        have hrest : st.endfree - (st.startfree + L * ((st.endfree - st.startfree) / L)) =
            (st.endfree - st.startfree) % L := by omega
        constructor
        · show st.startfree + L * ((st.endfree - st.startfree) / L) ≤ st.endfree
          omega
        · intro hlt
          refine ⟨by simp only; omega, ?_⟩
          simp only at hlt ⊢
          rw [hrest]
          exact hsize.mod hs hone (by omega)
    · split at hres
      · cases hres
      · split at hres
        · split at hres
          · split at hres
            · cases hres
            · cases hres
          · -- nothing to be had
            next h0 _ _ =>
              rw [← (Prod.mk.inj (Option.some.inj hres)).1]
              constructor
              · show (malloc 0).getD 0 ≤ 0
                omega
              · intro hlt
                simp only at hlt
                omega
        · cases hres

theorem chunkAlloc_region {answer : Option Nat} {fuel chunk k : Nat} (h : RegionOk st)
    (hs : SlotSized L) (hle : L ≤ thirdSlot)
    (hres : chunkAlloc fuel (fun _ => answer) st L refillNumber = some (st', chunk, k)) :
    RegionOk st' := by
  induction fuel generalizing st with
  | zero => cases hres
  | succ fuel ih =>
      cases hcall : nestedCall answer st L refillNumber with
      | none =>
          rw [chunkAlloc_not_nested hcall] at hres
          exact chunkAlloc_one_region h hs hres
      | some s =>
          rw [chunkAlloc_nested hcall] at hres
          exact ih (nestedCall_region hs hle hcall).1 hres

/-- **In every state `ChunkAlloc` runs in** the region is of a slot length. -/
theorem ChunkCall.region {answer : Option Nat} (h : RegionOk st) (hs : SlotSized L)
    (hle : L ≤ thirdSlot) (hcall : ChunkCall answer L refillNumber st st') : RegionOk st' := by
  induction hcall with
  | outer => exact h
  | nested _ hnested _ => exact (nestedCall_region hs hle hnested).1

/-! ## §5. Whole runs. -/

theorem refill_region {answer : Option Nat} {r : MallocResult} (h : RegionOk st)
    (hs : SlotSized L) (hle : L ≤ thirdSlot)
    (hres : refill (fun _ => answer) st L = some (st', r)) : RegionOk st' := by
  unfold refill at hres
  split at hres
  · cases hres
  · next st₁ chunk number hchunk =>
      have hreg := chunkAlloc_region h hs hle hchunk
      split at hres
      · rw [← (Prod.mk.inj (Option.some.inj hres)).1]
        exact hreg
      · split at hres
        · rw [← (Prod.mk.inj (Option.some.inj hres)).1]
          exact hreg
        · simp only at hres
          split at hres
          · cases hres
          · rw [← (Prod.mk.inj (Option.some.inj hres)).1]
            exact hreg.same rfl rfl

theorem rocketCoMalloc_region {answer : Option Nat} {n : Nat} {r : MallocResult} (h : RegionOk st)
    (hn : 0 < n) (hle : n ≤ thirdSlot)
    (hres : rocketCoMalloc (fun _ => answer) st n = some (st', r)) : RegionOk st' := by
  unfold rocketCoMalloc at hres
  rw [if_neg (Nat.not_lt.mpr hle)] at hres
  simp only at hres
  split at hres
  · cases hres
  · split at hres
    · exact refill_region h (dataAlignment_slotSized hn hle) (dataAlignment_le hle) hres
    · rw [← (Prod.mk.inj (Option.some.inj hres)).1]
      exact h.same rfl rfl

/-- A request the pool serves itself; returns and writes are not restricted. -/
def InRange : Action → Prop
  | .malloc n _ => 1 ≤ n ∧ n ≤ thirdSlot
  | _ => True

instance : ∀ a, Decidable (InRange a)
  | .malloc _ _ => inferInstanceAs (Decidable (_ ∧ _))
  | .free _ _ => .isTrue trivial
  | .write _ _ => .isTrue trivial

/-- One step of a program that may return and write what it likes, whatever `malloc` answers. -/
def Asks (c : Client) (a : Action) (c' : Client) : Prop := InRange a ∧ c.step a = some c'

/-- A run found by evaluation. -/
theorem asks_of_check {c : Client} {as : List Action} {p : Client → Bool}
    (h : checkRun Client.step (fun _ a => decide (InRange a)) c as p = true) :
    ∃ d, Run Asks c as d ∧ p d = true := by
  refine Run.of_check ?_ h
  intro c a d hok hstep
  exact ⟨of_decide_eq_true hok, hstep⟩

theorem Asks.region {c c' : Client} {a : Action} (h : RegionOk c.pool) (ha : Asks c a c') :
    RegionOk c'.pool := by
  obtain ⟨hrange, hstep⟩ := ha
  cases Client.stepped hstep with
  | malloc hres => exact rocketCoMalloc_region h hrange.1 hrange.2 hres
  | badAlloc hres => exact rocketCoMalloc_region h hrange.1 hrange.2 hres
  | free hres =>
      obtain ⟨hstart, hstop⟩ := rocketCoFree_region hres
      exact h.same hstart hstop
  | write x v => exact h.same rfl rfl

/-- **The region is of a slot length in every run.** -/
theorem asks_region {m : Mem} {as : List Action} {c : Client} (h : Run Asks (Client.start m) as c) :
    RegionOk c.pool := by
  refine h.invariant (I := fun c => RegionOk c.pool) ?_ (RegionOk.init m)
  intro c a c' hreg ha
  exact ha.region hreg

/-! ## §6. The pieces of a leftover. -/

/-- A part of the region on its way to a free list. -/
structure Piece where
  index : Nat
  start : Nat
  length : Nat

/-- The pieces `ChunkAlloc` cuts a leftover of `remaining` bytes at `startfree` into. -/
def leftoverPieces (startfree remaining : Nat) : List Piece :=
  let interval := dataAlignment remaining - remaining
  let first : Piece := ⟨findFreeListIndex (remaining - interval), startfree, remaining - interval⟩
  if interval = 512 then [first, ⟨0, startfree + (remaining - interval), 512⟩]
  else if interval = 1024 then [first, ⟨1, startfree + (remaining - interval), 1024⟩]
  else [first]

/-- `UseRemainingSpace` on each of the pieces. -/
def handOver (st : RocketCoAlloctor) : List Piece → Option RocketCoAlloctor
  | [] => some st
  | p :: ps =>
      match useRemainingSpace { st with startfree := p.start } p.index p.length with
      | none => none
      | some st => handOver st ps

/-- The pieces follow each other from `s` to `e`. -/
def Adjacent : Nat → List Piece → Nat → Prop
  | s, [], e => s = e
  | s, p :: ps, e => p.start = s ∧ Adjacent (s + p.length) ps e

theorem useRemainingSpace_edited {index len : Nat}
    (h : useRemainingSpace st index len = some st') : Edited st st' := by
  unfold useRemainingSpace at h
  split at h
  · cases h
  · exact ⟨_, _, (Option.some.inj h).symm⟩

/-- Two pieces, the second behind the first. -/
theorem handOver_two (st : RocketCoAlloctor) (i j len len' : Nat) {result : Option RocketCoAlloctor}
    (hnone : useRemainingSpace st i len = none → result = none)
    (hsome : ∀ s, useRemainingSpace st i len = some s →
      result = useRemainingSpace { s with startfree := s.startfree + len } j len') :
    result = (handOver st [⟨i, st.startfree, len⟩, ⟨j, st.startfree + len, len'⟩]).map fun s =>
      { s with startfree := st.startfree + len } := by
  unfold handOver
  cases hfirst : useRemainingSpace st i len with
  | none =>
      rw [hnone hfirst]
      rfl
  | some s =>
      have hstart : s.startfree = st.startfree := (useRemainingSpace_edited hfirst).untouched.start
      rw [hsome s hfirst]
      simp only [hstart, handOver]
      cases hsecond : useRemainingSpace { s with startfree := st.startfree + len } j len' with
      | none => rfl
      | some s' =>
          have hend : s'.startfree = st.startfree + len := (useRemainingSpace_edited hsecond).untouched.start
          show some s' = some { s' with startfree := st.startfree + len }
          rw [← hend]

/-- **The leftover branch is `UseRemainingSpace` on the pieces**, and `startfree` at the end of the
first. -/
theorem useLeftover_pieces (st : RocketCoAlloctor) (remaining : Nat) :
    useLeftover st remaining =
      (handOver st (leftoverPieces st.startfree remaining)).map fun s =>
        { s with startfree :=
            st.startfree + (remaining - (dataAlignment remaining - remaining)) } := by
  unfold useLeftover leftoverPieces
  simp only
  generalize dataAlignment remaining - remaining = interval
  by_cases h512 : interval = 512
  · simp only [h512, if_true]
    apply handOver_two
    · intro hfirst
      simp only [hfirst]
    · intro s hfirst
      simp only [hfirst]
  · by_cases h1024 : interval = 1024
    · have hne : ¬ (1024 : Nat) = 512 := by decide
      have hne' : ¬ (1 : Nat) = 0 := by decide
      simp only [h1024, hne, hne', if_true, if_false]
      apply handOver_two
      · intro hfirst
        simp only [hfirst]
      · intro s hfirst
        simp only [hfirst]
    · -- no second piece
      simp only [h512, h1024, if_false, handOver]
      cases hfirst : useRemainingSpace st (findFreeListIndex (remaining - interval))
          (remaining - interval) with
      | none => rfl
      | some s =>
          have hstart : s.startfree = st.startfree := (useRemainingSpace_edited hfirst).untouched.start
          simp only [hstart, Option.map_some]

/-- What a recycled region becomes: adjacent pieces that cover it, each as long as the blocks of the
list it goes to. -/
def PiecesFit (s e : Nat) (ps : List Piece) : Prop :=
  Adjacent s ps e ∧ ∀ p ∈ ps, index2SlotLength p.index = some p.length

/-- A slot length needs no second piece. -/
theorem SlotSized.leftoverPieces {R : Nat} (hs : SlotSized R) (start : Nat) :
    leftoverPieces start R = [⟨findFreeListIndex R, start, R⟩] := by
  unfold MemoryPool.leftoverPieces
  simp only [hs.dataAlignment_eq, Nat.sub_self, Nat.sub_zero]
  rfl

/-- **The pieces of a leftover fit.** -/
theorem RegionOk.piecesFit (h : RegionOk st) (hpos : 0 < st.endfree - st.startfree)
    (hle : st.endfree - st.startfree ≤ thirdSlot) :
    PiecesFit st.startfree st.endfree
      (leftoverPieces st.startfree (st.endfree - st.startfree)) := by
  obtain ⟨_, hs⟩ := h.sized (by omega)
  rw [hs.leftoverPieces]
  refine ⟨⟨rfl, ?_⟩, ?_⟩
  · show st.startfree + (st.endfree - st.startfree) = st.endfree
    omega
  · intro p hp
    rw [List.mem_singleton.mp hp]
    show index2SlotLength (findFreeListIndex (st.endfree - st.startfree)) = _
    rw [index2SlotLength_eq_slotLength (findFreeListIndex_lt hs hle),
      slotLength_findFreeListIndex hs hle]

/-- ... and recycling them empties the region. -/
theorem RegionOk.recycle_pieces (h : RegionOk st) (hpos : 0 < st.endfree - st.startfree) :
    useLeftover st (st.endfree - st.startfree) =
      (handOver st (leftoverPieces st.startfree (st.endfree - st.startfree))).map fun s =>
        { s with startfree := st.endfree } := by
  obtain ⟨_, hs⟩ := h.sized (by omega)
  have hend : st.startfree + (st.endfree - st.startfree) = st.endfree := by omega
  rw [useLeftover_pieces, hs.dataAlignment_eq, Nat.sub_self, Nat.sub_zero, hend]

/-- **Whenever `ChunkAlloc` recycles a leftover**, at any depth of its recursion and in any run, the
pieces it hands to `UseRemainingSpace` are adjacent, cover the region, and fit their lists. -/
theorem leftover_pieces {m : Mem} {as : List Action} {c : Client}
    (h : Run Asks (Client.start m) as c) {n : Nat} (hn : 1 ≤ n) (hle : n ≤ thirdSlot)
    {answer : Option Nat} {st : RocketCoAlloctor}
    (hcall : ChunkCall answer (dataAlignment n) refillNumber c.pool st)
    (hpos : 0 < st.endfree - st.startfree)
    (hroom : st.endfree - st.startfree ≤ dataAlignment n) :
    useLeftover st (st.endfree - st.startfree) =
        (handOver st (leftoverPieces st.startfree (st.endfree - st.startfree))).map
          (fun s => { s with startfree := st.endfree }) ∧
      PiecesFit st.startfree st.endfree
        (leftoverPieces st.startfree (st.endfree - st.startfree)) := by
  have hmax := dataAlignment_le hle
  have hreg := hcall.region (asks_region h) (dataAlignment_slotSized hn hle) hmax
  exact ⟨hreg.recycle_pieces hpos, hreg.piecesFit hpos (Nat.le_trans hroom hmax)⟩

/-- After 20 blocks of 3 KB and then of 2.5 KB, a request for 11 KB recycles the 10 KB left over. -/
theorem leftover_pieces_third : ∃ c, Run Asks (Client.start fun _ => 0)
    [.malloc 3072 (some 4096), .malloc 2560 none] c ∧
      0 < c.pool.endfree - c.pool.startfree ∧
      PiecesFit c.pool.startfree c.pool.endfree
        (leftoverPieces c.pool.startfree (c.pool.endfree - c.pool.startfree)) := by
  have hcheck : checkRun Client.step (fun _ a => decide (InRange a)) (Client.start fun _ => 0)
      [.malloc 3072 (some 4096), .malloc 2560 none]
      (fun c => decide (c.pool.endfree - c.pool.startfree = 10240)) = true := by decide +kernel
  obtain ⟨c, hrun, hleft⟩ := asks_of_check hcheck
  have hleft' : c.pool.endfree - c.pool.startfree = 10240 := of_decide_eq_true hleft
  have hround : dataAlignment 11264 = 11264 := by decide
  have hcall : ChunkCall none (dataAlignment 11264) refillNumber c.pool c.pool := .outer
  refine ⟨c, hrun, by omega, ?_⟩
  exact (leftover_pieces hrun (by decide) (by decide) hcall (by omega) (by omega)).2

/-! ## §7. When `malloc` fails. -/

/-- List `i` holds a block of at least `L` bytes. -/
def Serves (st : RocketCoAlloctor) (L i : Nat) : Prop :=
  i < slotCount ∧ L ≤ slotLength i ∧ st.freeList i ≠ 0

/-- `Refill` after a failed `malloc`: the recursion of `ChunkAlloc` ends, it throws only if no list
holds a long enough block once the leftover is recycled, and otherwise returns a part of one. -/
def FallbackComplete (st : RocketCoAlloctor) (L : Nat) : Prop :=
  ∃ st₁ st' r, recycled st = some st₁ ∧
    (chunkAlloc 2 (fun _ => none) st L refillNumber).isSome = true ∧
    refill (fun _ => none) st L = some (st', r) ∧
    match r with
    | .badAlloc => ∀ i, ¬ Serves st₁ L i
    | .ret p => ∃ i, Serves st₁ L i ∧ st₁.freeList i ≤ p ∧
        p + L ≤ st₁.freeList i + slotLength i

/-- What the search skips is empty. -/
theorem findLarger_eq_none {st : RocketCoAlloctor} : ∀ {k i : Nat},
    findLarger st i k = none ↔ ∀ j, i ≤ j → j < i + k → st.freeList j = 0 := by
  intro k
  induction k with
  | zero =>
      intro i
      unfold findLarger
      exact iff_of_true rfl fun j hlo hhi => absurd hhi (by omega)
  | succ k ih =>
      intro i
      unfold findLarger
      by_cases h0 : st.freeList i ≠ 0
      · rw [if_pos h0]
        constructor
        · intro h
          cases h
        · intro h
          exact absurd (h i (Nat.le_refl i) (by omega)) h0
      · rw [if_neg h0, ih]
        constructor
        · intro h j hlo hhi
          by_cases hj : j = i
          · rw [hj]
            exact not_not.mp h0
          · exact h j (by omega) (by omega)
        · intro h j hlo hhi
          exact h j (by omega) (by omega)

/-- `ChunkAlloc` with room takes the front of the region. -/
theorem chunkAlloc_room (malloc : Nat → Option Nat) (fuel number : Nat) (hL : 0 < L)
    (hnumber : 0 < number) (h : L < st.endfree - st.startfree) :
    ∃ st' k, chunkAlloc (fuel + 1) malloc st L number = some (st', st.startfree, k) ∧ 0 < k := by
  unfold chunkAlloc
  by_cases hall : L * number < st.endfree - st.startfree
  · simp only [hall, if_true]
    exact ⟨_, number, rfl, hnumber⟩
  · simp only [hall, h, if_true, if_false]
    exact ⟨_, _, rfl, Nat.div_pos (Nat.le_of_lt h) hL⟩

/-- `Refill` returns the run it is given. -/
theorem refill_ret {malloc : Nat → Option Nat} {chunk k : Nat} (hs : SlotSized L)
    (hle : L ≤ thirdSlot)
    (h : chunkAlloc 2 malloc st L refillNumber = some (st₁, chunk, k)) (h0 : chunk ≠ 0) :
    ∃ st', refill malloc st L = some (st', .ret chunk) := by
  have hidx := findFreeListIndex_lt hs hle
  unfold refill
  simp only [h, h0, if_false]
  by_cases h1 : k = 1
  · rw [if_pos h1]
    exact ⟨st₁, rfl⟩
  · rw [if_neg h1, if_neg (by omega)]
    exact ⟨_, rfl⟩

/-- The lists after the leftover was recycled: its own has it in front. -/
theorem recycled_lists (h : RegionOk st) (hle : st.endfree - st.startfree ≤ thirdSlot) :
    ∃ st₁, recycled st = some st₁ ∧ ∀ j, st₁.freeList j =
      if 0 < st.endfree - st.startfree ∧ j = findFreeListIndex (st.endfree - st.startfree) then
        st.startfree
      else st.freeList j := by
  unfold recycled
  by_cases hpos : 0 < st.endfree - st.startfree
  · obtain ⟨_, hs⟩ := h.sized (by omega)
    have hidx := findFreeListIndex_lt hs hle
    rw [if_pos hpos, h.recycle_pieces hpos, hs.leftoverPieces]
    unfold handOver useRemainingSpace
    rw [if_neg (Nat.not_le.mpr hidx)]
    refine ⟨_, rfl, ?_⟩
    intro j
    simp only [hpos, true_and]
    rfl
  · rw [if_neg hpos]
    refine ⟨st, rfl, ?_⟩
    intro j
    rw [if_neg fun hand => hpos hand.1]

/-- The blocks of list `i` are long enough for `L` exactly from the list of `L` on. -/
theorem le_slotLength_iff (hs : SlotSized L) (hle : L ≤ thirdSlot) {i : Nat} (hi : i < slotCount) :
    L ≤ slotLength i ↔ findFreeListIndex L ≤ i := by
  have hidx := findFreeListIndex_lt hs hle
  have hlen := slotLength_findFreeListIndex hs hle
  constructor
  · intro h
    by_contra hlt
    have hshort := slotLength_lt hidx (Nat.lt_of_not_le hlt)
    omega
  · intro h
    rcases Nat.lt_or_eq_of_le h with hlt | heq
    · have hlong := slotLength_lt hi hlt
      omega
    · rw [← heq, hlen]

section Fallback

variable (hs : SlotSized L) (hroom : st.endfree - st.startfree ≤ L)

include hs hroom

/-- The leftover does not reach the lists that are searched. -/
theorem RegionOk.search_recycled (h : RegionOk st) (hle : L ≤ thirdSlot)
    (hlists : ∀ j, st₁.freeList j = if 0 < st.endfree - st.startfree ∧
        j = findFreeListIndex (st.endfree - st.startfree) then st.startfree else st.freeList j)
    {j : Nat} (hj : findFreeListIndex L < j) : st₁.freeList j = st.freeList j := by
  rw [hlists j]
  refine if_neg ?_
  intro ⟨hpos, heq⟩
  have hmono := findFreeListIndex_mono (h.sized (by omega)).2 hs hroom hle
  omega

/-- **Something longer is there**: `Refill` returns its front. -/
theorem fallback_found (hle : L ≤ thirdSlot) {i : Nat} (hrec : recycled st = some st₁)
    (hfind : findLarger st₁ (findFreeListIndex L + 1) (slotCount - (findFreeListIndex L + 1)) =
      some i) : FallbackComplete st L := by
  obtain ⟨hlo, hi, hne⟩ := findLarger_lt hfind
  have hlt : L < slotLength i := by
    rw [← slotLength_findFreeListIndex hs hle]
    exact slotLength_lt hi (by omega)
  have hcall : nestedCall none st L refillNumber =
      some { (afterMalloc st₁ 0 (2 * (L * refillNumber))).setFreeList i
          (nextOf st₁.mem (st₁.freeList i)) with
        startfree := st₁.freeList i
        endfree := st₁.freeList i + slotLength i } := by
    have hsame : findLarger (afterMalloc st₁ 0 (2 * (L * refillNumber))) (findFreeListIndex L + 1)
        (slotCount - (findFreeListIndex L + 1)) = some i := by
      rw [← hfind]
      exact findLarger_congr fun _ _ => rfl
    have hno : ¬ (L * refillNumber < st.endfree - st.startfree ∨ L < st.endfree - st.startfree) := by
      unfold refillNumber
      omega
    unfold nestedCall
    rw [if_neg hno, hrec]
    simp only [Option.getD_none, if_true, hsame, index2SlotLength_eq_slotLength hi]
    rfl
  obtain ⟨st₂, k, hres, _⟩ := chunkAlloc_room (fun _ => none) 0 refillNumber hs.pos (by decide)
    (nestedCall_region hs hle hcall).2
  have hchunk : chunkAlloc 2 (fun _ => none) st L refillNumber = some (st₂, st₁.freeList i, k) := by
    rw [chunkAlloc_nested hcall]
    exact hres
  obtain ⟨st', hret⟩ := refill_ret hs hle hchunk hne
  refine ⟨st₁, st', .ret (st₁.freeList i), hrec, ?_, hret, i, ⟨hi, by omega, hne⟩, Nat.le_refl _, ?_⟩
  · rw [hchunk]
    rfl
  · show st₁.freeList i + L ≤ st₁.freeList i + slotLength i
    omega

/-- **Nothing longer is there**: `Refill` throws. -/
theorem fallback_missed (hrec : recycled st = some st₁)
    (hfind : findLarger st₁ (findFreeListIndex L + 1) (slotCount - (findFreeListIndex L + 1)) =
      none) : FallbackComplete st L ↔ ∀ i, ¬ Serves st₁ L i := by
  have hno : ¬ L * refillNumber < st.endfree - st.startfree := by
    have := hs.pos
    unfold refillNumber
    omega
  have hchunk : ∃ st₂, chunkAlloc 2 (fun _ => none) st L refillNumber =
      some (st₂, 0, refillNumber) := by
    have hsame : findLarger (afterMalloc st₁ 0 (2 * (L * refillNumber))) (findFreeListIndex L + 1)
        (slotCount - (findFreeListIndex L + 1)) = none := by
      rw [← hfind]
      exact findLarger_congr fun _ _ => rfl
    rw [chunkAlloc_grow 1 none hno (by omega) hrec]
    unfold newRegion
    simp only [Option.getD_none, if_true, hsame]
    exact ⟨_, rfl⟩
  obtain ⟨st₂, hchunk⟩ := hchunk
  have hrefill : refill (fun _ => none) st L = some (st₂, .badAlloc) := by
    unfold refill
    simp only [hchunk, if_true]
  constructor
  · intro ⟨s₁, s', r, hs₁, _, hres, hr⟩
    rw [hrec] at hs₁
    rw [hrefill] at hres
    obtain ⟨_, hbad⟩ := Prod.mk.inj (Option.some.inj hres)
    rw [← hbad, ← Option.some.inj hs₁] at hr
    exact hr
  · intro hempty
    refine ⟨st₁, st₂, .badAlloc, hrec, ?_, hrefill, hempty⟩
    rw [hchunk]
    rfl

/-- **The fallback is complete** exactly when the leftover is not as long as the request, or a longer
list holds a block. -/
theorem RegionOk.fallbackComplete_iff (h : RegionOk st) (hle : L ≤ thirdSlot)
    (h0 : st.freeList (findFreeListIndex L) = 0) : FallbackComplete st L ↔
    (st.endfree - st.startfree = L →
      ∃ i, findFreeListIndex L < i ∧ i < slotCount ∧ st.freeList i ≠ 0) := by
  obtain ⟨st₁, hrec, hlists⟩ := recycled_lists h (Nat.le_trans hroom hle)
  have hlong : ∀ j, findFreeListIndex L < j → st₁.freeList j = st.freeList j :=
    fun j hj => h.search_recycled hs hroom hle hlists hj
  have hidx := findFreeListIndex_lt hs hle
  cases hfind : findLarger st₁ (findFreeListIndex L + 1)
      (slotCount - (findFreeListIndex L + 1)) with
  | some i =>
      obtain ⟨hlo, hi, hne⟩ := findLarger_lt hfind
      refine iff_of_true (fallback_found hs hroom hle hrec hfind) ?_
      intro _
      refine ⟨i, by omega, hi, ?_⟩
      rw [← hlong i (by omega)]
      exact hne
  | none =>
      rw [fallback_missed hs hroom hrec hfind]
      have hempty : ∀ j, findFreeListIndex L < j → j < slotCount → st.freeList j = 0 := by
        intro j hlo hj
        rw [← hlong j hlo]
        exact findLarger_eq_none.mp hfind j (by omega) (by omega)
      -- only the list of the request itself can hold a block
      have hown : st₁.freeList (findFreeListIndex L) ≠ 0 ↔ st.endfree - st.startfree = L := by
        rw [hlists]
        constructor
        · intro hne
          by_contra hR
          refine hne ?_
          rw [if_neg]
          · exact h0
          · intro ⟨hpos, heq⟩
            exact hR (findFreeListIndex_inj (h.sized (by omega)).2 hs (Nat.le_trans hroom hle) hle
              heq.symm)
        · intro hR
          have hpos := hs.pos
          rw [hR, if_pos ⟨hpos, rfl⟩]
          have := (h.sized (by omega)).1
          omega
      constructor
      · intro hnone hR
        exact absurd ⟨hidx, (slotLength_findFreeListIndex hs hle).ge, hown.mpr hR⟩ (hnone _)
      · intro himp i ⟨hi, hlen, hne⟩
        rcases Nat.lt_or_eq_of_le ((le_slotLength_iff hs hle hi).mp hlen) with hlt | heq
        · rw [hlong i hlt] at hne
          exact hne (hempty i hlt hi)
        · rw [← heq] at hne
          obtain ⟨j, hlo, hj, hfull⟩ := himp (hown.mp hne)
          exact hfull (hempty j hlo hj)

end Fallback

/-- **The fallback in a run**: `Refill`, called on an empty list without room for a block, misses a
block exactly when the leftover is as long as the request and nothing longer is there. -/
theorem fallback_complete_iff {m : Mem} {as : List Action} {c : Client}
    (h : Run Asks (Client.start m) as c) {n : Nat} (hn : 1 ≤ n) (hle : n ≤ thirdSlot)
    (h0 : c.pool.freeList (findFreeListIndex (dataAlignment n)) = 0)
    (hroom : c.pool.endfree - c.pool.startfree ≤ dataAlignment n) :
    FallbackComplete c.pool (dataAlignment n) ↔
      (c.pool.endfree - c.pool.startfree = dataAlignment n →
        ∃ i, findFreeListIndex (dataAlignment n) < i ∧ i < slotCount ∧ c.pool.freeList i ≠ 0) :=
  (asks_region h).fallbackComplete_iff (dataAlignment_slotSized hn hle) hroom
    (dataAlignment_le hle) h0

/-- 1 KB is left and recycled, and two blocks of 3 KB are free: the next request for 1 KB gets the
front of one of them. -/
theorem fallback_complete_longer : ∃ c, Run Asks (Client.start fun _ => 0)
    [.malloc 512 (some 4096), .malloc 3072 none] c ∧ FallbackComplete c.pool 1024 := by
  have hcheck : checkRun Client.step (fun _ a => decide (InRange a)) (Client.start fun _ => 0)
      [.malloc 512 (some 4096), .malloc 3072 none]
      (fun c => decide (c.pool.freeList 1 = 0 ∧ c.pool.endfree - c.pool.startfree = 1024 ∧
        c.pool.freeList 5 ≠ 0)) = true := by decide +kernel
  obtain ⟨c, hrun, hend⟩ := asks_of_check hcheck
  obtain ⟨hlist, hleft, hlong⟩ := of_decide_eq_true hend
  have hround : dataAlignment 1024 = 1024 := by decide
  have hindex : findFreeListIndex 1024 = 1 := by decide
  have hiff := fallback_complete_iff hrun (n := 1024) (by decide) (by decide)
    (by rw [hround, hindex]; exact hlist) (by rw [hround]; omega)
  rw [hround, hindex] at hiff
  exact ⟨c, hrun, hiff.mpr fun _ => ⟨5, by decide, by decide, hlong⟩⟩

/-- 1 KB is left and nothing longer is free: `Refill` throws, with the recycled block on the very list
of the request. -/
theorem not_fallback_complete : ∃ c, Run Asks (Client.start fun _ => 0)
    [.malloc 512 (some 4096), .malloc 3072 none, .malloc 3072 none, .malloc 3072 none] c ∧
      c.pool.freeList (findFreeListIndex 1024) = 0 ∧
      c.pool.endfree - c.pool.startfree ≤ 1024 ∧ ¬ FallbackComplete c.pool 1024 := by
  have hcheck : checkRun Client.step (fun _ a => decide (InRange a)) (Client.start fun _ => 0)
      [.malloc 512 (some 4096), .malloc 3072 none, .malloc 3072 none, .malloc 3072 none]
      (fun c => decide (c.pool.endfree - c.pool.startfree = 1024 ∧
        ∀ i, i < slotCount → 1 ≤ i → c.pool.freeList i = 0)) = true := by decide +kernel
  obtain ⟨c, hrun, hend⟩ := asks_of_check hcheck
  obtain ⟨hleft, hempty⟩ := of_decide_eq_true hend
  have hindex : findFreeListIndex 1024 = 1 := by decide
  have hown : c.pool.freeList (findFreeListIndex 1024) = 0 := by
    rw [hindex]
    exact hempty 1 (by decide) (by decide)
  refine ⟨c, hrun, hown, by omega, ?_⟩
  intro hcomplete
  have hs : SlotSized 1024 := dataAlignment_slotSized (n := 1024) (by decide) (by decide)
  obtain ⟨i, hlo, hi, hfull⟩ := ((asks_region hrun).fallbackComplete_iff hs (by omega) (by decide)
    hown).mp hcomplete hleft
  exact hfull (hempty i hi (by omega))

end RocketCo.MemoryPool
