/-
  RocketCo.MemoryPool.Neighbour — which neighbours `RocketCoFree` takes for free blocks.

  `RocketCoFree` has no record of free blocks.  It takes the bytes next to the returned block for a
  `FreeListNode` unless the block starts its chunk or `mark_allocated_block` has the byte in
  question; the test for the end of the chunk compares the last byte of the block with the end of
  the interval, which is one byte further on, and never holds.  So even where every other block is
  recorded, three kinds of bytes are taken for a node that are none: the unused region, a block
  `Refill` dropped, and what lies behind the chunk.

  Main results:
    • `MarksOwned` — only the ends of blocks in the client's hands are recorded,
    • `reads_only_free_iff` — `RocketCoFree` keeps to free blocks exactly when neither neighbour is of
      these three kinds.
-/
import RocketCo.MemoryPool.Conservation
import RocketCo.MemoryPool.Region

namespace RocketCo.MemoryPool

open RocketCo.Lib

/-! ## §1. Who writes the table. -/

section Marks

variable {st st' : RocketCoAlloctor} {L : Nat}

theorem handOver_marks {ps : List Piece} (h : handOver st ps = some st') :
    st'.markAllocatedBlock = st.markAllocatedBlock := by
  induction ps generalizing st with
  | nil => rw [← Option.some.inj h]
  | cons p ps ih =>
      unfold handOver at h
      split at h
      · cases h
      · next st₁ hfirst =>
          have hmarks := (useRemainingSpace_edited hfirst).untouched.marks
          exact (ih h).trans hmarks

theorem recycled_marks (h : recycled st = some st') :
    st'.markAllocatedBlock = st.markAllocatedBlock := by
  unfold recycled at h
  split at h
  · rw [useLeftover_pieces, Option.map_eq_some_iff] at h
    obtain ⟨st₁, hpieces, heq⟩ := h
    have hmarks := handOver_marks hpieces
    rw [← heq]
    exact hmarks
  · rw [← Option.some.inj h]

theorem nestedCall_marks {answer : Option Nat} {number : Nat}
    (h : nestedCall answer st L number = some st') :
    st'.markAllocatedBlock = st.markAllocatedBlock := by
  unfold nestedCall at h
  split at h
  · cases h
  · split at h
    · cases h
    · next st₁ hrec =>
        have hmarks := recycled_marks hrec
        simp only at h
        split at h
        · split at h
          · split at h
            · cases h
            · rw [← Option.some.inj h]
              exact hmarks
          · cases h
        · rw [← Option.some.inj h]
          exact hmarks

/-- A call that does not call itself. -/
theorem chunkAlloc_one_marks {malloc : Nat → Option Nat} {number chunk k : Nat}
    (h : chunkAlloc 1 malloc st L number = some (st', chunk, k)) :
    st'.markAllocatedBlock = st.markAllocatedBlock := by
  unfold chunkAlloc at h
  simp only at h
  split at h
  · rw [← (Prod.mk.inj (Option.some.inj h)).1]
  · split at h
    · rw [← (Prod.mk.inj (Option.some.inj h)).1]
    · split at h
      · cases h
      · next st₁ hrec =>
          have hmarks : st₁.markAllocatedBlock = st.markAllocatedBlock := recycled_marks hrec
          split at h
          · split at h
            · split at h
              · cases h
              · cases h
            · rw [← (Prod.mk.inj (Option.some.inj h)).1]
              exact hmarks
          · cases h

theorem chunkAlloc_marks {answer : Option Nat} {fuel number chunk k : Nat}
    (h : chunkAlloc fuel (fun _ => answer) st L number = some (st', chunk, k)) :
    st'.markAllocatedBlock = st.markAllocatedBlock := by
  induction fuel generalizing st with
  | zero => cases h
  | succ fuel ih =>
      cases hcall : nestedCall answer st L number with
      | none =>
          rw [chunkAlloc_not_nested hcall] at h
          exact chunkAlloc_one_marks h
      | some s =>
          rw [chunkAlloc_nested hcall] at h
          exact (ih h).trans (nestedCall_marks hcall)

/-- **`Refill` records nothing**, not even the block it returns. -/
theorem refill_marks {answer : Option Nat} {r : MallocResult}
    (h : refill (fun _ => answer) st L = some (st', r)) :
    st'.markAllocatedBlock = st.markAllocatedBlock := by
  unfold refill at h
  split at h
  · cases h
  · next hchunk =>
      have hmarks := chunkAlloc_marks hchunk
      split at h
      · rw [← (Prod.mk.inj (Option.some.inj h)).1]
        exact hmarks
      · split at h
        · rw [← (Prod.mk.inj (Option.some.inj h)).1]
          exact hmarks
        · simp only at h
          split at h
          · cases h
          · rw [← (Prod.mk.inj (Option.some.inj h)).1]
            exact hmarks

/-- **`RocketCoMalloc` records at most the ends of the block it returns.** -/
theorem rocketCoMalloc_marks {answer : Option Nat} {n : Nat} {r : MallocResult}
    (hle : n ≤ thirdSlot) (h : rocketCoMalloc (fun _ => answer) st n = some (st', r)) {x : Nat}
    (hx : st'.markAllocatedBlock x ≠ none) :
    st.markAllocatedBlock x ≠ none ∨
      ∃ p, r = .ret p ∧ (x = p ∨ x = p + (dataAlignment n - 1)) := by
  unfold rocketCoMalloc at h
  rw [if_neg (Nat.not_lt.mpr hle)] at h
  simp only at h
  split at h
  · cases h
  · split at h
    · left
      rw [refill_marks h] at hx
      exact hx
    · obtain ⟨hst, hr⟩ := Prod.mk.inj (Option.some.inj h)
      rw [← hst] at hx
      unfold RocketCoAlloctor.mark RocketCoAlloctor.setFreeList at hx
      simp only at hx
      split at hx
      · next hlast => exact Or.inr ⟨_, hr.symm, Or.inr hlast⟩
      · split at hx
        · next hfirst => exact Or.inr ⟨_, hr.symm, Or.inl hfirst⟩
        · exact Or.inl hx

/-- **`RocketCoFree` forgets the ends of the block** and nothing else. -/
theorem rocketCoFree_marks {item : Nat × Nat} {p n : Nat}
    (hfind : findInterval st.pointerEffectiveInterval p = some item)
    (h : rocketCoFree st p n = some st') {x : Nat} (hx : st'.markAllocatedBlock x ≠ none) :
    st.markAllocatedBlock x ≠ none ∧ x ≠ p ∧ x ≠ p + (dataAlignment n - 1) := by
  rcases rocketCoFree_edited h with ⟨hnone, _⟩ | hedit
  · rw [hnone] at hfind
    cases hfind
  · rw [hedit.untouched.marks] at hx
    unfold unmarked RocketCoAlloctor.eraseMark at hx
    simp only at hx
    split at hx
    · exact absurd rfl hx
    · next hlast =>
        split at hx
        · exact absurd rfl hx
        · next hfirst => exact ⟨hx, hfirst, hlast⟩

end Marks

/-! ## §2. Only held blocks are recorded. -/

/-- Every entry of the table is the first or the last byte of a block the client holds. -/
def MarksOwned (c : Client) : Prop :=
  ∀ x, c.pool.markAllocatedBlock x ≠ none →
    ∃ b ∈ c.out, x = b.1 ∨ x = b.1 + (dataAlignment b.2 - 1)

/-- A fallback of this step takes a block nothing stands behind. -/
def FallsBackSafely (c : Client) : Action → Prop
  | .malloc n answer => SafeFallback c.pool (dataAlignment n) answer
  | _ => True

instance (c : Client) : ∀ a, Decidable (FallsBackSafely c a)
  | .malloc _ _ => inferInstanceAs (Decidable (SafeFallback _ _ _))
  | .free _ _ => .isTrue trivial
  | .write _ _ => .isTrue trivial

/-- A call that leaves the pool well formed, whatever `malloc` answers. -/
def CallsSafely (c : Client) (a : Action) (c' : Client) : Prop :=
  Calls c a c' ∧ SafeMerge c a ∧ FallsBackSafely c a

section Owned

variable {c c' : Client} {T : Tiling Owner} {a : Action}

theorem CallsSafely.sound (h : Sound c) (ha : CallsSafely c a c') : Sound c' := by
  obtain ⟨T, hT⟩ := h
  obtain ⟨⟨hallowed, hstep⟩, hmerge, hfall⟩ := ha
  refine hT.step hallowed hmerge ?_ hstep
  intro n answer heq
  rw [heq] at hfall
  exact hfall

/-- The interval `RocketCoFree` finds for a held block is its chunk. -/
theorem ClientInv.find_chunk (h : ClientInv c T) {p n : Nat} (hb : (p, n) ∈ c.out) :
    ∃ iv, IsChunk c.pool.pointerEffectiveInterval iv ∧ iv.1 ≤ p ∧ p + dataAlignment n ≤ iv.2 ∧
      findInterval c.pool.pointerEffectiveInterval p = some iv := by
  obtain ⟨iv, hiv, hlo, hhi⟩ := h.pool.chunkInv.within _ (h.tile hb)
  simp only [tileOf] at hlo hhi
  obtain ⟨hn, hle⟩ := h.sizes _ hb
  have hpos : 0 < dataAlignment n := (dataAlignment_slotSized hn hle).pos
  exact ⟨iv, hiv, hlo, hhi, h.pool.chunkInv.findInterval_eq hiv hlo (by omega)⟩

/-- **One call keeps the table to the blocks in hand.** -/
theorem CallsSafely.marksOwned (h : Sound c) (hm : MarksOwned c) (ha : CallsSafely c a c') :
    MarksOwned c' := by
  obtain ⟨⟨hallowed, hstep⟩, _, _⟩ := ha
  cases Client.stepped hstep with
  | @malloc n answer st' p hres =>
      intro x hx
      rcases rocketCoMalloc_marks hallowed.2.1 hres hx with hold | ⟨q, hq, hends⟩
      · obtain ⟨b, hb, hends⟩ := hm x hold
        exact ⟨b, List.mem_cons_of_mem _ hb, hends⟩
      · have hpq : p = q := MallocResult.ret.inj hq
        rw [← hpq] at hends
        exact ⟨(p, n), List.mem_cons_self, hends⟩
  | badAlloc hres =>
      intro x hx
      rcases rocketCoMalloc_marks hallowed.2.1 hres hx with hold | ⟨q, hq, _⟩
      · exact hm x hold
      · cases hq
  | @free p n st' hres =>
      obtain ⟨T, hT⟩ := h
      obtain ⟨iv, _, _, _, hfind⟩ := hT.find_chunk hallowed
      intro x hx
      obtain ⟨hold, hfirst, hlast⟩ := rocketCoFree_marks hfind hres hx
      obtain ⟨b, hb, hends⟩ := hm x hold
      refine ⟨b, ?_, hends⟩
      -- the entry belongs to another block than the returned one
      have hne : b ≠ (p, n) := by
        intro heq
        rw [heq] at hends
        rcases hends with hx | hx
        · exact hfirst hx
        · exact hlast hx
      exact (List.mem_erase_of_ne hne).mpr hb
  | write x v => exact hm

/-- **In every run of safe calls** the pool is well formed and the table is kept. -/
theorem callsSafely_run {m : Mem} {as : List Action} (h : Run CallsSafely (Client.start m) as c) :
    Sound c ∧ MarksOwned c := by
  refine h.invariant (I := fun c => Sound c ∧ MarksOwned c) ?_ ⟨Sound.start m, ?_⟩
  · intro c a c' hand ha
    exact ⟨ha.sound hand.1, ha.marksOwned hand.1 hand.2⟩
  · intro x hx
    exact absurd rfl hx

end Owned

/-! ## §3. What `RocketCoFree` reads. -/

/-- All blocks but the one at `p` are recorded. -/
def Recorded (c : Client) (p n : Nat) : Prop :=
  ∀ b ∈ c.out, b ≠ (p, n) → c.pool.markAllocatedBlock b.1 ≠ none ∧
    c.pool.markAllocatedBlock (b.1 + (dataAlignment b.2 - 1)) ≠ none

instance (c : Client) (p n : Nat) : Decidable (Recorded c p n) :=
  inferInstanceAs (Decidable (∀ _ ∈ _, _ → _))

/-- Where `RocketCoFree(p, n)` takes the bytes below or above the block for a `FreeListNode`, they
are the node of a block on a free list, adjacent and of the same chunk. -/
def ReadsOnlyFree (c : Client) (p n : Nat) : Prop :=
  ∀ item ∈ findInterval c.pool.pointerEffectiveInterval p,
    (looksLeft c.pool item p = true →
      ∃ i a, i < slotCount ∧ Linked c.pool i a ∧ item.1 ≤ a ∧
        a + itemLengthOf c.pool.mem a = p ∧
        itemLengthOf c.pool.mem (leftNode p) = itemLengthOf c.pool.mem a) ∧
    (¬ MergesLeft c.pool item p (dataAlignment n) →
      looksRight c.pool item p (dataAlignment n) = true →
      ∃ i, i < slotCount ∧ Linked c.pool i (p + dataAlignment n) ∧
        p + dataAlignment n + itemLengthOf c.pool.mem (p + dataAlignment n) ≤ item.2)

/-- Address `x` is neither in the unused region nor in a block that was dropped. -/
def Known (c : Client) (x : Nat) : Prop :=
  ¬ (c.pool.startfree ≤ x ∧ x < c.pool.endfree) ∧ ∃ q : Part, q.Has c x

/-- The byte below the block is known, and so is the byte above it, unless the block below is merged.
Behind the chunk only a block of the client may follow. -/
def KnownNeighbours (c : Client) (p n : Nat) : Prop :=
  ∀ item ∈ findInterval c.pool.pointerEffectiveInterval p,
    (p ≠ item.1 → Known c (p - 1)) ∧
    (¬ MergesLeft c.pool item p (dataAlignment n) →
      (p + dataAlignment n < item.2 → Known c (p + dataAlignment n)) ∧
      (p + dataAlignment n = item.2 → Held c (p + dataAlignment n)))

/-- A known byte is in a block of the client or in a block on a free list. -/
theorem ClientInv.known_iff {c : Client} {T : Tiling Owner} {cur : Nat → List Nat}
    {lost : Nat → List (List Nat)} (h : ClientInv c T) (hp : PoolInv c.pool T cur lost) {x : Nat} :
    Known c x ↔ Held c x ∨ ∃ i a, (Part.listed i a).Has c x := by
  constructor
  · intro ⟨hregion, q, hq⟩
    cases q with
    | block b => exact Or.inl ⟨b, hq⟩
    | listed i a => exact Or.inr ⟨i, a, hq⟩
    | region => exact absurd hq hregion
  · intro hor
    rcases hor with ⟨b, hb⟩ | ⟨i, a, ha⟩
    · refine ⟨?_, .block b, hb⟩
      intro hregion
      have heq : Part.block b = Part.region := h.part_unique hp hb hregion
      cases heq
    · refine ⟨?_, .listed i a, ha⟩
      intro hregion
      have heq : Part.listed i a = Part.region := h.part_unique hp ha hregion
      cases heq

section Reads

variable {c : Client} {T : Tiling Owner} {cur : Nat → List Nat} {lost : Nat → List (List Nat)}
  {iv : Nat × Nat} {p n : Nat}

/-- A recorded byte is held. -/
theorem ClientInv.held_of_mark (h : ClientInv c T) (hm : MarksOwned c) {x : Nat}
    (hmark : c.pool.markAllocatedBlock x ≠ none) : Held c x := by
  obtain ⟨b, hbo, hends⟩ := hm x hmark
  obtain ⟨hn, hle⟩ := h.sizes b hbo
  have hpos := (dataAlignment_slotSized hn hle).pos
  exact ⟨b, hbo, by omega, by omega⟩

/-- **The byte below is recorded exactly when the client holds it**: its block ends there. -/
theorem ClientInv.mark_below (h : ClientInv c T) (hm : MarksOwned c) (hb : (p, n) ∈ c.out)
    (hrec : Recorded c p n) (hp : 0 < p) :
    c.pool.markAllocatedBlock (p - 1) ≠ none ↔ Held c (p - 1) := by
  constructor
  · exact fun hmark => h.held_of_mark hm hmark
  · intro ⟨b, hbo, hlo, hhi⟩
    have hne : b ≠ (p, n) := by
      intro heq
      rw [heq] at hlo
      simp only at hlo
      omega
    have hend : b.1 + dataAlignment b.2 = p :=
      T.ends_at (h.tile hb) (h.tile hbo) hp ⟨hlo, hhi⟩
    obtain ⟨hn, hle⟩ := h.sizes b hbo
    have hpos := (dataAlignment_slotSized hn hle).pos
    have hlast : p - 1 = b.1 + (dataAlignment b.2 - 1) := by omega
    rw [hlast]
    exact (hrec b hbo hne).2

/-- **The byte above is recorded exactly when the client holds it**: its block begins there. -/
theorem ClientInv.mark_above (h : ClientInv c T) (hm : MarksOwned c) (hb : (p, n) ∈ c.out)
    (hrec : Recorded c p n) :
    c.pool.markAllocatedBlock (p + dataAlignment n) ≠ none ↔ Held c (p + dataAlignment n) := by
  constructor
  · exact fun hmark => h.held_of_mark hm hmark
  · intro ⟨b, hbo, hlo, hhi⟩
    have hne : b ≠ (p, n) := by
      intro heq
      rw [heq] at hhi
      simp only at hhi
      omega
    have hbegin : b.1 = p + dataAlignment n :=
      T.begins_at (h.tile hb) (h.tile hbo) ⟨hlo, hhi⟩
    rw [← hbegin]
    exact (hrec b hbo hne).1

/-- A listed block that covers the byte below ends there, in the same chunk, with its length in the
node `RocketCoFree` reads. -/
theorem ClientInv.listed_below (h : ClientInv c T) (hpi : PoolInv c.pool T cur lost)
    (hb : (p, n) ∈ c.out) (hiv : IsChunk c.pool.pointerEffectiveInterval iv) (hlo : iv.1 < p)
    (hhi : p + dataAlignment n ≤ iv.2) {i a : Nat} (hx : (Part.listed i a).Has c (p - 1)) :
    iv.1 ≤ a ∧ a + itemLengthOf c.pool.mem a = p ∧
      itemLengthOf c.pool.mem (leftNode p) = itemLengthOf c.pool.mem a := by
  obtain ⟨ht, hcov⟩ := h.part_tile hpi hx
  have hend : a + slotLength i = p := T.ends_at (h.tile hb) ht (by simp only [tileOf]; omega) hcov
  have hin := hpi.chunks.within_of_mem ht hiv hcov (by omega) (by omega)
  have hlen : itemLengthOf c.pool.mem a = slotLength i := h.pool.right_length ht
  rw [hlen]
  exact ⟨hin.1, hend, h.pool.left_length ht hend⟩

/-- A listed block that covers the byte above begins there, in the same chunk. -/
theorem ClientInv.listed_above (h : ClientInv c T) (hpi : PoolInv c.pool T cur lost)
    (hb : (p, n) ∈ c.out) (hiv : IsChunk c.pool.pointerEffectiveInterval iv) (hlo : iv.1 ≤ p)
    (hhi : p + dataAlignment n < iv.2) {i a : Nat}
    (hx : (Part.listed i a).Has c (p + dataAlignment n)) :
    a = p + dataAlignment n ∧ a + itemLengthOf c.pool.mem a ≤ iv.2 := by
  obtain ⟨ht, hcov⟩ := h.part_tile hpi hx
  have hbegin : a = p + dataAlignment n := T.begins_at (h.tile hb) ht hcov
  have hin := hpi.chunks.within_of_mem ht hiv hcov (by omega) hhi
  have hlen : itemLengthOf c.pool.mem a = slotLength i := h.pool.right_length ht
  rw [hlen]
  exact ⟨hbegin, hin.2⟩

/-- **Below**: what is looked at is a free block exactly when the byte below is known. -/
theorem ClientInv.reads_below (h : ClientInv c T) (hpi : PoolInv c.pool T cur lost)
    (hm : MarksOwned c) (hb : (p, n) ∈ c.out) (hrec : Recorded c p n)
    (hiv : IsChunk c.pool.pointerEffectiveInterval iv) (hlo : iv.1 ≤ p)
    (hhi : p + dataAlignment n ≤ iv.2) :
    (looksLeft c.pool iv p = true →
      ∃ i a, i < slotCount ∧ Linked c.pool i a ∧ iv.1 ≤ a ∧ a + itemLengthOf c.pool.mem a = p ∧
        itemLengthOf c.pool.mem (leftNode p) = itemLengthOf c.pool.mem a) ↔
      (p ≠ iv.1 → Known c (p - 1)) := by
  have hpos : 0 < iv.1 := hiv.2.1
  have hmark := h.mark_below hm hb hrec (by omega)
  have hlook : looksLeft c.pool iv p = true ↔ p ≠ iv.1 ∧ ¬ Held c (p - 1) := by
    unfold looksLeft
    rw [Bool.and_eq_true, decide_eq_true_eq, Option.isNone_iff_eq_none, ← hmark, not_not]
  rw [hlook, h.known_iff hpi]
  constructor
  · intro hreads hne
    by_cases hheld : Held c (p - 1)
    · exact Or.inl hheld
    · obtain ⟨i, a, hi, hlinked, _, hend, _⟩ := hreads ⟨hne, hheld⟩
      have ht := hpi.lists.node_tile (cur_sub (hpi.lists.mem_cur_of_linked hlinked))
      have hlen : itemLengthOf c.pool.mem a = slotLength i := h.pool.right_length ht
      have h512 := hpi.lists.node_le (cur_sub (hpi.lists.mem_cur_of_linked hlinked))
      exact Or.inr ⟨i, a, hi, hlinked, by omega, by omega⟩
  · intro hknown ⟨hne, hnot⟩
    rcases hknown hne with hheld | ⟨i, a, hx⟩
    · exact absurd hheld hnot
    · have hbelow := h.listed_below hpi hb hiv (by omega) hhi hx
      exact ⟨i, a, hx.1, hx.2.1, hbelow⟩

/-- **Above**: what is looked at is a free block of the chunk exactly when the byte above is known, or
the client holds what follows the chunk. -/
theorem ClientInv.reads_above (h : ClientInv c T) (hpi : PoolInv c.pool T cur lost)
    (hm : MarksOwned c) (hb : (p, n) ∈ c.out) (hrec : Recorded c p n)
    (hiv : IsChunk c.pool.pointerEffectiveInterval iv) (hlo : iv.1 ≤ p)
    (hhi : p + dataAlignment n ≤ iv.2) :
    (looksRight c.pool iv p (dataAlignment n) = true →
      ∃ i, i < slotCount ∧ Linked c.pool i (p + dataAlignment n) ∧
        p + dataAlignment n + itemLengthOf c.pool.mem (p + dataAlignment n) ≤ iv.2) ↔
      (p + dataAlignment n < iv.2 → Known c (p + dataAlignment n)) ∧
        (p + dataAlignment n = iv.2 → Held c (p + dataAlignment n)) := by
  obtain ⟨hn, hle⟩ := h.sizes _ hb
  have hpos : 0 < dataAlignment n := (dataAlignment_slotSized hn hle).pos
  have hmark := h.mark_above hm hb hrec
  -- the end of the block is never the end of the interval: that one is exclusive
  have hlook : looksRight c.pool iv p (dataAlignment n) = true ↔ ¬ Held c (p + dataAlignment n) := by
    unfold looksRight
    have hend : p + (dataAlignment n - 1) ≠ iv.2 := by omega
    rw [Bool.and_eq_true, decide_eq_true_eq, Option.isNone_iff_eq_none, ← hmark, not_not]
    exact and_iff_right hend
  rw [hlook, h.known_iff hpi]
  by_cases hheld : Held c (p + dataAlignment n)
  · exact iff_of_true (fun hnot => absurd hheld hnot) ⟨fun _ => Or.inl hheld, fun _ => hheld⟩
  · constructor
    · intro hreads
      obtain ⟨i, hi, hlinked, hin⟩ := hreads hheld
      have ht := hpi.lists.node_tile (cur_sub (hpi.lists.mem_cur_of_linked hlinked))
      have hlen : itemLengthOf c.pool.mem (p + dataAlignment n) = slotLength i :=
        h.pool.right_length ht
      have h512 := hpi.lists.node_le (cur_sub (hpi.lists.mem_cur_of_linked hlinked))
      refine ⟨fun _ => Or.inr ⟨i, _, hi, hlinked, Nat.le_refl _, by omega⟩, ?_⟩
      intro hend
      omega
    · intro ⟨hinside, hbehind⟩ _
      have hlt : p + dataAlignment n < iv.2 := by
        rcases Nat.lt_or_eq_of_le hhi with hlt | heq
        · exact hlt
        · exact absurd (hbehind heq) hheld
      rcases hinside hlt with hheld' | ⟨i, a, hx⟩
      · exact absurd hheld' hheld
      · obtain ⟨heq, hend⟩ := h.listed_above hpi hb hiv hlo hlt hx
        rw [heq] at hend
        have hlinked : Linked c.pool i a := hx.2.1
        rw [heq] at hlinked
        exact ⟨i, hx.1, hlinked, hend⟩

end Reads

/-- **`RocketCoFree` keeps to free blocks** exactly when both neighbours are known. -/
theorem Sound.readsOnlyFree_iff {c : Client} (h : Sound c) (hm : MarksOwned c) {p n : Nat}
    (hb : (p, n) ∈ c.out) (hrec : Recorded c p n) : ReadsOnlyFree c p n ↔ KnownNeighbours c p n := by
  obtain ⟨T, hT⟩ := h
  obtain ⟨cur, lost, hpi⟩ := id hT.pool
  obtain ⟨iv, hiv, hlo, hhi, hfind⟩ := hT.find_chunk hb
  have hbelow := hT.reads_below hpi hm hb hrec hiv hlo hhi
  have habove := hT.reads_above hpi hm hb hrec hiv hlo hhi
  unfold ReadsOnlyFree KnownNeighbours
  rw [hfind]
  simp only [Option.mem_some_iff, forall_eq']
  rw [hbelow, habove]

/-- **In every run of safe calls**, and with every other block recorded, `RocketCoFree` keeps to free
blocks of the chunk exactly when neither neighbour is unused or dropped, or behind the chunk. -/
theorem reads_only_free_iff {m : Mem} {as : List Action} {c : Client}
    (h : Run CallsSafely (Client.start m) as c) {p n : Nat} (hb : (p, n) ∈ c.out)
    (hrec : Recorded c p n) : ReadsOnlyFree c p n ↔ KnownNeighbours c p n := by
  obtain ⟨hsound, hm⟩ := callsSafely_run h
  exact hsound.readsOnlyFree_iff hm hb hrec

/-- Such a return is a safe call: what it merges with is not in use. -/
theorem Sound.safeMerge_of_known {c : Client} (h : Sound c) (hm : MarksOwned c) {p n : Nat}
    (hb : (p, n) ∈ c.out) (hrec : Recorded c p n) (hknown : KnownNeighbours c p n) :
    SafeMerge c (.free p n) := by
  obtain ⟨T, hT⟩ := h
  obtain ⟨cur, lost, hpi⟩ := id hT.pool
  obtain ⟨iv, hiv, hlo, hhi, hfind⟩ := hT.find_chunk hb
  have hpos : 0 < iv.1 := hiv.2.1
  intro item hitem
  have heq : iv = item := by
    rw [hfind] at hitem
    exact Option.some.inj hitem
  rw [← heq]
  obtain ⟨hbelow, habove⟩ := hknown iv (by rw [hfind]; rfl)
  constructor
  · -- looked at, so not held; known, so not unused
    intro hmerge
    have hlook := hmerge.1
    unfold looksLeft at hlook
    rw [Bool.and_eq_true, decide_eq_true_eq, Option.isNone_iff_eq_none] at hlook
    refine ⟨?_, (hbelow hlook.1).1⟩
    intro hheld
    exact (hT.mark_below hm hb hrec (by omega)).mpr hheld hlook.2
  · intro hno hmerge
    have hlook := hmerge.1
    unfold looksRight at hlook
    rw [Bool.and_eq_true, Option.isNone_iff_eq_none] at hlook
    have hnot : ¬ Held c (p + dataAlignment n) := by
      intro hheld
      exact (hT.mark_above hm hb hrec).mpr hheld hlook.2
    have hlt : p + dataAlignment n < iv.2 := by
      rcases Nat.lt_or_eq_of_le hhi with hlt | hend
      · exact hlt
      · exact absurd ((habove hno).2 hend) hnot
    exact ⟨hlt, hnot, ((habove hno).1 hlt).1⟩

/-- A run found by evaluation. -/
theorem callsSafely_of_check {c : Client} {as : List Action} {q : Client → Bool}
    (h : checkRun Client.step
      (fun c a => decide (Allowed c a ∧ SafeMerge c a ∧ FallsBackSafely c a)) c as q = true) :
    ∃ d, Run CallsSafely c as d ∧ q d = true := by
  refine Run.of_check ?_ h
  intro c a d hok hstep
  obtain ⟨hallowed, hmerge, hfall⟩ := of_decide_eq_true hok
  exact ⟨⟨hallowed, hstep⟩, hmerge, hfall⟩

/-- The first block of a chunk, with the free list behind it, is returned. -/
theorem reads_only_free_first : ∃ c, Run CallsSafely (Client.start fun _ => 0)
    [.malloc 512 (some 4096)] c ∧ ReadsOnlyFree c 4096 512 := by
  have hcheck : checkRun Client.step
      (fun c a => decide (Allowed c a ∧ SafeMerge c a ∧ FallsBackSafely c a))
      (Client.start fun _ => 0) [.malloc 512 (some 4096)]
      (fun c => decide ((4096, 512) ∈ c.out ∧ Recorded c 4096 512 ∧
        findInterval c.pool.pointerEffectiveInterval 4096 = some (4096, 24576) ∧
        c.pool.startfree = 14336 ∧ c.pool.freeList 0 = 4608 ∧
        itemLengthOf c.pool.mem 4608 = 512)) = true := by decide +kernel
  obtain ⟨c, hrun, hend⟩ := callsSafely_of_check hcheck
  obtain ⟨hb, hrec, hfind, hstart, hhead, hlen⟩ := of_decide_eq_true hend
  have hround : dataAlignment 512 = 512 := by decide
  refine ⟨c, hrun, (reads_only_free_iff hrun hb hrec).mpr ?_⟩
  intro item hitem
  have heq : (4096, 24576) = item := by
    rw [hfind] at hitem
    exact Option.some.inj hitem
  rw [← heq, hround]
  refine ⟨fun hne => absurd rfl hne, fun _ => ⟨fun _ => ⟨?_, ?_⟩, ?_⟩⟩
  · omega
  · -- the head of the list of 512 bytes
    have hlinked : Linked c.pool 0 (c.pool.freeList 0) := by
      refine Linked.head ?_
      rw [hhead]
      decide
    rw [hhead] at hlinked
    refine ⟨.listed 0 4608, by decide, hlinked, Nat.le_refl _, ?_⟩
    rw [hlen]
    decide
  · intro hend
    simp at hend

/-- A block of 8 KB stands before the unused region, the only one in the client's hands: returning it
takes the first unused bytes for a node. -/
theorem not_reads_only_free : ∃ c, Run CallsSafely (Client.start fun _ => 0)
    [.malloc 512 (some 4096), .malloc 8192 none, .free 4096 512] c ∧ (14336, 8192) ∈ c.out ∧
      Recorded c 14336 8192 ∧ ¬ ReadsOnlyFree c 14336 8192 := by
  have hcheck : checkRun Client.step
      (fun c a => decide (Allowed c a ∧ SafeMerge c a ∧ FallsBackSafely c a))
      (Client.start fun _ => 0) [.malloc 512 (some 4096), .malloc 8192 none, .free 4096 512]
      (fun c => decide ((14336, 8192) ∈ c.out ∧ Recorded c 14336 8192 ∧
        findInterval c.pool.pointerEffectiveInterval 14336 = some (4096, 24576) ∧
        c.pool.startfree = 22528 ∧ c.pool.endfree = 24576 ∧
        ¬ MergesLeft c.pool (4096, 24576) 14336 8192)) = true := by decide +kernel
  obtain ⟨c, hrun, hend⟩ := callsSafely_of_check hcheck
  obtain ⟨hb, hrec, hfind, hstart, hstop, hno⟩ := of_decide_eq_true hend
  refine ⟨c, hrun, hb, hrec, ?_⟩
  intro hreads
  obtain ⟨hsound, hm⟩ := callsSafely_run hrun
  have hknown := (hsound.readsOnlyFree_iff hm hb hrec).mp hreads (4096, 24576) (by rw [hfind]; rfl)
  have hround : dataAlignment 8192 = 8192 := by decide
  rw [hround] at hknown
  have hunused := ((hknown.2 hno).1 (by decide)).1
  exact hunused ⟨by omega, by omega⟩

end RocketCo.MemoryPool
