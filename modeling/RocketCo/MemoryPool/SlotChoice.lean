/-
  RocketCo.MemoryPool.SlotChoice — the free list a request is served from.

  `RocketCoMalloc` rounds a request up with `DataAlignment` and looks at the list that
  `FindFreeListIndex` names; `MergeData` puts a merged block on a list that `IsMerge` has approved.
  The four functions draw their zone boundaries separately.  They agree everywhere but at zero:
  `DataAlignment(0)` is zero, and the minus one of `FindFreeListIndex` wraps.

  Main result: `slot_choice_iff`.
-/
import RocketCo.MemoryPool.Alloctor

namespace RocketCo.MemoryPool

/-! ## §1. What is asked of a request and of a merge. -/

/-- The list `RocketCoMalloc` looks at. -/
def slotFor (n : Nat) : Nat := findFreeListIndex (dataAlignment n)

/-- The request is handed on to `malloc`. -/
def Delegates (n : Nat) : Prop :=
  ∀ malloc st, rocketCoMalloc malloc st n = some (st, .ret ((malloc 0).getD 0))

/-- The request is served from a free list, and from the right one. -/
structure ServedFromSlot (n : Nat) : Prop where
  listed : slotFor n < slotCount
  pops : ∀ malloc st, st.freeList (slotFor n) ≠ 0 →
    ∃ st', rocketCoMalloc malloc st n = some (st', .ret (st.freeList (slotFor n)))
  refills : ∀ malloc st, st.freeList (slotFor n) = 0 →
    rocketCoMalloc malloc st n = refill malloc st (dataAlignment n)
  length : index2SlotLength (slotFor n) = some (dataAlignment n)
  covers : n ≤ dataAlignment n
  least : ∀ i < slotCount, ∀ L, index2SlotLength i = some L → n ≤ L → dataAlignment n ≤ L

/-- The length is that of a free list. -/
structure IsSlotLength (t : Nat) : Prop where
  aligned : dataAlignment t = t
  listed : findFreeListIndex t < slotCount
  length : index2SlotLength (findFreeListIndex t) = some t

/-! ## §2. Requests. -/

/-- A request above `ThirdSlot` never sees a list ... -/
theorem delegates_of_lt {n : Nat} (h : thirdSlot < n) : Delegates n := by
  intro malloc st
  unfold rocketCoMalloc
  rw [if_pos h]

/-- ... a request for nothing looks far behind the last one ... -/
theorem slotFor_zero : slotFor 0 = sizeMod - 1 := by decide

theorem rocketCoMalloc_zero (malloc : Nat → Option Nat) (st : RocketCoAlloctor) :
    rocketCoMalloc malloc st 0 = none := by
  have hout : slotCount ≤ findFreeListIndex (dataAlignment 0) := by decide
  unfold rocketCoMalloc
  rw [if_neg (Nat.not_lt_zero thirdSlot)]
  dsimp only
  rw [if_pos hout]

/-- ... and every other request is served from the shortest list that is long enough. -/
theorem servedFromSlot {n : Nat} (hpos : 0 < n) (hle : n ≤ thirdSlot) : ServedFromSlot n := by
  have hs := dataAlignment_slotSized hpos hle
  have hlen := dataAlignment_le hle
  have hlisted : slotFor n < slotCount := findFreeListIndex_lt hs hlen
  have hserves : ¬ slotCount ≤ findFreeListIndex (dataAlignment n) := Nat.not_le.mpr hlisted
  constructor
  case listed => exact hlisted
  case pops =>
    intro malloc st hne
    have hfull : ¬ st.freeList (findFreeListIndex (dataAlignment n)) = 0 := hne
    unfold rocketCoMalloc
    rw [if_neg (Nat.not_lt.mpr hle)]
    dsimp only
    rw [if_neg hserves, if_neg hfull]
    exact ⟨_, rfl⟩
  case refills =>
    intro malloc st hempty
    have hnull : st.freeList (findFreeListIndex (dataAlignment n)) = 0 := hempty
    unfold rocketCoMalloc
    rw [if_neg (Nat.not_lt.mpr hle)]
    dsimp only
    rw [if_neg hserves, if_pos hnull]
  case length =>
    rw [index2SlotLength_eq_slotLength hlisted]
    exact congrArg some (slotLength_findFreeListIndex hs hlen)
  case covers => exact le_dataAlignment n
  case least =>
    intro i hi L hL hnL
    rw [index2SlotLength_eq_slotLength hi] at hL
    rw [← Option.some.inj hL] at hnL ⊢
    exact (slotLength_slotSized hi).dataAlignment_le hnL

theorem served_iff (n : Nat) : Delegates n ∨ ServedFromSlot n ↔ n ≠ 0 := by
  constructor
  · intro h hzero
    rw [hzero] at h
    cases h with
    | inl hdel =>
        have hsome := hdel (fun _ => none) (.init fun _ => 0)
        rw [rocketCoMalloc_zero] at hsome
        cases hsome
    | inr hserved =>
        have hlisted := hserved.listed
        rw [slotFor_zero] at hlisted
        exact absurd hlisted (by decide)
  · intro hne
    by_cases hlarge : thirdSlot < n
    · exact Or.inl (delegates_of_lt hlarge)
    · exact Or.inr (servedFromSlot (Nat.pos_of_ne_zero hne) (Nat.not_lt.mp hlarge))

/-! ## §3. Merges. -/

theorem SlotSized.isSlotLength {t : Nat} (h : SlotSized t) (hle : t ≤ thirdSlot) :
    IsSlotLength t := by
  have hlisted := findFreeListIndex_lt h hle
  refine ⟨h.dataAlignment_eq, hlisted, ?_⟩
  rw [index2SlotLength_eq_slotLength hlisted, slotLength_findFreeListIndex h hle]

/-- **The size classes agree.**  Every request but that for nothing goes to `malloc` or to the shortest
free list that is long enough, and every total that `IsMerge` approves is the length of a free list. -/
theorem slot_choice_iff (n : Nat) :
    (Delegates n ∨ ServedFromSlot n ↔ n ≠ 0) ∧
      ∀ t, 0 < t → isMerge t = true → IsSlotLength t := by
  refine ⟨served_iff n, ?_⟩
  intro t hpos hmerge
  obtain ⟨hs, hlt⟩ := isMerge_slotSized hpos hmerge
  exact hs.isSlotLength (Nat.le_of_lt hlt)

/-- Two free blocks of 4 KB make one of 8 KB, the first length of the second zone's test. -/
theorem slot_choice_boundary : 0 < 8192 ∧ isMerge 8192 = true ∧ IsSlotLength 8192 :=
  ⟨by decide, by decide, (slot_choice_iff 8192).2 8192 (by decide) (by decide)⟩

/-- `RocketCoMalloc(0)` reads `free_list[SIZE_MAX]`. -/
theorem not_slot_choice : ¬ (Delegates 0 ∨ ServedFromSlot 0) := by
  intro h
  exact (served_iff 0).mp h rfl

end RocketCo.MemoryPool
