/-
  RocketCo.MemoryPool.SizeClass — the size-class arithmetic of `RocketCoAlloctor`.

  A request is rounded up to a multiple of 512 bytes (up to 8 KB), of 1 KB (up to 32 KB) or of
  2 KB (up to 128 KB); the rounded length names one of 96 free lists.  The source writes this four
  times (`FindFreeListIndex`, `DataAlignment`, `Index2SlotLength`, `IsMerge`), each piecewise.
  `SlotSized` is the one arithmetic fact behind all of them: a positive length that is a multiple
  of the granule of its own zone.
-/
import Mathlib.Data.Nat.Bitwise
import Mathlib.Tactic.NormNum

namespace RocketCo.MemoryPool

/-! ## §1. The functions of the source. -/

def firstSlot : Nat := 8 * 1024
def secondSlot : Nat := 32 * 1024
def thirdSlot : Nat := 128 * 1024

/-- Number of free lists. -/
def slotCount : Nat := 96

/-- `size_t` values are taken modulo `2 ^ 64`. -/
def sizeMod : Nat := 2 ^ 64

/-- `Index2SlotLength`: the block length of a free list; `none` where the source calls `exit`. -/
def index2SlotLength (index : Nat) : Option Nat :=
  let index := index + 1
  if index ≤ 16 then some (512 * index)
  else if index ≤ 40 then some (firstSlot + ((index - 16) <<< 10))
  else if index ≤ 96 then some (secondSlot + ((index - 40) <<< 11))
  else none

/-- `FindFreeListIndex`: the free list of an aligned length.  The final `index - 1` is `size_t`
arithmetic and wraps at zero. -/
def findFreeListIndex (index : Nat) : Nat :=
  let index :=
    if index ≤ firstSlot then index >>> 9
    else if index ≤ secondSlot then (index >>> 10) + 8
    else if index ≤ thirdSlot then (index >>> 11) + 24
    else index
  if index = 0 then sizeMod - 1 else index - 1

/-- `DataAlignment`: round a length up to the granule of its zone.  `index &= ~mask` is
`index - (index &&& mask)`. -/
def dataAlignment (index : Nat) : Nat :=
  if index ≤ firstSlot then
    if index &&& 0b111111111 ≠ 0 then index - (index &&& 0b111111111) + 0b1000000000 else index
  else if index ≤ secondSlot then
    if index &&& 0b1111111111 ≠ 0 then index - (index &&& 0b1111111111) + 0b10000000000 else index
  else if index ≤ thirdSlot then
    if index &&& 0b11111111111 ≠ 0 then index - (index &&& 0b11111111111) + 0b100000000000
    else index
  else index

/-- `IsMerge`: may a block of this total length go on a free list?  The first test of the source
(`len < 0 && len > ThirdSlot`) is never true of a `size_t`. -/
def isMerge (len : Nat) : Bool :=
  if len < firstSlot then len &&& 511 == 0
  else if len < secondSlot then len &&& 1023 == 0
  else if len < thirdSlot then len &&& 2047 == 0
  else false

/-! ## §2. Lengths that are multiples of their zone's granule. -/

/-- A positive length that is a multiple of 512, of 1 KB above 8 KB and of 2 KB above 32 KB. -/
structure SlotSized (L : Nat) : Prop where
  pos : 0 < L
  mod512 : L % 512 = 0
  mod1024 : firstSlot < L → L % 1024 = 0
  mod2048 : secondSlot < L → L % 2048 = 0

/-- A slot has 512 bytes at least. -/
theorem SlotSized.le {L : Nat} (h : SlotSized L) : 512 ≤ L := by
  have := h.pos
  have := h.mod512
  omega

/-- Unfold the zone boundaries and the bit operations to linear arithmetic. -/
theorem mask_eq_mod (n : Nat) :
    (n &&& 0b111111111 = n % 512) ∧ (n &&& 0b1111111111 = n % 1024) ∧
      (n &&& 0b11111111111 = n % 2048) :=
  ⟨Nat.and_two_pow_sub_one_eq_mod n 9, Nat.and_two_pow_sub_one_eq_mod n 10,
    Nat.and_two_pow_sub_one_eq_mod n 11⟩

/-- **`DataAlignment`** rounds up to the grain of its range. -/
theorem dataAlignment_eq (n : Nat) :
    dataAlignment n =
      if n ≤ 8192 then (n + 511) / 512 * 512
      else if n ≤ 32768 then (n + 1023) / 1024 * 1024
      else if n ≤ 131072 then (n + 2047) / 2048 * 2048
      else n := by
  obtain ⟨h9, h10, h11⟩ := mask_eq_mod n
  unfold dataAlignment firstSlot secondSlot thirdSlot
  rw [h9, h10, h11]
  norm_num only
  split_ifs <;> omega

/-- No block is smaller than what was asked for. -/
theorem le_dataAlignment (n : Nat) : n ≤ dataAlignment n := by
  rw [dataAlignment_eq]
  split_ifs <;> omega

theorem dataAlignment_le {n : Nat} (h : n ≤ thirdSlot) : dataAlignment n ≤ thirdSlot := by
  unfold thirdSlot at *
  rw [dataAlignment_eq]
  split_ifs <;> omega

/-- Rounding a request gives a slot length. -/
theorem dataAlignment_slotSized {n : Nat} (hpos : 0 < n) (hle : n ≤ thirdSlot) :
    SlotSized (dataAlignment n) := by
  unfold thirdSlot at hle
  rw [dataAlignment_eq]
  refine ⟨?_, ?_, fun h => ?_, fun h => ?_⟩
  · split_ifs <;> omega
  · split_ifs <;> omega
  · unfold firstSlot at h
    split_ifs at h ⊢ <;> omega
  · unfold secondSlot at h
    split_ifs at h ⊢ <;> omega

/-- A slot length is already aligned. -/
theorem SlotSized.dataAlignment_eq {L : Nat} (h : SlotSized L) : dataAlignment L = L := by
  obtain ⟨hpos, h512, h1024, h2048⟩ := h
  unfold firstSlot at h1024
  unfold secondSlot at h2048
  rw [MemoryPool.dataAlignment_eq]
  split_ifs <;> omega

/-- A request is rounded to the smallest slot length that covers it. -/
theorem SlotSized.dataAlignment_le {n L : Nat} (h : SlotSized L) (hn : n ≤ L) :
    dataAlignment n ≤ L := by
  obtain ⟨hpos, h512, h1024, h2048⟩ := h
  unfold firstSlot at h1024
  unfold secondSlot at h2048
  rw [MemoryPool.dataAlignment_eq]
  -- the zone of `n` has the granule of `L`, or a smaller one that divides it
  split_ifs with h₁ h₂ h₃
  · omega
  · have := h1024 (by omega)
    omega
  · have := h2048 (by omega)
    omega
  · exact hn

/-- A total length the merge test accepts is a slot length. -/
theorem isMerge_slotSized {t : Nat} (hpos : 0 < t) (h : isMerge t = true) :
    SlotSized t ∧ t < thirdSlot := by
  obtain ⟨h9, h10, h11⟩ := mask_eq_mod t
  have h9' : t &&& 511 = t % 512 := h9
  have h10' : t &&& 1023 = t % 1024 := h10
  have h11' : t &&& 2047 = t % 2048 := h11
  unfold isMerge at h
  rw [h9', h10', h11'] at h
  unfold firstSlot secondSlot thirdSlot at *
  split_ifs at h with h₁ h₂ h₃ <;> rw [beq_iff_eq] at h
  · exact ⟨⟨hpos, by omega, by unfold firstSlot; omega, by unfold secondSlot; omega⟩, by omega⟩
  · exact ⟨⟨hpos, by omega, by unfold firstSlot; omega, by unfold secondSlot; omega⟩, by omega⟩
  · exact ⟨⟨hpos, by omega, by unfold firstSlot; omega, by unfold secondSlot; omega⟩, by omega⟩

/-! ## §3. The slot of a length and the length of a slot.

The 2 KB zone would need 48 of its 56 lists: lists 88 to 95 stand for lengths above 128 KB and
are never used. -/

/-- The block length of free list `i` (zero where there is no such list). -/
def slotLength (i : Nat) : Nat := (index2SlotLength i).getD 0

/-- The lengths of the slots, range by range. -/
theorem index2SlotLength_eq {i : Nat} (h : i < slotCount) :
    index2SlotLength i =
      some (if i < 16 then 512 * (i + 1)
        else if i < 40 then 8192 + (i - 15) * 1024
        else 32768 + (i - 39) * 2048) := by
  unfold slotCount at h
  unfold index2SlotLength firstSlot secondSlot
  simp only [Nat.shiftLeft_eq]
  split_ifs <;> first | omega | congr 1

theorem slotLength_eq {i : Nat} (h : i < slotCount) :
    slotLength i =
      if i < 16 then 512 * (i + 1)
      else if i < 40 then 8192 + (i - 15) * 1024
      else 32768 + (i - 39) * 2048 := by
  unfold slotLength
  rw [index2SlotLength_eq h]
  rfl

/-- The index of a slot has a length. -/
theorem index2SlotLength_eq_slotLength {i : Nat} (h : i < slotCount) :
    index2SlotLength i = some (slotLength i) := by
  unfold slotLength
  rw [index2SlotLength_eq h]
  rfl

/-- **`FindFreeListIndex`**, range by range. -/
theorem findFreeListIndex_eq {L : Nat} (h : SlotSized L) (hle : L ≤ thirdSlot) :
    findFreeListIndex L =
      if L ≤ 8192 then L / 512 - 1
      else if L ≤ 32768 then L / 1024 + 7
      else L / 2048 + 23 := by
  have h512 := h.le
  unfold thirdSlot at hle
  unfold findFreeListIndex firstSlot secondSlot thirdSlot
  simp only [Nat.shiftRight_eq_div_pow]
  by_cases h₁ : L ≤ 8192
  · simp only [h₁, if_true]
    rw [if_neg (by omega)]
  · by_cases h₂ : L ≤ 32768
    · simp only [h₁, h₂, if_true, if_false]
      rw [if_neg (by omega)]
      omega
    · simp only [h₁, h₂, hle, if_true, if_false]
      rw [if_neg (by omega)]
      omega

/-- The free list of a slot length is one of the 96. -/
theorem findFreeListIndex_lt {L : Nat} (h : SlotSized L) (hle : L ≤ thirdSlot) :
    findFreeListIndex L < slotCount := by
  rw [findFreeListIndex_eq h hle]
  unfold thirdSlot at hle
  unfold slotCount
  split_ifs <;> omega

/-- **`FindFreeListIndex` and `Index2SlotLength` are inverse on slot lengths.** -/
theorem slotLength_findFreeListIndex {L : Nat} (h : SlotSized L) (hle : L ≤ thirdSlot) :
    slotLength (findFreeListIndex L) = L := by
  rw [slotLength_eq (findFreeListIndex_lt h hle), findFreeListIndex_eq h hle]
  obtain ⟨hpos, h512, h1024, h2048⟩ := h
  unfold firstSlot at h1024
  unfold secondSlot at h2048
  unfold thirdSlot at hle
  split_ifs <;> omega

/-- The slot lengths are slot lengths, also of the lists nothing is put on. -/
theorem slotLength_slotSized {i : Nat} (hi : i < slotCount) : SlotSized (slotLength i) := by
  have hmax := hi
  unfold slotCount at hmax
  rw [slotLength_eq hi]
  constructor
  · split_ifs <;> omega
  · split_ifs <;> omega
  · intro h
    unfold firstSlot at h
    split_ifs at h ⊢ <;> omega
  · intro h
    unfold secondSlot at h
    split_ifs at h ⊢ <;> omega

/-- Longer blocks stand on later lists. -/
theorem slotLength_lt {i j : Nat} (hj : j < slotCount) (hij : i < j) :
    slotLength i < slotLength j := by
  have hi : i < slotCount := Nat.lt_trans hij hj
  rw [slotLength_eq hi, slotLength_eq hj]
  unfold slotCount at hj
  split_ifs <;> omega

end RocketCo.MemoryPool
