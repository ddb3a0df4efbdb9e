/-
  RocketCo.Lib.Bytes — a byte-addressed memory with little-endian words of any width.

  A memory is a total function from addresses to bytes.  `load m a k` reads the `k` bytes at `a`
  as one unsigned number, `store m a k v` overwrites them with the low `8 * k` bits of `v`,
  `copy m a bs` is `memcpy` from a byte list.  Every frame fact the developments above need is an
  instance of one notion: `AgreeOn m m' a n`, the two memories hold the same bytes on
  `[a, a + n)`.
-/
import Mathlib.Data.Nat.Basic
import Mathlib.Tactic.Ring

namespace RocketCo.Lib

/-- A byte-addressed memory. -/
abbrev Mem : Type := Nat → BitVec 8

/-- The `k` bytes at `a`, read as one little-endian number. -/
def load (m : Mem) : Nat → Nat → Nat
  | _, 0 => 0
  | a, k + 1 => (m a).toNat + 256 * load m (a + 1) k

/-- Byte `i` of the little-endian form of `v`. -/
def byteAt (v i : Nat) : BitVec 8 := BitVec.ofNat 8 (v / 256 ^ i)

/-- Overwrite the `k` bytes at `a` with the low bytes of `v`. -/
def store (m : Mem) (a k v : Nat) : Mem :=
  fun x => if a ≤ x ∧ x < a + k then byteAt v (x - a) else m x

/-- The bytes of `[a, a + n)`, lowest address first. -/
def readBytes (m : Mem) (a n : Nat) : List (BitVec 8) :=
  (List.range n).map fun i => m (a + i)

/-- Overwrite memory from `a` on with the listed bytes. -/
def copy (m : Mem) (a : Nat) (bs : List (BitVec 8)) : Mem :=
  fun x => if a ≤ x then (bs[x - a]?).getD (m x) else m x

/-- The two memories hold the same bytes on `[a, a + n)`. -/
def AgreeOn (m m' : Mem) (a n : Nat) : Prop := ∀ x, a ≤ x → x < a + n → m' x = m x

/-! ## §1. Agreement. -/

theorem AgreeOn.refl (m : Mem) (a n : Nat) : AgreeOn m m a n := fun _ _ _ => rfl

theorem AgreeOn.trans {m₁ m₂ m₃ : Mem} {a n : Nat}
    (h₁ : AgreeOn m₁ m₂ a n) (h₂ : AgreeOn m₂ m₃ a n) : AgreeOn m₁ m₃ a n :=
  fun x hlo hhi => (h₂ x hlo hhi).trans (h₁ x hlo hhi)

/-- Memories that agree on a range agree on a part of it. -/
theorem AgreeOn.mono {m m' : Mem} {a n b k : Nat} (h : AgreeOn m m' a n)
    (hlo : a ≤ b) (hhi : b + k ≤ a + n) : AgreeOn m m' b k :=
  fun x h₁ h₂ => h x (by omega) (by omega)

/-- A load sees only the bytes it reads. -/
theorem load_congr {m m' : Mem} : ∀ {k a : Nat}, AgreeOn m m' a k → load m' a k = load m a k
  | 0, _, _ => rfl
  | k + 1, a, h => by
      have hhead : m' a = m a := h a (Nat.le_refl a) (by omega)
      have htail : load m' (a + 1) k = load m (a + 1) k :=
        load_congr (h.mono (by omega) (by omega))
      show (m' a).toNat + 256 * load m' (a + 1) k = (m a).toNat + 256 * load m (a + 1) k
      rw [hhead, htail]

/-- A store changes its own bytes only. -/
theorem store_outside (m : Mem) {a k : Nat} (v : Nat) {x : Nat} (h : x < a ∨ a + k ≤ x) :
    store m a k v x = m x := by
  unfold store
  rw [if_neg (by omega)]

/-- A store leaves every range it does not meet alone. -/
theorem agreeOn_store (m : Mem) {a k : Nat} (v : Nat) {b n : Nat}
    (h : b + n ≤ a ∨ a + k ≤ b) : AgreeOn m (store m a k v) b n := by
  intro x hlo hhi
  exact store_outside m v (by omega)

/-- A copy leaves every range it does not meet alone. -/
theorem agreeOn_copy (m : Mem) {a : Nat} (bs : List (BitVec 8)) {b n : Nat}
    (h : b + n ≤ a ∨ a + bs.length ≤ b) : AgreeOn m (copy m a bs) b n := by
  intro x hlo hhi
  unfold copy
  split
  · rw [List.getElem?_eq_none (by omega)]
    rfl
  · rfl

/-! ## §2. Loads of stored words. -/

/-- A store read back byte by byte. -/
theorem load_of_bytes {m : Mem} :
    ∀ {k a v : Nat}, (∀ i, i < k → m (a + i) = byteAt v i) → load m a k = v % 256 ^ k
  | 0, _, v, _ => by
      show 0 = v % 256 ^ 0
      rw [pow_zero, Nat.mod_one]
  | k + 1, a, v, h => by
      have htail : load m (a + 1) k = v / 256 % 256 ^ k := by
        refine load_of_bytes fun i hi => ?_
        have := h (i + 1) (by omega)
        rw [show a + 1 + i = a + (i + 1) by omega, this]
        unfold byteAt
        rw [pow_succ, Nat.mul_comm, Nat.div_div_eq_div_mul]
      have hhead : (m a).toNat = v % 256 := by
        have := h 0 (by omega)
        rw [Nat.add_zero] at this
        rw [this]
        simp [byteAt]
      show (m a).toNat + 256 * load m (a + 1) k = v % 256 ^ (k + 1)
      rw [hhead, htail, pow_succ, Nat.mul_comm (256 ^ k) 256, Nat.mod_mul]

/-- A number that was stored is read back, up to what does not fit. -/
theorem load_store_same (m : Mem) (a k v : Nat) : load (store m a k v) a k = v % 256 ^ k := by
  refine load_of_bytes fun i hi => ?_
  unfold store
  rw [if_pos (by omega), Nat.add_sub_cancel_left]

/-- Storing a number that fits and reading it back. -/
theorem load_store_fits (m : Mem) (a k : Nat) {v : Nat} (h : v < 256 ^ k) :
    load (store m a k v) a k = v := by
  rw [load_store_same, Nat.mod_eq_of_lt h]

/-- A store elsewhere does not matter. -/
theorem load_store_disjoint (m : Mem) {a k b n : Nat} (v : Nat)
    (h : b + n ≤ a ∨ a + k ≤ b) : load (store m a k v) b n = load m b n :=
  load_congr (agreeOn_store m v h)

/-! ## §3. Copying a saved range back. -/

@[simp] theorem readBytes_length (m : Mem) (a n : Nat) : (readBytes m a n).length = n := by
  simp [readBytes]

/-- The bytes that were read are those of the memory. -/
theorem readBytes_getElem? (m : Mem) (a n i : Nat) (h : i < n) :
    (readBytes m a n)[i]? = some (m (a + i)) := by
  simp [readBytes, h]

/-- What is read says what the memory holds there. -/
theorem readBytes_eq_iff {m m' : Mem} {a n : Nat} :
    readBytes m' a n = readBytes m a n ↔ AgreeOn m m' a n := by
  constructor
  · intro heq x hlo hhi
    have hbyte : (readBytes m' a n)[x - a]? = (readBytes m a n)[x - a]? := by rw [heq]
    rw [readBytes_getElem? _ _ _ _ (by omega), readBytes_getElem? _ _ _ _ (by omega),
      Nat.add_sub_cancel' hlo] at hbyte
    exact Option.some.inj hbyte
  · intro hagree
    apply List.map_congr_left
    intro i hi
    have hlt := List.mem_range.mp hi
    exact hagree (a + i) (by omega) (by omega)

/-- Inside the copied range the memory holds the listed bytes. -/
theorem copy_inside (m : Mem) (a : Nat) (bs : List (BitVec 8)) {x : Nat} (hlo : a ≤ x)
    {b : BitVec 8} (h : bs[x - a]? = some b) : copy m a bs x = b := by
  unfold copy
  rw [if_pos hlo, h]
  rfl

end RocketCo.Lib
