/-
  RocketCo.CoRoutine.TimeWheel — the time wheel as the source computes it.

  The wheel is a ring of `DefaultSize` lists.  `Start` is the time the wheel was last advanced to,
  `Index` the slot of that time; a deadline `Start + k` belongs in slot `(Index + k) mod size`.
  Both routines mix `uint64_t`, `int64_t`, `int` and `size_t`; the conversions are written out.
  Overflow of `Index` is taken to wrap.
-/
import RocketCo.CoRoutine.Links
import Mathlib.Algebra.Ring.Int.Defs
import Mathlib.Algebra.Ring.Nat

namespace RocketCo.CoRoutine

open RocketCo.Lib

/-! ## §1. Machine integers. -/

/-- Conversion to `size_t` or `uint64_t`. -/
def toSizeT (x : Int) : Nat := (x % 2 ^ 64).toNat

/-- Conversion to `int64_t`. -/
def toInt64 (x : Int) : Int := (x + 2 ^ 63) % 2 ^ 64 - 2 ^ 63

/-- Conversion to `int`. -/
def toInt32 (x : Int) : Int := (x + 2 ^ 31) % 2 ^ 32 - 2 ^ 31

/-- `INT32_MAX`. -/
def int32Max : Nat := 2 ^ 31 - 1

theorem toSizeT_add (x : Int) {k : Nat} (h : toSizeT x + k < 2 ^ 64) :
    toSizeT (x + k) = toSizeT x + k := by
  unfold toSizeT at *
  omega

/-- Both conversions keep the number modulo `2 ^ 64`. -/
theorem toSizeT_toInt64 (x : Int) : toSizeT (toInt64 x) = toSizeT x := by
  unfold toSizeT toInt64
  omega

theorem toInt64_of_lt {n : Nat} (h : n < 2 ^ 63) : toInt64 (n : Int) = n := by
  unfold toInt64
  omega

theorem toSizeT_nat {n : Nat} (h : n < 2 ^ 64) : toSizeT n = n := by
  unfold toSizeT
  omega

/-- A `uint64_t` narrowed to `int`: the lower half of the remainders ... -/
theorem toInt32_toSizeT_low {n : Nat} (h : n % 2 ^ 32 < 2 ^ 31) :
    toInt32 (toSizeT n) = (n % 2 ^ 32 : Nat) := by
  unfold toInt32 toSizeT
  omega

/-- ... stays, and the upper half becomes negative. -/
theorem toInt32_toSizeT_high {n : Nat} (h : 2 ^ 31 ≤ n % 2 ^ 32) :
    toInt32 (toSizeT n) = (n % 2 ^ 32 : Nat) - 2 ^ 32 := by
  unfold toInt32 toSizeT
  omega

/-! ## §2. The wheel. -/

/-- `TimeWheel::DefaultSize`, the number of slots of a default-constructed wheel. -/
def defaultSize : Nat := 60 * 60 * 24

/-- The fields of a wheel besides its slots. -/
structure TimeWheel where
  Start : Nat
  Index : Int

/-- A default-constructed wheel in zero-initialised storage. -/
def TimeWheel.default : TimeWheel := ⟨0, 0⟩

/-- The list headers of one event loop: the wheel's slots and the lists outside the wheel. -/
inductive Place (O : Type*) where
  | slot (i : Nat)
  | other (o : O)
  deriving DecidableEq

variable {N O : Type*} [DecidableEq N] [DecidableEq O]

/-- `if(Start == 0)`: the first use of the wheel. -/
def TimeWheel.begin (w : TimeWheel) (now : Nat) : TimeWheel :=
  if w.Start = 0 then ⟨now, 0⟩ else w

/-- `Wheel[… % Wheel.size()]`: the `int64_t` is converted to `size_t` for the remainder. -/
def slotOf (index : Int) : Nat := toSizeT (toInt64 index) % defaultSize

/-- `AddTimeOut`, for an item whose `ExpireTime` is `expireTime`.  The result is the return value
(`__LINE__` of the failing check, or `0`), the wheel and the lists. -/
def addTimeOut (w : TimeWheel) (s : Links N (Place O)) (item : N) (expireTime now : Nat) :
    Nat × TimeWheel × Links N (Place O) :=
  let w := w.begin now
  if now < w.Start then (275, w, s)
  else if expireTime < now then (281, w, s)
  else
    -- unsigned subtraction, read as `int64_t`
    let interval := toInt64 (expireTime - w.Start : Int)
    if (defaultSize : Int) ≤ interval then (287, w, s)
    else (0, w, addTail s (.slot (slotOf (w.Index + interval))) item)

/-- The loop of `TakeOutTimeout`: `k` more slots from offset `i` on. -/
def joinSlots (index : Int) (timeOut : O) : Nat → Nat → Links N (Place O) →
    Option (Links N (Place O))
  | 0, _, s => some s
  | k + 1, i, s =>
      match join s (.other timeOut) (.slot (slotOf (index + i))) with
      | none => none
      | some s => joinSlots index timeOut k (i + 1) s

/-- `TakeOutTimeout`: move the lists of all slots from `Start` to `now` to `timeOut`. -/
def takeOutTimeout (w : TimeWheel) (s : Links N (Place O)) (now : Nat) (timeOut : O) :
    Option (TimeWheel × Links N (Place O)) :=
  let w := w.begin now
  if now < w.Start then some (w, s)
  else
    let interval := toInt32 (toSizeT (now - w.Start + 1 : Int))
    -- the comparison converts the `int` to `size_t`
    let interval := if defaultSize < toSizeT interval then (defaultSize : Int) else interval
    if interval ≤ 0 then some (w, s)
    else
      match joinSlots w.Index timeOut interval.toNat 0 s with
      | none => none
      | some s => some (⟨now, toInt64 (w.Index + (interval - 1))⟩, s)

/-! ## §3. Wheels of another length.

`TimeWheel(int Length)` makes them.  The two routines are the same, with the modulus `Wheel.size()` where
`defaultSize` stands above; the bound of `AddTimeOut` stays `DefaultSize`. -/

/-- `Wheel[… % Wheel.size()]`; `none` is a division by zero. -/
def slotIn (size : Nat) (index : Int) : Option Nat :=
  if size = 0 then none else some (toSizeT (toInt64 index) % size)

def addTimeOutIn (size : Nat) (w : TimeWheel) (s : Links N (Place O)) (item : N)
    (expireTime now : Nat) : Option (Nat × TimeWheel × Links N (Place O)) :=
  let w := w.begin now
  if now < w.Start then some (275, w, s)
  else if expireTime < now then some (281, w, s)
  else
    let interval := toInt64 (expireTime - w.Start : Int)
    if (defaultSize : Int) ≤ interval then some (287, w, s)
    else
      match slotIn size (w.Index + interval) with
      | none => none
      | some i => some (0, w, addTail s (.slot i) item)

def joinSlotsIn (size : Nat) (index : Int) (timeOut : O) : Nat → Nat → Links N (Place O) →
    Option (Links N (Place O))
  | 0, _, s => some s
  | k + 1, i, s =>
      match slotIn size (index + i) with
      | none => none
      | some j =>
          match join s (.other timeOut) (.slot j) with
          | none => none
          | some s => joinSlotsIn size index timeOut k (i + 1) s

def takeOutTimeoutIn (size : Nat) (w : TimeWheel) (s : Links N (Place O)) (now : Nat)
    (timeOut : O) : Option (TimeWheel × Links N (Place O)) :=
  let w := w.begin now
  if now < w.Start then some (w, s)
  else
    let interval := toInt32 (toSizeT (now - w.Start + 1 : Int))
    let interval := if size < toSizeT interval then (size : Int) else interval
    if interval ≤ 0 then some (w, s)
    else
      match joinSlotsIn size w.Index timeOut interval.toNat 0 s with
      | none => none
      | some s => some (⟨now, toInt64 (w.Index + (interval - 1))⟩, s)

/-- The modulus of the default wheel is not zero. -/
theorem slotIn_default (index : Int) : slotIn defaultSize index = some (slotOf index) := by
  unfold slotIn slotOf
  rw [if_neg (by decide)]

/-- **The default wheel is one of them.** -/
theorem addTimeOutIn_default (w : TimeWheel) (s : Links N (Place O)) (item : N)
    (expireTime now : Nat) :
    addTimeOutIn defaultSize w s item expireTime now = some (addTimeOut w s item expireTime now) := by
  unfold addTimeOutIn addTimeOut
  dsimp only
  rw [slotIn_default]
  split_ifs <;> rfl

theorem joinSlotsIn_default (index : Int) (out : O) : ∀ (k i : Nat) (s : Links N (Place O)),
    joinSlotsIn defaultSize index out k i s = joinSlots index out k i s := by
  intro k
  induction k with
  | zero =>
      intro i s
      rfl
  | succ k ih =>
      intro i s
      unfold joinSlotsIn joinSlots
      rw [slotIn_default]
      dsimp only
      cases join s (.other out) (.slot (slotOf (index + i))) with
      | none => rfl
      | some s₁ => exact ih (i + 1) s₁

/-- At the default size this is `takeOutTimeout`. -/
theorem takeOutTimeoutIn_default (w : TimeWheel) (s : Links N (Place O)) (now : Nat) (out : O) :
    takeOutTimeoutIn defaultSize w s now out = takeOutTimeout w s now out := by
  unfold takeOutTimeoutIn takeOutTimeout
  dsimp only
  rw [joinSlotsIn_default]

/-- The number of slots `TakeOutTimeout` drains. -/
def TimeWheel.drained (size : Nat) (w : TimeWheel) (now : Nat) : Nat :=
  if now < w.Start then 0
  else
    let interval := toInt32 (toSizeT (now - w.Start + 1 : Int))
    (if size < toSizeT interval then (size : Int) else interval).toNat

/-- **The narrowing**: what counts of the time passed is its remainder modulo `2 ^ 32`; a negative `int`
is a huge `size_t` and is clamped like one. -/
theorem TimeWheel.drained_eq {size : Nat} (hsize : size < 2 ^ 31) (w : TimeWheel) {now : Nat}
    (h : w.Start ≤ now) :
    w.drained size now = min ((now - w.Start + 1) % 2 ^ 32) size := by
  unfold TimeWheel.drained
  rw [if_neg (Nat.not_lt.mpr h)]
  dsimp only
  have hpast : (now - w.Start + 1 : Int) = ((now - w.Start + 1 : Nat) : Int) := by omega
  rw [hpast]
  generalize now - w.Start + 1 = past
  by_cases h32 : past % 2 ^ 32 < 2 ^ 31
  · rw [toInt32_toSizeT_low h32, toSizeT_nat (by omega)]
    split_ifs <;> omega
  · have hneg : size < toSizeT ((past % 2 ^ 32 : Nat) - 2 ^ 32 : Int) := by
      unfold toSizeT
      omega
    rw [toInt32_toSizeT_high (by omega), if_pos hneg]
    omega

/-- A clock behind `Start` drains nothing. -/
theorem TimeWheel.drained_of_lt (w : TimeWheel) (size : Nat) {now : Nat} (h : now < w.Start) :
    w.drained size now = 0 := by
  unfold TimeWheel.drained
  rw [if_pos h]

/-- `TakeOutTimeout` is its loop over that many slots. -/
theorem takeOutTimeoutIn_eq (size : Nat) (w : TimeWheel) (s : Links N (Place O)) (now : Nat)
    (out : O) :
    takeOutTimeoutIn size w s now out =
      if (w.begin now).drained size now = 0 then some (w.begin now, s)
      else
        (joinSlotsIn size (w.begin now).Index out ((w.begin now).drained size now) 0 s).map fun s =>
          (⟨now, toInt64 ((w.begin now).Index + (((w.begin now).drained size now : Int) - 1))⟩, s) := by
  unfold takeOutTimeoutIn TimeWheel.drained
  generalize w.begin now = v
  dsimp only
  by_cases hearly : now < v.Start
  · rw [if_pos hearly, if_pos hearly]
    rfl
  rw [if_neg hearly, if_neg hearly]
  generalize (if size < toSizeT (toInt32 (toSizeT (now - v.Start + 1 : Int))) then
    (size : Int) else toInt32 (toSizeT (now - v.Start + 1 : Int))) = interval
  by_cases hneg : interval ≤ 0
  · rw [if_pos hneg, if_pos (Int.toNat_eq_zero.mpr hneg)]
  · have hpos : ((interval.toNat : Nat) : Int) = interval := Int.toNat_of_nonneg (by omega)
    rw [if_neg hneg, if_neg (by omega), hpos]
    cases joinSlotsIn size v.Index out interval.toNat 0 s <;> rfl

/-! ## §4. What the two routines do to the lists. -/

variable {s s' : Links N (Place O)} {l : Place O → List N} {w : TimeWheel}

/-- One slot joined to `out`. -/
def joined (out : O) (l : Place O → List N) (i : Nat) : Place O → List N :=
  Function.update (Function.update l (.other out) (l (.other out) ++ l (.slot i))) (.slot i) []

/-- The loop joins slot after slot. -/
theorem joinSlotsIn_spec {size : Nat} (hsize : 0 < size) (index : Int) (out : O) :
    ∀ (k i : Nat) {s : Links N (Place O)} {l : Place O → List N}, Repr s l →
      ∃ s', joinSlotsIn size index out k i s = some s' ∧
        Repr s' ((List.range' i k).foldl
          (fun l (j : Nat) => joined out l (toSizeT (toInt64 (index + j)) % size)) l) := by
  intro k
  induction k with
  | zero =>
      intro i s l hr
      exact ⟨s, rfl, hr⟩
  | succ k ih =>
      intro i s l hr
      have hne : (Place.other out : Place O) ≠ .slot (toSizeT (toInt64 (index + i)) % size) := by
        simp
      obtain ⟨s₁, hj, hr₁⟩ := hr.join hne
      obtain ⟨s₂, hrest, hr₂⟩ := ih (i + 1) hr₁
      refine ⟨s₂, ?_, ?_⟩
      · unfold joinSlotsIn slotIn
        rw [if_neg (Nat.ne_of_gt hsize)]
        simp only [hj]
        exact hrest
      · rw [List.range'_succ, List.foldl_cons]
        exact hr₂

omit [DecidableEq N] in
/-- Joining the slot `j` leaves the others alone. -/
theorem joined_slot_of_ne (out : O) (l : Place O → List N) {i j : Nat} (h : i ≠ j) :
    joined out l j (.slot i) = l (.slot i) := by
  simp [joined, h]

omit [DecidableEq N] in
/-- Exactly the slots that are joined are emptied. -/
theorem foldl_joined_slot (out : O) : ∀ (js : List Nat) (l : Place O → List N) (i : Nat),
    js.foldl (joined out) l (.slot i) = if i ∈ js then [] else l (.slot i) := by
  intro js
  induction js with
  | nil =>
      intro l i
      simp
  | cons j js ih =>
      intro l i
      rw [List.foldl_cons, ih]
      by_cases hi : i = j
      · simp [hi, joined]
      · simp [hi, joined_slot_of_ne out l hi]

omit [DecidableEq N] in
/-- The other lists are not touched. -/
theorem foldl_joined_other {out o : O} (ho : o ≠ out) : ∀ (js : List Nat) (l : Place O → List N),
    js.foldl (joined out) l (.other o) = l (.other o) := by
  intro js
  induction js with
  | nil =>
      intro l
      rfl
  | cons j js ih =>
      intro l
      rw [List.foldl_cons, ih]
      simp [joined, ho]

omit [DecidableEq N] in
/-- Slots that are all different are emptied, and their lists stand in `out` one after the
other. -/
theorem foldl_joined (out : O) : ∀ (js : List Nat) (l : Place O → List N), js.Nodup →
    (js.foldl (joined out) l (.other out) = l (.other out) ++ js.flatMap fun j => l (.slot j)) ∧
    (∀ j, js.foldl (joined out) l (.slot j) = if j ∈ js then [] else l (.slot j)) ∧
    (∀ o, o ≠ out → js.foldl (joined out) l (.other o) = l (.other o)) := by
  intro js l hnd
  refine ⟨?_, foldl_joined_slot out js l, fun o ho => foldl_joined_other ho js l⟩
  induction js generalizing l with
  | nil => simp
  | cons j js ih =>
      have hj : j ∉ js := (List.nodup_cons.mp hnd).1
      rw [List.foldl_cons, ih (joined out l j) (List.nodup_cons.mp hnd).2, List.flatMap_cons,
        ← List.append_assoc]
      have hflat : js.flatMap (fun i => joined out l j (.slot i)) =
          js.flatMap fun i => l (.slot i) := by
        apply List.flatMap_congr
        intro i hi
        exact joined_slot_of_ne out l fun heq => hj (heq ▸ hi)
      rw [hflat]
      simp [joined]

omit [DecidableEq N] in
/-- Without any condition on the slots: nodes only move, from slots to the end of `out`. -/
theorem foldl_joined_moves (out : O) : ∀ (js : List Nat) (l : Place O → List N),
    (∃ moved, js.foldl (joined out) l (.other out) = l (.other out) ++ moved ∧
      ∀ n ∈ moved, ∃ j, n ∈ l (.slot j)) ∧
    (∀ j, js.foldl (joined out) l (.slot j) = [] ∨
      js.foldl (joined out) l (.slot j) = l (.slot j)) ∧
    (∀ o, o ≠ out → js.foldl (joined out) l (.other o) = l (.other o)) := by
  intro js l
  refine ⟨?_, ?_, fun o ho => foldl_joined_other ho js l⟩
  · induction js generalizing l with
    | nil => exact ⟨[], by simp, by simp⟩
    | cons j js ih =>
        obtain ⟨moved, hout, hmoved⟩ := ih (joined out l j)
        refine ⟨l (.slot j) ++ moved, ?_, ?_⟩
        · rw [List.foldl_cons, hout]
          simp [joined]
        · intro n hn
          cases List.mem_append.mp hn with
          | inl hin => exact ⟨j, hin⟩
          | inr hin =>
              obtain ⟨i, hi⟩ := hmoved n hin
              by_cases hij : i = j
              · rw [hij] at hi
                simp [joined] at hi
              · rw [joined_slot_of_ne out l hij] at hi
                exact ⟨i, hi⟩
  · intro i
    rw [foldl_joined_slot]
    by_cases hi : i ∈ js
    · exact Or.inl (if_pos hi)
    · exact Or.inr (if_neg hi)

theorem TimeWheel.begin_start (w : TimeWheel) (now : Nat) :
    (w.begin now).Start = if w.Start = 0 then now else w.Start := by
  unfold TimeWheel.begin
  by_cases h : w.Start = 0
  · rw [if_pos h, if_pos h]
  · rw [if_neg h, if_neg h]

/-- The checks of `AddTimeOut`, for a deadline `e`. -/
def TimeWheel.Accepts (w : TimeWheel) (now e : Nat) : Prop :=
  (w.begin now).Start ≤ now ∧ now ≤ e ∧
    toInt64 (e - (w.begin now).Start : Int) < defaultSize

/-- The slot `AddTimeOut` chooses for a deadline `e`. -/
def TimeWheel.deadlineSlot (w : TimeWheel) (now e : Nat) : Nat :=
  slotOf ((w.begin now).Index + toInt64 (e - (w.begin now).Start : Int))

/-- **`AddTimeOut`** turns the item down and leaves the lists alone, or divides by zero, or appends the
item to a slot. -/
theorem addTimeOutIn_cases (size : Nat) (w : TimeWheel) (s : Links N (Place O)) (item : N)
    (e now : Nat) :
    (¬ w.Accepts now e ∧ ∃ ret, ret ≠ 0 ∧
      addTimeOutIn size w s item e now = some (ret, w.begin now, s)) ∨
    (w.Accepts now e ∧ addTimeOutIn size w s item e now =
      (slotIn size ((w.begin now).Index + toInt64 (e - (w.begin now).Start : Int))).map fun i =>
        (0, w.begin now, addTail s (.slot i) item)) := by
  unfold addTimeOutIn TimeWheel.Accepts
  dsimp only
  by_cases hlow : now < (w.begin now).Start
  · rw [if_pos hlow]
    exact Or.inl ⟨fun h => Nat.not_lt.mpr h.1 hlow, 275, by decide, rfl⟩
  rw [if_neg hlow]
  by_cases hearly : e < now
  · rw [if_pos hearly]
    exact Or.inl ⟨fun h => Nat.not_lt.mpr h.2.1 hearly, 281, by decide, rfl⟩
  rw [if_neg hearly]
  by_cases hbig : (defaultSize : Int) ≤ toInt64 (e - (w.begin now).Start : Int)
  · rw [if_pos hbig]
    exact Or.inl ⟨fun h => Int.not_le.mpr h.2.2 hbig, 287, by decide, rfl⟩
  · rw [if_neg hbig]
    refine Or.inr ⟨⟨Nat.not_lt.mp hlow, Nat.not_lt.mp hearly, Int.not_le.mp hbig⟩, ?_⟩
    cases slotIn size ((w.begin now).Index + toInt64 (e - (w.begin now).Start : Int)) <;> rfl

/-- On the default wheel, the slot is that of the deadline. -/
theorem addTimeOut_cases (w : TimeWheel) (s : Links N (Place O)) (item : N) (e now : Nat) :
    (¬ w.Accepts now e ∧ ∃ ret, ret ≠ 0 ∧ addTimeOut w s item e now = (ret, w.begin now, s)) ∨
    (w.Accepts now e ∧ addTimeOut w s item e now =
      (0, w.begin now, addTail s (.slot (w.deadlineSlot now e)) item)) := by
  have hdefault := addTimeOutIn_default w s item e now
  cases addTimeOutIn_cases defaultSize w s item e now with
  | inl hrefused =>
      obtain ⟨hnot, ret, hret, heq⟩ := hrefused
      exact Or.inl ⟨hnot, ret, hret, Option.some.inj (hdefault.symm.trans heq)⟩
  | inr haccepted =>
      obtain ⟨hacc, heq⟩ := haccepted
      rw [slotIn_default, Option.map_some] at heq
      exact Or.inr ⟨hacc, Option.some.inj (hdefault.symm.trans heq)⟩

/-- **`TakeOutTimeout`** drains its slots from `Index` on. -/
theorem takeOutTimeoutIn_spec (hr : Repr s l) {size : Nat} (w : TimeWheel) (now : Nat) (out : O) :
    (w.begin now).drained size now ≤ size →
    ∃ s', takeOutTimeoutIn size w s now out =
        some (if (w.begin now).drained size now = 0 then w.begin now
          else ⟨now, toInt64 ((w.begin now).Index +
            (((w.begin now).drained size now : Int) - 1))⟩, s') ∧
      Repr s' (((List.range ((w.begin now).drained size now)).map fun j =>
        toSizeT (toInt64 ((w.begin now).Index + (j : Nat))) % size).foldl (joined out) l) := by
  rw [takeOutTimeoutIn_eq]
  generalize (w.begin now).drained size now = n
  intro hle
  by_cases h0 : n = 0
  · rw [if_pos h0, if_pos h0, h0]
    exact ⟨s, rfl, hr⟩
  · have hsize : 0 < size := by omega
    obtain ⟨s', hjoin, hr'⟩ := joinSlotsIn_spec hsize (w.begin now).Index out n 0 hr
    rw [if_neg h0, if_neg h0, hjoin]
    refine ⟨s', rfl, ?_⟩
    rw [List.foldl_map, List.range_eq_range']
    exact hr'

/-- The same for the default wheel.  As long as the difference fits an `int`, the number of slots is
exactly the smaller of the time passed and the size of the ring. -/
theorem takeOutTimeout_spec (hr : Repr s l) (w : TimeWheel) (now : Nat) (out : O) :
    ∃ (s' : Links N (Place O)) (n : Nat), takeOutTimeout w s now out =
        some (if n = 0 then w.begin now
          else ⟨now, toInt64 ((w.begin now).Index + ((n : Int) - 1))⟩, s') ∧
      Repr s' (((List.range n).map fun j => slotOf ((w.begin now).Index + (j : Nat))).foldl
        (joined out) l) ∧
      n ≤ defaultSize ∧ (now < (w.begin now).Start → n = 0) ∧
      ((w.begin now).Start ≤ now → n ≤ now - (w.begin now).Start + 1) ∧
      ((w.begin now).Start ≤ now → now + 1 < (w.begin now).Start + 2 ^ 31 →
        n = min (now - (w.begin now).Start + 1) defaultSize) := by
  have hsize : defaultSize < 2 ^ 31 := by decide
  have heq (h : (w.begin now).Start ≤ now) := (w.begin now).drained_eq hsize h
  have hlate (h : now < (w.begin now).Start) := (w.begin now).drained_of_lt defaultSize h
  have hle : (w.begin now).drained defaultSize now ≤ defaultSize := by
    rcases Nat.lt_or_ge now (w.begin now).Start with hearly | hpast
    · rw [hlate hearly]
      exact Nat.zero_le _
    · rw [heq hpast]
      exact Nat.min_le_right _ _
  obtain ⟨s', htake, hr'⟩ := takeOutTimeoutIn_spec hr w now out hle
  rw [takeOutTimeoutIn_default] at htake
  refine ⟨s', _, htake, hr', hle, hlate, fun hpast => ?_, fun hpast hnear => ?_⟩
  · rw [heq hpast]
    have := Nat.mod_le (now - (w.begin now).Start + 1) (2 ^ 32)
    omega
  · rw [heq hpast, Nat.mod_eq_of_lt (by omega)]

/-! ## §5. The ring, seen from `Index`. -/

/-- The slot at distance `k` from the wheel's `Index`. -/
def TimeWheel.ahead (w : TimeWheel) (k : Nat) : Nat := (toSizeT w.Index + k) % defaultSize

/-- Two times within one turn have two slots. -/
theorem TimeWheel.ahead_inj {i j : Nat} (hi : i < defaultSize) (hj : j < defaultSize)
    (h : w.ahead i = w.ahead j) : i = j := by
  unfold TimeWheel.ahead defaultSize at *
  omega

theorem TimeWheel.slotOf_ahead {k : Nat} (h : toSizeT w.Index + k < 2 ^ 64) :
    slotOf (w.Index + k) = w.ahead k := by
  unfold slotOf TimeWheel.ahead
  rw [toSizeT_toInt64, toSizeT_add w.Index h]

omit [DecidableEq N] in
/-- **Draining `n` slots** and moving on: `out` gets them in turn, and what is `k` ahead afterwards
was `n - 1 + k` ahead before, as far as the ring goes. -/
theorem drain_slots (l : Place O → List N) {now n : Nat} (out : O)
    (hsmall : toSizeT w.Index ≤ w.Start) (hlo : w.Start ≤ now) (hhi : now < 2 ^ 64) (hpos : 0 < n)
    (hle : n ≤ defaultSize) (hpast : n ≤ now - w.Start + 1) :
    toSizeT (toInt64 (w.Index + ((n : Int) - 1))) = toSizeT w.Index + (n - 1) ∧
    ((List.range n).map fun j => slotOf (w.Index + (j : Nat))).foldl (joined out) l (.other out) =
      l (.other out) ++ (List.range n).flatMap (fun j => l (.slot (w.ahead j))) ∧
    (∀ k < defaultSize,
      ((List.range n).map fun j => slotOf (w.Index + (j : Nat))).foldl (joined out) l
        (.slot (TimeWheel.ahead ⟨now, toInt64 (w.Index + ((n : Int) - 1))⟩ k)) =
      if 0 < k ∧ n - 1 + k < defaultSize then l (.slot (w.ahead (n - 1 + k))) else []) ∧
    ∀ o, o ≠ out → ((List.range n).map fun j => slotOf (w.Index + (j : Nat))).foldl (joined out) l
      (.other o) = l (.other o) := by
  -- the loop visits the slots ahead, all different
  have hvisit : (List.range n).map (fun j => slotOf (w.Index + (j : Nat))) =
      (List.range n).map w.ahead := by
    apply List.map_congr_left
    intro j hj
    have hjn := List.mem_range.mp hj
    exact TimeWheel.slotOf_ahead (by omega)
  have hnodup : ((List.range n).map w.ahead).Nodup := by
    apply List.Nodup.map_on _ List.nodup_range
    intro i hi j hj heq
    have hin := List.mem_range.mp hi
    have hjn := List.mem_range.mp hj
    exact TimeWheel.ahead_inj (by omega) (by omega) heq
  have hindex : toSizeT (toInt64 (w.Index + ((n : Int) - 1))) = toSizeT w.Index + (n - 1) := by
    rw [toSizeT_toInt64]
    have hcast : w.Index + ((n : Int) - 1) = w.Index + ((n - 1 : Nat) : Int) := by omega
    rw [hcast, toSizeT_add w.Index (by omega)]
  rw [hvisit]
  obtain ⟨hout, hslot, hother⟩ := foldl_joined out _ l hnodup
  refine ⟨hindex, by rw [hout, List.flatMap_map], ?_, hother⟩
  intro k hk
  have hahead : TimeWheel.ahead ⟨now, toInt64 (w.Index + ((n : Int) - 1))⟩ k =
      w.ahead (n - 1 + k) := by
    unfold TimeWheel.ahead
    dsimp only
    rw [hindex, Nat.add_assoc]
  rw [hahead, hslot]
  by_cases hfar : 0 < k ∧ n - 1 + k < defaultSize
  · have hnot : w.ahead (n - 1 + k) ∉ (List.range n).map w.ahead := by
      intro hin
      obtain ⟨j, hj, heq⟩ := List.mem_map.mp hin
      have hjn := List.mem_range.mp hj
      have := TimeWheel.ahead_inj (w := w) (by omega) hfar.2 heq
      omega
    rw [if_neg hnot, if_pos hfar]
  · rw [if_neg hfar]
    have hin : w.ahead (n - 1 + k) ∈ (List.range n).map w.ahead := by
      by_cases hk0 : k = 0
      · exact List.mem_map.mpr ⟨n - 1, List.mem_range.mpr (by omega), by rw [hk0, Nat.add_zero]⟩
      · -- once around the ring
        refine List.mem_map.mpr ⟨n - 1 + k - defaultSize, List.mem_range.mpr (by omega), ?_⟩
        unfold TimeWheel.ahead defaultSize at *
        omega
    rw [if_pos hin]

end RocketCo.CoRoutine
