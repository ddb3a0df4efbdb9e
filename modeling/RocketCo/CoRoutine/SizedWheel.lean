/-
  RocketCo.CoRoutine.SizedWheel — wheels made by `TimeWheel(int Length)`.

  `AddTimeOut` turns down what is `DefaultSize` or more away from `Start`, and takes the slot modulo
  `Wheel.size()`.  On a shorter ring a deadline further away than one revolution lands in a near slot
  and is taken out with it; on a ring without slots the modulus is zero.  The other way round nothing
  goes wrong: `TakeOutTimeout` never drains more slots than milliseconds have passed, whatever its
  narrowing to `int` does.

    • `Timely` — the deadline of an item is not behind the first clock reading that drains its slot,
    • `sized_wheel_iff` — as long as insertions keep to that, nothing is taken out early, and the first
      one that does not is followed by a call that takes it out early.
-/
import Mathlib.Data.Nat.ModEq
import RocketCo.CoRoutine.Deadline

namespace RocketCo.CoRoutine

open RocketCo.Lib

variable {N O : Type*} [DecidableEq N] [DecidableEq O]

/-! ## §1. A wheel of any length in use. -/

/-- A wheel with its lists, the `ExpireTime` of every item, and the last clock reading. -/
structure SizedWheel (N O : Type*) where
  size : Nat
  wheel : TimeWheel
  links : Links N (Place O)
  expire : N → Nat
  now : Nat

namespace SizedWheel

/-- `TimeWheel(int Length)`, which makes the slots and leaves `Start` and `Index` as they are. -/
def ofLength (length : Int32) (storage : TimeWheel) : SizedWheel N O where
  size := (if length.toInt < 0 then 0 else length.toInt).toNat
  wheel := storage
  links := .empty
  expire := fun _ => 0
  now := 0

/-- `TimeWheel()`, in zero-initialised storage, as `new Co_Epoll()` makes it. -/
def default : SizedWheel N O := ⟨defaultSize, .default, .empty, fun _ => 0, 0⟩

/-- One call; `none` is a division by zero. -/
def step (s : SizedWheel N O) : WheelAction N O → Option (SizedWheel N O)
  | .addTimeOut item expireTime now =>
      (addTimeOutIn s.size s.wheel s.links item expireTime now).map fun r =>
        { s with
          wheel := r.2.1, links := r.2.2, now
          expire := Function.update s.expire item expireTime }
  | .removeFromWheel item =>
      (removeFromWheel s.links item).map fun links => { s with links }
  | .takeOutTimeout now out =>
      (takeOutTimeoutIn s.size s.wheel s.links now out).map fun r =>
        { s with wheel := r.1, links := r.2, now }

theorem step_of_addTimeOut {s : SizedWheel N O} {item : N} {e now : Nat}
    {r : Nat × TimeWheel × Links N (Place O)}
    (h : addTimeOutIn s.size s.wheel s.links item e now = some r) :
    s.step (.addTimeOut item e now) = some { s with
      wheel := r.2.1, links := r.2.2, now, expire := Function.update s.expire item e } := by
  simp only [step, h, Option.map_some]

theorem step_of_takeOutTimeout {s : SizedWheel N O} {now : Nat} {out : O}
    {r : TimeWheel × Links N (Place O)}
    (h : takeOutTimeoutIn s.size s.wheel s.links now out = some r) :
    s.step (.takeOutTimeout now out) = some { s with wheel := r.1, links := r.2, now } := by
  simp only [step, h, Option.map_some]

/-- Times are `uint64_t`, and nobody changes the `ExpireTime` of an item that is on a list: between two calls
no one writes to it, and an item that is linked is inserted again with the deadline it has. -/
def Call (s : SizedWheel N O) : WheelAction N O → Prop
  | .addTimeOut item expireTime now =>
      (s.links.link item = none ∨ expireTime = s.expire item) ∧ now < 2 ^ 64 ∧ expireTime < 2 ^ 64
  | .removeFromWheel _ => True
  | .takeOutTimeout now _ => now < 2 ^ 64

/-- The clock is positive and never goes back. -/
def Clocked (s : SizedWheel N O) : WheelAction N O → Prop
  | .addTimeOut _ _ now | .takeOutTimeout now _ => 0 < now ∧ s.now ≤ now
  | .removeFromWheel _ => True

instance (s : SizedWheel N O) (a : WheelAction N O) : Decidable (s.Call a) :=
  match a with
  | .addTimeOut _ _ _ => inferInstanceAs (Decidable (_ ∧ _))
  | .removeFromWheel _ => inferInstanceAs (Decidable True)
  | .takeOutTimeout _ _ => inferInstanceAs (Decidable (_ < _))

instance (s : SizedWheel N O) (a : WheelAction N O) : Decidable (s.Clocked a) :=
  match a with
  | .addTimeOut _ _ _ => inferInstanceAs (Decidable (_ ∧ _))
  | .removeFromWheel _ => inferInstanceAs (Decidable True)
  | .takeOutTimeout _ _ => inferInstanceAs (Decidable (_ ∧ _))

end SizedWheel

/-! ## §2. The ring, seen from `Index`. -/

/-- The slot at distance `k` from `Index`. -/
def TimeWheel.slotAhead (size : Nat) (w : TimeWheel) (k : Nat) : Nat := (toSizeT w.Index + k) % size

variable {w : TimeWheel} {size now k : Nat}

theorem TimeWheel.slotAhead_mod (w : TimeWheel) (size k : Nat) :
    w.slotAhead size (k % size) = w.slotAhead size k := by
  unfold TimeWheel.slotAhead
  exact Nat.add_mod_mod _ _ _

theorem TimeWheel.slotAhead_inj {i j : Nat} (hi : i < size) (hj : j < size)
    (h : w.slotAhead size i = w.slotAhead size j) : i = j := by
  have hmod : i ≡ j [MOD size] := Nat.ModEq.add_left_cancel' (toSizeT w.Index) h
  exact hmod.eq_of_lt_of_lt hi hj

/-- The slot of a deadline `e`: however far away, the unsigned sum does not wrap. -/
theorem TimeWheel.deadline_slotAhead {e : Nat} (hindex : toSizeT w.Index ≤ w.Start)
    (hle : w.Start ≤ e) (he : e < 2 ^ 64) :
    toSizeT (toInt64 (w.Index + toInt64 (e - w.Start : Int))) % size =
      w.slotAhead size (e - w.Start) := by
  have hsum : toSizeT (w.Index + toInt64 (e - w.Start : Int)) =
      toSizeT w.Index + (e - w.Start) := by
    unfold toSizeT toInt64 at *
    omega
  unfold TimeWheel.slotAhead
  rw [toSizeT_toInt64, hsum]

/-- The slot of a turn of the loop. -/
theorem TimeWheel.turn_slotAhead {j : Nat} (hindex : toSizeT w.Index ≤ w.Start)
    (hj : w.Start + j < 2 ^ 64) :
    toSizeT (toInt64 (w.Index + (j : Nat))) % size = w.slotAhead size j := by
  unfold TimeWheel.slotAhead
  rw [toSizeT_toInt64, toSizeT_add w.Index (by omega)]

/-- Moving on by `n - 1` slots. -/
theorem TimeWheel.slotAhead_moved {n : Nat} (hindex : toSizeT w.Index ≤ w.Start) (hpos : 0 < n)
    (hn : w.Start + n ≤ now + 1) (hlt : now < 2 ^ 64) :
    toSizeT (toInt64 (w.Index + ((n : Int) - 1))) = toSizeT w.Index + (n - 1) := by
  have hcast : w.Index + ((n : Int) - 1) = w.Index + ((n - 1 : Nat) : Int) := by omega
  rw [toSizeT_toInt64, hcast, toSizeT_add w.Index (by omega)]

/-- **One `TakeOutTimeout`** on any ring: the first `n` slots ahead are emptied, the others keep their
lists. -/
theorem takeOutTimeoutIn_slots {s : Links N (Place O)} {l : Place O → List N} (hr : Repr s l)
    (hsize : size < 2 ^ 31) (w : TimeWheel) (out : O) (hlt : now < 2 ^ 64)
    (hindex : toSizeT (w.begin now).Index ≤ (w.begin now).Start) {n : Nat}
    (hn : n = (w.begin now).drained size now) :
    ∃ s' l', takeOutTimeoutIn size w s now out =
        some (if n = 0 then w.begin now
          else ⟨now, toInt64 ((w.begin now).Index + ((n : Int) - 1))⟩, s') ∧ Repr s' l' ∧
      n ≤ size ∧ (0 < n → (w.begin now).Start + n ≤ now + 1) ∧
      ∀ i, l' (.slot i) =
        if ∃ j < n, (w.begin now).slotAhead size j = i then [] else l (.slot i) := by
  have hbounds : n ≤ size ∧ (0 < n → (w.begin now).Start + n ≤ now + 1) := by
    rw [hn]
    rcases Nat.lt_or_ge now (w.begin now).Start with hearly | hpast
    · rw [(w.begin now).drained_of_lt size hearly]
      omega
    · rw [(w.begin now).drained_eq hsize hpast]
      have := Nat.mod_le (now - (w.begin now).Start + 1) (2 ^ 32)
      omega
  obtain ⟨hle, hpast⟩ := hbounds
  rw [hn] at hle
  obtain ⟨s', htake, hr'⟩ := takeOutTimeoutIn_spec hr w now out hle
  rw [← hn] at htake hr' hle
  refine ⟨s', _, htake, hr', hle, hpast, ?_⟩
  intro i
  rw [foldl_joined_slot]
  have hvisit : (List.range n).map (fun j =>
      toSizeT (toInt64 ((w.begin now).Index + (j : Nat))) % size) =
      (List.range n).map ((w.begin now).slotAhead size) := by
    apply List.map_congr_left
    intro j hj
    have hjn := List.mem_range.mp hj
    have := hpast (by omega)
    exact TimeWheel.turn_slotAhead hindex (by omega)
  rw [hvisit]
  simp only [List.mem_map, List.mem_range]

/-! ## §3. When a slot is drained. -/

/-- The first clock reading from `now` on at which `TakeOutTimeout` gets to the slot at distance `k`. -/
def TimeWheel.reaches (w : TimeWheel) (now k : Nat) : Nat :=
  now + (k + 1 - (now - w.Start + 1) % 2 ^ 32)

/-- It does get there then ... -/
theorem TimeWheel.drained_reaches (hsize : size < 2 ^ 31) (hk : k < size) (h : w.Start ≤ now) :
    k < w.drained size (w.reaches now k) := by
  have hle : now ≤ w.reaches now k := Nat.le_add_right _ _
  rw [w.drained_eq hsize (Nat.le_trans h hle)]
  unfold TimeWheel.reaches
  omega

/-- ... and a reading that drains the slot is the first one. -/
theorem TimeWheel.reaches_of_drained (hsize : size < 2 ^ 31) (h : w.Start ≤ now)
    (hk : k < w.drained size now) : w.reaches now k = now := by
  rw [w.drained_eq hsize h] at hk
  unfold TimeWheel.reaches
  omega

/-- Waiting does not bring it forward. -/
theorem TimeWheel.reaches_mono {now' : Nat} (hk : k < 2 ^ 31) (h : w.Start ≤ now)
    (hle : now ≤ now') : w.reaches now k ≤ w.reaches now' k := by
  unfold TimeWheel.reaches
  omega

/-- Nor does a `TakeOutTimeout` that stops short of the slot. -/
theorem TimeWheel.reaches_moved (hsize : size < 2 ^ 31) (hk : k < size) (h : w.Start ≤ now)
    (hpos : 0 < w.drained size now) (hshort : w.drained size now ≤ k) (index : Int) :
    TimeWheel.reaches ⟨now, index⟩ now (k + 1 - w.drained size now) = w.reaches now k := by
  rw [w.drained_eq hsize h] at hpos hshort ⊢
  unfold TimeWheel.reaches
  dsimp only
  omega

/-- While the time passed fits 32 bits, only deadlines beyond the ring are reached early. -/
theorem TimeWheel.le_reaches_iff {e : Nat} (hsize : 0 < size) (h : w.Start ≤ now) (he : now ≤ e)
    (hnear : now - w.Start + 1 < 2 ^ 32) :
    e ≤ w.reaches now ((e - w.Start) % size) ↔ e - w.Start < size ∨ e ≤ now := by
  unfold TimeWheel.reaches
  rw [Nat.mod_eq_of_lt hnear]
  by_cases hring : e - w.Start < size
  · rw [Nat.mod_eq_of_lt hring]
    omega
  · have := Nat.mod_lt (e - w.Start) hsize
    omega

namespace SizedWheel

/-- **When an insertion is in order**: it is turned down, or there are slots, and the item is on a list
already or its slot is not reached before its deadline. -/
def Kept (s : SizedWheel N O) : WheelAction N O → Prop
  | .addTimeOut item e now =>
      s.wheel.Accepts now e → 0 < s.size ∧ (s.links.link item ≠ none ∨
        e ≤ (s.wheel.begin now).reaches now ((e - (s.wheel.begin now).Start) % s.size))
  | .removeFromWheel _ | .takeOutTimeout _ _ => True

instance (w : TimeWheel) (now e : Nat) : Decidable (w.Accepts now e) :=
  inferInstanceAs (Decidable (_ ∧ _))

instance (s : SizedWheel N O) (a : WheelAction N O) : Decidable (s.Kept a) :=
  match a with
  | .addTimeOut _ _ _ => inferInstanceAs (Decidable (_ → _))
  | .removeFromWheel _ => inferInstanceAs (Decidable True)
  | .takeOutTimeout _ _ => inferInstanceAs (Decidable True)

/-- A call that returns ... -/
def Step (s : SizedWheel N O) (a : WheelAction N O) (t : SizedWheel N O) : Prop :=
  s.Call a ∧ s.Clocked a ∧ s.step a = some t

/-- ... and, if it is an insertion, is in order. -/
def KeptStep (s : SizedWheel N O) (a : WheelAction N O) (t : SizedWheel N O) : Prop :=
  s.Step a t ∧ s.Kept a

/-- Between `s` and `t` the item `a` is taken out of its slot. -/
def Leaves (s t : SizedWheel N O) (a : N) : Prop :=
  ∃ i, s.links.link a = some (.slot i) ∧ t.links.link a ≠ some (.slot i)

/-- **What is asked of a call**: it divides by nothing that is zero, an item that is turned down stays
where it was, and what leaves the slots is due. -/
def Punctual (s : SizedWheel N O) : WheelAction N O → Prop
  | .addTimeOut item e now =>
      ∃ ret w links, addTimeOutIn s.size s.wheel s.links item e now = some (ret, w, links) ∧
        (ret ≠ 0 → links = s.links)
  | .removeFromWheel item => ∃ t, s.step (.removeFromWheel item) = some t
  | .takeOutTimeout now out =>
      ∃ t, s.step (.takeOutTimeout now out) = some t ∧ ∀ a, s.Leaves t a → s.expire a ≤ now

/-- **No item is behind its slot.** -/
structure Timely (s : SizedWheel N O) (l : Place O → List N) : Prop where
  repr : Repr s.links l
  size_lt : s.size < 2 ^ 31
  index_le : toSizeT s.wheel.Index ≤ s.wheel.Start
  fresh : s.wheel.Start = 0 → ∀ i, l (.slot i) = []
  due : ∀ i, ∀ a ∈ l (.slot i), s.wheel.Start ≤ s.now ∧ ∃ k < s.size,
    s.wheel.slotAhead s.size k = i ∧ s.expire a ≤ s.wheel.reaches s.now k

end SizedWheel

/-! ## §4. One call. -/

variable {s t : SizedWheel N O} {l : Place O → List N}

namespace SizedWheel

omit [DecidableEq N] [DecidableEq O] in
theorem Timely.init (length : Int32) {storage : TimeWheel}
    (hstorage : toSizeT storage.Index ≤ storage.Start) :
    Timely (ofLength length storage : SizedWheel N O) fun _ => [] := by
  have hint := length.toInt_lt
  refine ⟨Repr.empty, ?_, hstorage, fun _ _ => rfl, fun i a ha => ?_⟩
  · show (if length.toInt < 0 then 0 else length.toInt).toNat < 2 ^ 31
    split_ifs <;> omega
  · cases ha

omit [DecidableEq N] [DecidableEq O] in
/-- The wheel as a call finds it, the first use included. -/
theorem Timely.begin (h : Timely s l) (hpos : 0 < now) (hnow : s.now ≤ now) :
    (s.wheel.begin now).Start ≠ 0 ∧
      toSizeT (s.wheel.begin now).Index ≤ (s.wheel.begin now).Start ∧
      ∀ i, ∀ a ∈ l (.slot i), (s.wheel.begin now).Start ≤ now ∧ ∃ k < s.size,
        (s.wheel.begin now).slotAhead s.size k = i ∧
          s.expire a ≤ (s.wheel.begin now).reaches now k := by
  unfold TimeWheel.begin
  by_cases hs : s.wheel.Start = 0
  · rw [if_pos hs]
    have hzero : toSizeT 0 ≤ now := Nat.zero_le now
    refine ⟨Nat.ne_of_gt hpos, hzero, fun i a ha => ?_⟩
    rw [h.fresh hs i] at ha
    cases ha
  · rw [if_neg hs]
    refine ⟨hs, h.index_le, fun i a ha => ?_⟩
    obtain ⟨hle, k, hk, hslot, hdue⟩ := h.due i a ha
    have hsize := h.size_lt
    refine ⟨Nat.le_trans hle hnow, k, hk, hslot, Nat.le_trans hdue ?_⟩
    exact TimeWheel.reaches_mono (Nat.lt_trans hk hsize) hle hnow

omit [DecidableEq O] in
/-- The deadline an insertion sets is that of an item in no slot, or no news. -/
theorem expire_update (hr : Repr s.links l) {item a : N} {e i : Nat}
    (hcall : s.links.link item = none ∨ e = s.expire item) (ha : a ∈ l (.slot i)) :
    Function.update s.expire item e a = s.expire a := by
  cases hcall with
  | inl hnone =>
      have hne : a ≠ item := fun heq => hr.link_none.mp hnone _ (heq ▸ ha)
      exact Function.update_of_ne hne _ _
  | inr hsame => rw [hsame, Function.update_eq_self]

/-- **`AddTimeOut`** that is in order. -/
theorem Timely.addTimeOut (h : Timely s l) {item : N} {e : Nat}
    (hcall : s.Call (.addTimeOut item e now)) (hclock : s.Clocked (.addTimeOut item e now))
    (hkept : s.Kept (.addTimeOut item e now)) :
    s.Punctual (.addTimeOut item e now) ∧
      ∀ t, s.step (.addTimeOut item e now) = some t → ∃ l', Timely t l' := by
  obtain ⟨hset, hlt, he⟩ := hcall
  obtain ⟨hstart, hindex, hdue⟩ := h.begin hclock.1 hclock.2
  have hold : ∀ i, ∀ a ∈ l (.slot i), (s.wheel.begin now).Start ≤ now ∧ ∃ k < s.size,
      (s.wheel.begin now).slotAhead s.size k = i ∧
        Function.update s.expire item e a ≤ (s.wheel.begin now).reaches now k := by
    intro i a ha
    rw [expire_update h.repr hset ha]
    exact hdue i a ha
  cases addTimeOutIn_cases s.size s.wheel s.links item e now with
  | inl hrefused =>
      obtain ⟨-, ret, hret, heq⟩ := hrefused
      refine ⟨⟨ret, _, _, heq, fun _ => rfl⟩, fun t ht => ?_⟩
      rw [step_of_addTimeOut heq] at ht
      rw [← Option.some.inj ht]
      exact ⟨l, h.repr, h.size_lt, hindex, fun h0 => absurd h0 hstart, hold⟩
  | inr haccepted =>
      obtain ⟨hacc, heq⟩ := haccepted
      obtain ⟨hsize, hslot⟩ := hkept hacc
      have hle := Nat.le_trans hacc.1 hacc.2.1
      unfold slotIn at heq
      rw [if_neg (Nat.ne_of_gt hsize), TimeWheel.deadline_slotAhead hindex hle he,
        Option.map_some] at heq
      refine ⟨⟨0, _, _, heq, fun hne => absurd rfl hne⟩, fun t ht => ?_⟩
      rw [step_of_addTimeOut heq] at ht
      rw [← Option.some.inj ht]
      refine ⟨_, h.repr.appended _ item, h.size_lt, hindex, fun h0 => absurd h0 hstart, ?_⟩
      intro i a ha
      cases mem_appended.mp ha with
      | inl hin => exact hold i a hin
      | inr hnew =>
          -- the item itself, one or more revolutions away
          obtain ⟨ha, hi, hout⟩ := hnew
          have hnone : s.links.link item = none := h.repr.link_none.mpr hout
          refine ⟨hacc.1, _, Nat.mod_lt (e - (s.wheel.begin now).Start) hsize, ?_, ?_⟩
          · rw [TimeWheel.slotAhead_mod]
            exact (Place.slot.inj hi).symm
          · rw [ha]
            dsimp only
            rw [Function.update_self]
            exact hslot.resolve_left fun hne => hne hnone

/-- **`RemoveFromWheel`.** -/
theorem Timely.removeFromWheel (h : Timely s l) (item : N) :
    ∃ t, s.step (.removeFromWheel item) = some t ∧ ∃ l', Timely t l' := by
  obtain ⟨links, hrem, hr⟩ := h.repr.erased item
  refine ⟨{ s with links }, ?_, erased l item, hr, h.size_lt, h.index_le, ?_, ?_⟩
  · simp only [SizedWheel.step, hrem, Option.map_some]
  · exact fun h0 i => erased_nil (h.fresh h0 i) item
  · intro i a ha
    exact h.due i a (List.mem_of_mem_erase ha)

/-- **`TakeOutTimeout`** takes out what is due, and leaves nothing behind its slot. -/
theorem Timely.takeOutTimeout (h : Timely s l) {out : O}
    (hcall : s.Call (.takeOutTimeout now out)) (hclock : s.Clocked (.takeOutTimeout now out)) :
    ∃ t, s.step (.takeOutTimeout now out) = some t ∧ (∃ l', Timely t l') ∧
      ∀ a, s.Leaves t a → s.expire a ≤ now := by
  obtain ⟨hstart, hindex, hdue⟩ := h.begin hclock.1 hclock.2
  have hsize := h.size_lt
  obtain ⟨links, l', htake, hr, hn, hpast, hslots⟩ :=
    takeOutTimeoutIn_slots h.repr hsize s.wheel out hcall hindex rfl
  refine ⟨_, step_of_takeOutTimeout htake, ⟨l', hr, hsize, ?_, ?_, ?_⟩, ?_⟩
  · dsimp only
    split_ifs with h0
    · exact hindex
    · have hpos := Nat.pos_of_ne_zero h0
      have hwent := hpast hpos
      dsimp only
      rw [TimeWheel.slotAhead_moved hindex hpos hwent hcall]
      omega
  · intro hzero
    dsimp only at hzero
    split_ifs at hzero with h0
    · exact absurd hzero hstart
    · exact absurd hzero (Nat.ne_of_gt hclock.1)
  · intro i a ha
    rw [hslots i] at ha
    split_ifs at ha with hdrained
    · cases ha
    · -- a slot that was not reached
      obtain ⟨hle, k, hk, hslot, hexp⟩ := hdue i a ha
      have hshort : (s.wheel.begin now).drained s.size now ≤ k :=
        Nat.not_lt.mp fun hlt => hdrained ⟨k, hlt, hslot⟩
      dsimp only
      split_ifs with h0
      · exact ⟨hle, k, hk, hslot, hexp⟩
      · have hpos := Nat.pos_of_ne_zero h0
        refine ⟨Nat.le_refl now, k + 1 - (s.wheel.begin now).drained s.size now, by omega, ?_, ?_⟩
        · unfold TimeWheel.slotAhead at hslot ⊢
          dsimp only
          rw [TimeWheel.slotAhead_moved hindex hpos (hpast hpos) hcall, ← hslot]
          congr 1
          omega
        · rw [TimeWheel.reaches_moved hsize hk hle hpos hshort]
          exact hexp
  · -- what left its slot was in a drained one
    rintro a ⟨i, hin, hout⟩
    have ha := (h.repr.link a _).mp hin
    obtain ⟨hle, k, hk, hslot, hexp⟩ := hdue i a ha
    have hgone : a ∉ l' (.slot i) := fun hstays => hout ((hr.link a _).mpr hstays)
    rw [hslots i] at hgone
    split_ifs at hgone with hdrained
    · obtain ⟨j, hj, hji⟩ := hdrained
      have hjk : j = k :=
        TimeWheel.slotAhead_inj (Nat.lt_of_lt_of_le hj hn) hk (hji.trans hslot.symm)
      rw [hjk] at hj
      rw [TimeWheel.reaches_of_drained hsize hle hj] at hexp
      exact hexp
    · exact absurd ha hgone

/-- Whatever is in a slot that is drained leaves it. -/
theorem leaves_of_drained (hr : Repr s.links l) (hsize : s.size < 2 ^ 31) (out : O)
    (hlt : now < 2 ^ 64) (hw : s.wheel.begin now = w) (hindex : toSizeT w.Index ≤ w.Start)
    {a : N} (hk : k < w.drained s.size now)
    (hin : s.links.link a = some (.slot (w.slotAhead s.size k))) :
    ∃ u, s.step (.takeOutTimeout now out) = some u ∧ s.Leaves u a := by
  subst hw
  obtain ⟨links, l', htake, hr', -, -, hslots⟩ :=
    takeOutTimeoutIn_slots hr hsize s.wheel out hlt hindex rfl
  refine ⟨_, step_of_takeOutTimeout htake, _, hin, fun hstays => ?_⟩
  have ha := (hr'.link a _).mp hstays
  rw [hslots, if_pos ⟨k, hk, rfl⟩] at ha
  cases ha

/-- **An insertion that is not in order** divides by zero, or the item can be taken out early. -/
theorem Timely.early (h : Timely s l) {item : N} {e : Nat} (out : O)
    (hcall : s.Call (.addTimeOut item e now)) (hclock : s.Clocked (.addTimeOut item e now))
    (hnot : ¬ s.Kept (.addTimeOut item e now)) :
    s.step (.addTimeOut item e now) = none ∨
      ∃ t u now', s.step (.addTimeOut item e now) = some t ∧ now ≤ now' ∧ now' < e ∧
        t.step (.takeOutTimeout now' out) = some u ∧ t.Leaves u item := by
  obtain ⟨hset, hlt, he⟩ := hcall
  obtain ⟨hstart, hindex, -⟩ := h.begin hclock.1 hclock.2
  obtain ⟨hacc, hbad⟩ := Classical.not_imp.mp hnot
  have heq := (addTimeOutIn_cases s.size s.wheel s.links item e now).resolve_left
    fun hrefused => hrefused.1 hacc
  have hadd := heq.2
  unfold slotIn at hadd
  by_cases hzero : s.size = 0
  · rw [if_pos hzero, Option.map_none] at hadd
    exact Or.inl (by simp only [SizedWheel.step, hadd, Option.map_none])
  · -- the slot is reached at a reading before the deadline
    have hsize := Nat.pos_of_ne_zero hzero
    rw [if_neg hzero, TimeWheel.deadline_slotAhead hindex (Nat.le_trans hacc.1 hacc.2.1) he,
      ← TimeWheel.slotAhead_mod, Option.map_some] at hadd
    have hk := Nat.mod_lt (e - (s.wheel.begin now).Start) hsize
    have hpair : s.links.link item = none ∧ (s.wheel.begin now).reaches now
        ((e - (s.wheel.begin now).Start) % s.size) < e := by
      constructor
      · by_contra hlinked
        exact hbad ⟨hsize, Or.inl hlinked⟩
      · exact Nat.lt_of_not_le fun hle => hbad ⟨hsize, Or.inr hle⟩
    obtain ⟨hnone, hearly⟩ := hpair
    generalize (e - (s.wheel.begin now).Start) % s.size = k at hadd hk hearly
    have hr := h.repr.addTail (.slot ((s.wheel.begin now).slotAhead s.size k)) hnone
    have hin : (addTail s.links (.slot ((s.wheel.begin now).slotAhead s.size k)) item).link item =
        some (.slot ((s.wheel.begin now).slotAhead s.size k)) := by
      apply (hr.link item _).mpr
      rw [Function.update_self]
      exact List.mem_append_right _ (List.mem_singleton_self item)
    have hsame : (s.wheel.begin now).begin ((s.wheel.begin now).reaches now k) =
        s.wheel.begin now := if_neg hstart
    have hdrained := TimeWheel.drained_reaches h.size_lt hk hacc.1
    let t : SizedWheel N O :=
      { s with
        wheel := s.wheel.begin now
        links := addTail s.links (.slot ((s.wheel.begin now).slotAhead s.size k)) item
        now, expire := Function.update s.expire item e }
    obtain ⟨u, hu, hleaves⟩ := leaves_of_drained (s := t) hr h.size_lt out
      (Nat.lt_trans hearly he) hsame hindex hdrained hin
    exact Or.inr ⟨t, u, _, step_of_addTimeOut hadd, Nat.le_add_right now _, hearly, hu, hleaves⟩

/-! ## §5. Every run. -/

theorem Timely.step {a : WheelAction N O} (h : ∃ l, Timely s l) (hstep : s.KeptStep a t) :
    ∃ l, Timely t l := by
  obtain ⟨l, h⟩ := h
  obtain ⟨⟨hcall, hclock, ht⟩, hkept⟩ := hstep
  cases a with
  | addTimeOut item e now => exact (h.addTimeOut hcall hclock hkept).2 t ht
  | removeFromWheel item =>
      obtain ⟨t', ht', hinv⟩ := h.removeFromWheel item
      rw [ht'] at ht
      rw [← Option.some.inj ht]
      exact hinv
  | takeOutTimeout now out =>
      obtain ⟨t', ht', hinv, -⟩ := h.takeOutTimeout hcall hclock
      rw [ht'] at ht
      rw [← Option.some.inj ht]
      exact hinv

end SizedWheel

/-- **Wheels of any length.**  Whatever `Length` is, and whatever the storage held as long as `Index` is
not ahead of `Start`: in a run whose insertions are in order no call divides by zero, an item that is
turned down stays where it was, and nothing leaves its slot before its deadline.  The first insertion that
is not in order does divide by zero, or some `TakeOutTimeout` behind it takes the item out early. -/
theorem sized_wheel_iff {length : Int32} {storage : TimeWheel}
    (hstorage : toSizeT storage.Index ≤ storage.Start) {as : List (WheelAction N O)}
    {s : SizedWheel N O} (hrun : Run SizedWheel.KeptStep (.ofLength length storage) as s) :
    (∀ a, s.Call a → s.Clocked a → s.Kept a → s.Punctual a) ∧
    ∀ item e now (out : O), s.Call (.addTimeOut item e now) → s.Clocked (.addTimeOut item e now) →
      ¬ s.Kept (.addTimeOut item e now) →
      s.step (.addTimeOut item e now) = none ∨
        ∃ t u now', s.step (.addTimeOut item e now) = some t ∧ now ≤ now' ∧ now' < e ∧
          t.step (.takeOutTimeout now' out) = some u ∧ t.Leaves u item := by
  have hinit : ∃ l, SizedWheel.Timely (.ofLength length storage : SizedWheel N O) l :=
    ⟨_, .init length hstorage⟩
  obtain ⟨l, hinv⟩ := hrun.invariant (fun _ _ _ h ha => SizedWheel.Timely.step h ha) hinit
  refine ⟨fun a hcall hclock hkept => ?_, fun item e now out hcall hclock hnot =>
    hinv.early out hcall hclock hnot⟩
  cases a with
  | addTimeOut item e now => exact (hinv.addTimeOut hcall hclock hkept).1
  | removeFromWheel item =>
      obtain ⟨t, ht, -⟩ := hinv.removeFromWheel item
      exact ⟨t, ht⟩
  | takeOutTimeout now out =>
      obtain ⟨t, ht, -, hdue⟩ := hinv.takeOutTimeout hcall hclock
      exact ⟨t, ht, hdue⟩

theorem SizedWheel.Step.of_check {s t : SizedWheel N O} {a : WheelAction N O}
    (hok : decide (s.Call a ∧ s.Clocked a) = true) (hstep : s.step a = some t) : s.Step a t := by
  obtain ⟨hcall, hclock⟩ := of_decide_eq_true hok
  exact ⟨hcall, hclock, hstep⟩

/-- A ring of five slots, and deadlines within it. -/
theorem sized_wheel_five : ∃ s t : SizedWheel Nat Unit,
    Run SizedWheel.KeptStep (.ofLength 5 .default) [.addTimeOut 1 104 100, .addTimeOut 2 102 101] s ∧
      s.step (.takeOutTimeout 103 ()) = some t ∧ ∀ a, s.Leaves t a → s.expire a ≤ 103 := by
  have hcheck : checkRun SizedWheel.step (fun s a => decide ((s.Call a ∧ s.Clocked a) ∧ s.Kept a))
      (.ofLength 5 .default : SizedWheel Nat Unit) [.addTimeOut 1 104 100, .addTimeOut 2 102 101]
      (fun s => decide (s.now ≤ 103)) = true := by
    decide +kernel
  have hof : ∀ (s : SizedWheel Nat Unit) a t,
      decide ((s.Call a ∧ s.Clocked a) ∧ s.Kept a) = true → s.step a = some t →
      s.KeptStep a t := by
    intro s a t hok hstep
    obtain ⟨hcalls, hkept⟩ := of_decide_eq_true hok
    exact ⟨.of_check (decide_eq_true hcalls) hstep, hkept⟩
  obtain ⟨s, hrun, hs⟩ := Run.of_check hof hcheck
  have hstorage : toSizeT TimeWheel.default.Index ≤ TimeWheel.default.Start := by decide
  obtain ⟨hpunctual, -⟩ := sized_wheel_iff hstorage hrun
  have hcall : s.Call (.takeOutTimeout 103 ()) := show 103 < 2 ^ 64 by decide
  obtain ⟨t, ht, hdue⟩ := hpunctual _ hcall ⟨by decide, of_decide_eq_true hs⟩ trivial
  exact ⟨s, t, hrun, ht, hdue⟩

/-- On the same ring a deadline one revolution away is taken out at once; on a ring without slots the
insertion divides by zero. -/
theorem not_sized_wheel :
    (∃ s t : SizedWheel Nat Unit,
      Run SizedWheel.Step (.ofLength 5 .default) [.addTimeOut 1 105 100] s ∧
        s.Step (.takeOutTimeout 100 ()) t ∧ s.Leaves t 1 ∧ s.expire 1 = 105) ∧
    (SizedWheel.ofLength 0 .default : SizedWheel Nat Unit).step (.addTimeOut 1 105 100) = none := by
  constructor
  · have hcheck : checkRun SizedWheel.step (fun s a => decide (s.Call a ∧ s.Clocked a))
        (.ofLength 5 .default : SizedWheel Nat Unit) [.addTimeOut 1 105 100]
        (fun s => checkRun SizedWheel.step (fun s a => decide (s.Call a ∧ s.Clocked a)) s
          [.takeOutTimeout 100 ()] fun t => decide (s.links.link 1 = some (.slot 0) ∧
            t.links.link 1 = some (.other ()) ∧ s.expire 1 = 105)) = true := by
      decide +kernel
    have hof : ∀ (s : SizedWheel Nat Unit) a t, decide (s.Call a ∧ s.Clocked a) = true →
        s.step a = some t → s.Step a t := fun _ _ _ => .of_check
    obtain ⟨s, hrun, hs⟩ := Run.of_check hof hcheck
    obtain ⟨t, htake, ht⟩ := Run.of_check hof hs
    obtain ⟨hin, hout, hexp⟩ := of_decide_eq_true ht
    refine ⟨s, t, hrun, htake.single, ⟨0, hin, ?_⟩, hexp⟩
    rw [hout]
    exact fun heq => by cases heq
  · decide +kernel

end RocketCo.CoRoutine
