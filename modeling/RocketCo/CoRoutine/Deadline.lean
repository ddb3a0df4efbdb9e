/-
  RocketCo.CoRoutine.Deadline — the wheel keeps its deadlines.

  A wheel in use: items are added, taken off and taken out when they are due.  The abstract content
  of the wheel is a plain list, `pending`: the accepted items in order of insertion, less those
  removed and those that were due at a take-out.  The invariant `Slots` ties the ring to it:

      the slot `Index + k` holds the pending items of deadline `Start + k`   (k < size)

  Main result: `takeOutTimeout_due`, what a take-out appends is the stable sort of what is due.
-/
import RocketCo.CoRoutine.TimeWheel
import RocketCo.Lib.Buckets
import RocketCo.Lib.Run

namespace RocketCo.CoRoutine

open RocketCo.Lib

variable {N O : Type*} [DecidableEq N] [DecidableEq O]

/-! ## §1. A wheel in use. -/

/-- A wheel with its lists and the `ExpireTime` of every item.  `now` is the last clock reading
and `pending` the abstract content. -/
structure WheelState (N O : Type*) where
  wheel : TimeWheel
  links : Links N (Place O)
  expire : N → Nat
  now : Nat
  pending : List N

/-- A default-constructed wheel in zeroed storage, as `new Co_Epoll()` makes it, and nothing else. -/
def WheelState.init : WheelState N O := ⟨.default, .empty, fun _ => 0, 0, []⟩

inductive WheelAction (N O : Type*) where
  /-- `AddTimeOut`, after the caller has set the item's `ExpireTime`. -/
  | addTimeOut (item : N) (expireTime now : Nat)
  | removeFromWheel (item : N)
  | takeOutTimeout (now : Nat) (out : O)

namespace WheelState

/-- What is due at `now`, by deadline and, for equal deadlines, by insertion. -/
def due (s : WheelState N O) (now : Nat) : List N :=
  sortByKey s.expire (s.pending.filter fun a => s.expire a ≤ now)

/-- One call.  The code's fields are computed by the code; `pending` follows from what was asked
for: an accepted item is pending until it is removed or due at a take-out. -/
def step (s : WheelState N O) : WheelAction N O → Option (WheelState N O)
  | .addTimeOut item expireTime now =>
      let r := addTimeOut s.wheel s.links item expireTime now
      some
        { wheel := r.2.1, links := r.2.2, now
          expire := Function.update s.expire item expireTime
          pending := if r.1 = 0 then s.pending ++ [item] else s.pending }
  | .removeFromWheel item =>
      (removeFromWheel s.links item).map fun links =>
        { s with links, pending := s.pending.erase item }
  | .takeOutTimeout now out =>
      (takeOutTimeout s.wheel s.links now out).map fun r =>
        { s with
          wheel := r.1, links := r.2, now
          pending := s.pending.filter fun a => now < s.expire a }

/-- What the callers keep to: unlinked items, a positive clock that never goes back, deadlines
`Now + timeout` with an `int` timeout, and take-outs less than `2 ^ 31 - 1` ms apart. -/
def Allowed (s : WheelState N O) : WheelAction N O → Prop
  | .addTimeOut item expireTime now =>
      s.links.link item = none ∧ 0 < now ∧ s.now ≤ now ∧ now < 2 ^ 64 ∧ expireTime < 2 ^ 64 ∧
        expireTime ≤ now + int32Max
  | .removeFromWheel _ => True
  | .takeOutTimeout now _ =>
      0 < now ∧ s.now ≤ now ∧ now < 2 ^ 64 ∧
        (s.wheel.Start ≠ 0 → now < s.wheel.Start + int32Max)

instance (s : WheelState N O) (a : WheelAction N O) : Decidable (s.Allowed a) :=
  match a with
  | .addTimeOut _ _ _ => inferInstanceAs (Decidable (_ ∧ _))
  | .removeFromWheel _ => inferInstanceAs (Decidable True)
  | .takeOutTimeout _ _ => inferInstanceAs (Decidable (_ ∧ _))

/-- An allowed call that returns. -/
def Step (s : WheelState N O) (a : WheelAction N O) (t : WheelState N O) : Prop :=
  s.Allowed a ∧ s.step a = some t

end WheelState

/-! ## §2. Slots and deadlines. -/

variable {w : TimeWheel} {l : Place O → List N} {expire : N → Nat} {pending : List N}

/-- **The wheel is tied to its deadlines**: the slot `k` ahead holds the pending items that expire
at `Start + k`, in order of insertion, and nothing expires beyond the ring. -/
structure Slots (w : TimeWheel) (l : Place O → List N) (expire : N → Nat) (pending : List N) :
    Prop where
  slot : ∀ k < defaultSize,
    l (.slot (w.ahead k)) = pending.filter fun a => expire a = w.Start + k
  range : ∀ a ∈ pending, w.Start ≤ expire a ∧ expire a < w.Start + defaultSize

omit [DecidableEq N] [DecidableEq O] in
theorem Slots.mem (h : Slots w l expire pending) {a : N} (ha : a ∈ pending) :
    a ∈ l (.slot (w.ahead (expire a - w.Start))) := by
  have hr := h.range a ha
  rw [h.slot _ (by omega)]
  have heq : expire a = w.Start + (expire a - w.Start) := by omega
  exact List.mem_filter.mpr ⟨ha, by simpa using heq⟩

omit [DecidableEq N] [DecidableEq O] in
/-- The first use of the wheel only sets the clock of an empty ring. -/
theorem Slots.begin (h : Slots w l expire pending) (hfresh : w.Start = 0 → w.Index = 0 ∧ pending = [])
    (now : Nat) : Slots (w.begin now) l expire pending := by
  unfold TimeWheel.begin
  by_cases hs : w.Start = 0
  · rw [if_pos hs]
    obtain ⟨hi, hp⟩ := hfresh hs
    constructor
    · intro k hk
      have hslot := h.slot k hk
      rw [hp, List.filter_nil] at hslot ⊢
      have hsame : (⟨now, 0⟩ : TimeWheel).ahead k = w.ahead k := by
        unfold TimeWheel.ahead
        rw [hi]
      rw [hsame]
      exact hslot
    · intro a ha
      rw [hp] at ha
      exact absurd ha List.not_mem_nil
  · rw [if_neg hs]
    exact h

/-- A new item goes to the end of the slot of its deadline. -/
theorem Slots.add (h : Slots w l expire pending) {item : N} {k : Nat} (hk : k < defaultSize)
    (hout : item ∉ pending) :
    Slots w (Function.update l (.slot (w.ahead k)) (l (.slot (w.ahead k)) ++ [item]))
      (Function.update expire item (w.Start + k)) (pending ++ [item]) := by
  have hold : ∀ a ∈ pending, Function.update expire item (w.Start + k) a = expire a := by
    intro a ha
    have hne : a ≠ item := fun heq => hout (heq ▸ ha)
    exact Function.update_of_ne hne _ _
  have hfilter : ∀ j, (pending ++ [item]).filter
      (fun a => Function.update expire item (w.Start + k) a = w.Start + j) =
      (pending.filter fun a => expire a = w.Start + j) ++ if j = k then [item] else [] := by
    intro j
    rw [List.filter_append]
    congr 1
    · apply List.filter_congr
      intro a ha
      rw [hold a ha]
    · by_cases hj : j = k
      · simp [hj]
      · have hkj : ¬ k = j := fun heq => hj heq.symm
        simp [hj, hkj]
  constructor
  · intro j hj
    rw [hfilter j]
    by_cases hjk : j = k
    · rw [hjk, Function.update_self, if_pos rfl, h.slot k hk]
    · have hne : (Place.slot (w.ahead j) : Place O) ≠ .slot (w.ahead k) := by
        intro heq
        exact hjk (TimeWheel.ahead_inj hj hk (Place.slot.inj heq))
      rw [Function.update_of_ne hne, if_neg hjk, List.append_nil]
      exact h.slot j hj
  · intro a ha
    cases List.mem_append.mp ha with
    | inl hin =>
        rw [hold a hin]
        exact h.range a hin
    | inr hin =>
        rw [List.mem_singleton.mp hin, Function.update_self]
        omega

omit [DecidableEq O] in
/-- Changing the deadline of an item that is not pending changes nothing. -/
theorem Slots.touch (h : Slots w l expire pending) {item : N} (hout : item ∉ pending) (e : Nat) :
    Slots w l (Function.update expire item e) pending := by
  have hold : ∀ a ∈ pending, Function.update expire item e a = expire a := by
    intro a ha
    have hne : a ≠ item := fun heq => hout (heq ▸ ha)
    exact Function.update_of_ne hne _ _
  constructor
  · intro k hk
    rw [h.slot k hk]
    apply List.filter_congr
    intro a ha
    rw [hold a ha]
  · intro a ha
    rw [hold a ha]
    exact h.range a ha

/-- An item leaves the place it is linked at, and is no longer pending. -/
theorem Slots.erase (h : Slots w l expire pending) {p : Place O} {item : N}
    (hunique : ∀ q, item ∈ l q → q = p) :
    Slots w (Function.update l p ((l p).erase item)) expire (pending.erase item) := by
  constructor
  · intro k hk
    rw [← List.erase_filter, ← h.slot k hk]
    by_cases hp : (Place.slot (w.ahead k) : Place O) = p
    · rw [hp, Function.update_self]
    · have hout : item ∉ l (.slot (w.ahead k)) := fun hin => hp (hunique _ hin)
      rw [Function.update_of_ne hp, List.erase_of_not_mem hout]
  · intro a ha
    exact h.range a (List.mem_of_mem_erase ha)

omit [DecidableEq N] in
/-- **Draining**: the slots up to `now`, one after the other, hold exactly what is due, and what is
left is tied to the wheel that starts at `now`. -/
theorem Slots.take (h : Slots w l expire pending) {now n : Nat} (out : O)
    (hsmall : toSizeT w.Index ≤ w.Start) (hlo : w.Start ≤ now) (hhi : now < 2 ^ 64)
    (hn : n = min (now - w.Start + 1) defaultSize) :
    ∃ l', l' = ((List.range n).map fun j => slotOf (w.Index + (j : Nat))).foldl (joined out) l ∧
      toSizeT (toInt64 (w.Index + ((n : Int) - 1))) ≤ now ∧
      l' (.other out) =
        l (.other out) ++ sortByKey expire (pending.filter fun a => expire a ≤ now) ∧
      Slots ⟨now, toInt64 (w.Index + ((n : Int) - 1))⟩ l' expire
        (pending.filter fun a => now < expire a) := by
  have hpos : 0 < n := by
    rw [hn]
    unfold defaultSize
    omega
  have hle : n ≤ defaultSize := by omega
  obtain ⟨hindex, hout, hslot, -⟩ :=
    drain_slots l out hsmall hlo hhi hpos hle (by omega)
  refine ⟨_, rfl, by omega, ?_, ?_, ?_⟩
  · rw [hout]
    congr 1
    have hrange : ∀ a ∈ pending.filter (fun a => expire a ≤ now),
        w.Start ≤ expire a ∧ expire a < w.Start + n := by
      intro a ha
      have hdue : expire a ≤ now := by simpa using (List.mem_filter.mp ha).2
      have := h.range a (List.mem_filter.mp ha).1
      omega
    -- one slot holds one deadline: slot after slot is the order of deadlines
    rw [← buckets_eq_sortByKey expire hrange]
    unfold buckets
    apply List.flatMap_congr
    intro k hk
    have hkn := List.mem_range.mp hk
    rw [h.slot k (by omega), List.filter_filter]
    apply List.filter_congr
    intro a _
    rw [← Bool.decide_and]
    apply decide_eq_decide.mpr
    omega
  · intro k hk
    rw [hslot k hk]
    by_cases hfar : 0 < k ∧ n - 1 + k < defaultSize
    · -- a slot further ahead, seen from the new start
      rw [if_pos hfar, h.slot _ hfar.2, List.filter_filter]
      apply List.filter_congr
      intro a _
      rw [← Bool.decide_and]
      apply decide_eq_decide.mpr
      dsimp only
      omega
    · -- a drained slot, and no deadline that far ahead is left
      rw [if_neg hfar]
      symm
      apply List.filter_eq_nil_iff.mpr
      intro a ha
      have hlate : now < expire a := by simpa using (List.mem_filter.mp ha).2
      have := h.range a (List.mem_filter.mp ha).1
      have hne : ¬ expire a = now + k := by omega
      simpa using hne
  · intro a ha
    have hlate : now < expire a := by simpa using (List.mem_filter.mp ha).2
    have := h.range a (List.mem_filter.mp ha).1
    show now ≤ expire a ∧ expire a < now + defaultSize
    omega

/-! ## §3. Whole runs. -/

namespace WheelState

/-- The last clock reading is within an `int` of the start of the wheel. -/
def Near (s : WheelState N O) : Prop := s.wheel.Start = 0 ∨ s.now < s.wheel.Start + int32Max

end WheelState

/-- What holds between two calls. -/
structure WheelInv (s : WheelState N O) (l : Place O → List N) : Prop where
  repr : Repr s.links l
  fresh : s.wheel.Start = 0 → s.wheel.Index = 0 ∧ s.pending = []
  start_le : s.wheel.Start ≤ s.now
  index_le : toSizeT s.wheel.Index ≤ s.wheel.Start
  clock : s.now < 2 ^ 64
  slots : s.Near → Slots s.wheel l s.expire s.pending

variable {s t : WheelState N O} {now : Nat}

omit [DecidableEq N] [DecidableEq O] in
theorem WheelInv.init : WheelInv (WheelState.init : WheelState N O) fun _ => [] := by
  have hclock : (WheelState.init : WheelState N O).now < 2 ^ 64 := by
    show 0 < 2 ^ 64
    decide
  refine ⟨Repr.empty, fun _ => ⟨rfl, rfl⟩, Nat.le_refl 0, Nat.le_refl 0, hclock, fun _ => ?_⟩
  exact ⟨fun _ _ => rfl, fun a ha => absurd ha List.not_mem_nil⟩

omit [DecidableEq N] [DecidableEq O] in
/-- The wheel as a call at `now` finds it, the first use included. -/
theorem WheelInv.begin (h : WheelInv s l) (hpos : 0 < now) (hnow : s.now ≤ now) :
    (s.wheel.begin now).Start ≠ 0 ∧ (s.wheel.begin now).Start ≤ now ∧
      toSizeT (s.wheel.begin now).Index ≤ (s.wheel.begin now).Start ∧
      (s.Near → Slots (s.wheel.begin now) l s.expire s.pending) := by
  have hslots : s.Near → Slots (s.wheel.begin now) l s.expire s.pending := by
    intro hnear
    exact (h.slots hnear).begin h.fresh now
  have hle := h.start_le
  have hindex := h.index_le
  by_cases hs : s.wheel.Start = 0
  · have hb : s.wheel.begin now = ⟨now, 0⟩ := by
      unfold TimeWheel.begin
      rw [if_pos hs]
    rw [hb] at hslots ⊢
    have hzero : toSizeT 0 ≤ now := Nat.zero_le now
    exact ⟨by dsimp only; omega, Nat.le_refl now, hzero, hslots⟩
  · have hb : s.wheel.begin now = s.wheel := by
      unfold TimeWheel.begin
      rw [if_neg hs]
    rw [hb] at hslots ⊢
    exact ⟨hs, by omega, hindex, hslots⟩

omit [DecidableEq N] [DecidableEq O] in
/-- A wheel that is near to its start after an insertion was near to it before. -/
theorem WheelInv.near_of_begin (h : WheelInv s l) (hnow : s.now ≤ now)
    (hnear : (s.wheel.begin now).Start = 0 ∨ now < (s.wheel.begin now).Start + int32Max) :
    s.Near := by
  rw [TimeWheel.begin_start] at hnear
  unfold WheelState.Near
  by_cases hs : s.wheel.Start = 0
  · exact Or.inl hs
  · rw [if_neg hs] at hnear
    have := h.start_le
    omega

omit [DecidableEq N] [DecidableEq O] in
/-- A pending item is linked, so an unlinked one is not pending. -/
theorem WheelInv.not_pending (h : WheelInv s l) (hnear : s.Near) {item : N}
    (hlink : s.links.link item = none) : item ∉ s.pending := by
  intro hin
  exact h.repr.link_none.mp hlink _ ((h.slots hnear).mem hin)

/-- **`AddTimeOut` keeps the invariant.** -/
theorem WheelInv.addTimeOut (h : WheelInv s l) {item : N} {e : Nat}
    (hok : s.Allowed (.addTimeOut item e now)) (hstep : s.step (.addTimeOut item e now) = some t) :
    ∃ l', WheelInv t l' := by
  obtain ⟨hlink, hpos, hnow, hlt, he, hint⟩ := hok
  obtain ⟨hs0, hsle, hile, hslots⟩ := h.begin hpos hnow
  unfold WheelState.step at hstep
  rw [← Option.some.inj hstep]
  cases addTimeOut_cases s.wheel s.links item e now with
  | inl hrefused =>
      obtain ⟨-, ret, hret, heq⟩ := hrefused
      rw [heq, if_neg hret]
      refine ⟨l, h.repr, fun h0 => absurd h0 hs0, hsle, hile, hlt, fun hnear => ?_⟩
      have hold := h.near_of_begin hnow hnear
      exact (hslots hold).touch (h.not_pending hold hlink) e
  | inr haccepted =>
      obtain ⟨⟨-, hearly, hbig⟩, heq⟩ := haccepted
      rw [heq, if_pos rfl]
      refine ⟨_, h.repr.addTail _ hlink, fun h0 => absurd h0 hs0, hsle, hile, hlt, fun hnear => ?_⟩
      have hold := h.near_of_begin hnow hnear
      -- the deadline lies in the ring
      have hsmall : e - (s.wheel.begin now).Start < 2 ^ 63 := by
        have hfar : (s.wheel.begin now).Start = 0 ∨ now < (s.wheel.begin now).Start + int32Max :=
          hnear
        unfold int32Max at hint hfar
        omega
      have hcast : (e - (s.wheel.begin now).Start : Int) =
          ((e - (s.wheel.begin now).Start : Nat) : Int) := by omega
      rw [hcast, toInt64_of_lt hsmall] at hbig
      have hslot : s.wheel.deadlineSlot now e =
          (s.wheel.begin now).ahead (e - (s.wheel.begin now).Start) := by
        unfold TimeWheel.deadlineSlot
        rw [hcast, toInt64_of_lt hsmall]
        exact TimeWheel.slotOf_ahead (by omega)
      have hadd := (hslots hold).add (Int.ofNat_lt.mp hbig) (h.not_pending hold hlink)
      have hdeadline : (s.wheel.begin now).Start + (e - (s.wheel.begin now).Start) = e := by omega
      rw [hdeadline] at hadd
      rw [hslot]
      exact hadd

/-- **`RemoveFromWheel` keeps the invariant.** -/
theorem WheelInv.removeFromWheel (h : WheelInv s l) {item : N}
    (hstep : s.step (.removeFromWheel item) = some t) : ∃ l', WheelInv t l' := by
  simp only [WheelState.step] at hstep
  cases hlink : s.links.link item with
  | none =>
      have hsame : CoRoutine.removeFromWheel s.links item = some s.links := by
        unfold CoRoutine.removeFromWheel
        rw [hlink]
      rw [hsame] at hstep
      rw [← Option.some.inj hstep]
      refine ⟨l, h.repr, ?_, h.start_le, h.index_le, h.clock, fun hnear => ?_⟩
      · intro h0
        obtain ⟨hi, hp⟩ := h.fresh h0
        exact ⟨hi, by rw [hp]; rfl⟩
      · show Slots s.wheel l s.expire (s.pending.erase item)
        rw [List.erase_of_not_mem (h.not_pending hnear hlink)]
        exact h.slots hnear
  | some p =>
      obtain ⟨links, hrem, hr⟩ := h.repr.removeFromWheel hlink
      rw [hrem] at hstep
      rw [← Option.some.inj hstep]
      refine ⟨_, hr, ?_, h.start_le, h.index_le, h.clock, fun hnear => ?_⟩
      · intro h0
        obtain ⟨hi, hp⟩ := h.fresh h0
        exact ⟨hi, by rw [hp]; rfl⟩
      · exact (h.slots hnear).erase fun q hq => h.repr.unique hq ((h.repr.link item p).mp hlink)

omit [DecidableEq N] [DecidableEq O] in
theorem WheelState.near_of_takeOut {out : O}
    (hok : s.Allowed (.takeOutTimeout now out)) : s.Near := by
  obtain ⟨-, hnow, -, hint⟩ := hok
  by_cases hz : s.wheel.Start = 0
  · exact Or.inl hz
  · have := hint hz
    exact Or.inr (by omega)

/-- **`TakeOutTimeout` keeps the invariant** and appends what is due. -/
theorem WheelInv.takeOutTimeout (h : WheelInv s l) {out : O}
    (hok : s.Allowed (.takeOutTimeout now out)) :
    ∃ t l', s.step (.takeOutTimeout now out) = some t ∧ WheelInv t l' ∧ t.Near ∧
      t.pending = s.pending.filter (fun a => now < s.expire a) ∧
      l' (.other out) = l (.other out) ++ s.due now := by
  have hnear := WheelState.near_of_takeOut hok
  obtain ⟨hpos, hnow, hlt, hint⟩ := hok
  obtain ⟨hs0, hsle, hile, hslots⟩ := h.begin hpos hnow
  have hhi : now + 1 < (s.wheel.begin now).Start + 2 ^ 31 := by
    rw [TimeWheel.begin_start]
    unfold int32Max at hint
    by_cases hz : s.wheel.Start = 0
    · rw [if_pos hz]
      omega
    · have := hint hz
      rw [if_neg hz]
      omega
  obtain ⟨links, n, htake, hr, -, -, -, hexact⟩ := takeOutTimeout_spec h.repr s.wheel now out
  have hn := hexact hsle hhi
  have hn0 : n ≠ 0 := by
    unfold defaultSize at hn
    omega
  rw [if_neg hn0] at htake
  obtain ⟨l', hl', hindex, hout, htied⟩ := (hslots hnear).take out hile hsle hlt hn
  rw [← hl'] at hr
  have hstep : s.step (.takeOutTimeout now out) = some
      { s with
        wheel := ⟨now, toInt64 ((s.wheel.begin now).Index + ((n : Int) - 1))⟩, links, now
        pending := s.pending.filter fun a => now < s.expire a } := by
    simp only [WheelState.step, htake, Option.map_some]
  have hfresh : now = 0 → toInt64 ((s.wheel.begin now).Index + ((n : Int) - 1)) = 0 ∧
      s.pending.filter (fun a => now < s.expire a) = [] := by
    intro h0
    omega
  have hnear' : now < now + int32Max := by
    unfold int32Max
    omega
  exact ⟨_, l', hstep, ⟨hr, hfresh, Nat.le_refl now, hindex, hlt, fun _ => htied⟩, Or.inr hnear',
    rfl, hout⟩

/-- Every call keeps the invariant. -/
theorem WheelInv.step {a : WheelAction N O} (h : ∃ l, WheelInv s l) (hstep : s.Step a t) :
    ∃ l, WheelInv t l := by
  obtain ⟨l, h⟩ := h
  obtain ⟨hok, ha⟩ := hstep
  cases a with
  | addTimeOut item e now => exact h.addTimeOut hok ha
  | removeFromWheel item => exact h.removeFromWheel ha
  | takeOutTimeout now out =>
      obtain ⟨t', l', ht, hinv, -, -, -⟩ := h.takeOutTimeout hok
      rw [ht] at ha
      rw [← Option.some.inj ha]
      exact ⟨l', hinv⟩

/-- No allowed call faults. -/
theorem WheelInv.returns (h : WheelInv s l) (a : WheelAction N O) (hok : s.Allowed a) :
    ∃ t, s.step a = some t := by
  cases a with
  | addTimeOut item e now => exact ⟨_, rfl⟩
  | removeFromWheel item =>
      simp only [WheelState.step]
      cases hlink : s.links.link item with
      | none =>
          rw [removeFromWheel_unlinked hlink]
          exact ⟨_, rfl⟩
      | some p =>
          obtain ⟨links, hrem, -⟩ := h.repr.removeFromWheel hlink
          rw [hrem]
          exact ⟨_, rfl⟩
  | takeOutTimeout now out =>
      obtain ⟨t, -, ht, -⟩ := h.takeOutTimeout hok
      exact ⟨t, ht⟩

/-- **Deadlines are kept.**  After any calls no call faults, the pending items are in slots of the
wheel, and a `TakeOutTimeout` appends to `out` exactly those that are due, sorted by deadline and
stable; the others stay pending. -/
theorem takeOutTimeout_due {as : List (WheelAction N O)}
    (hrun : Run WheelState.Step (WheelState.init : WheelState N O) as s) :
    (∀ a, s.Allowed a → ∃ t, s.step a = some t) ∧
    ∀ now out t, s.Allowed (.takeOutTimeout now out) → s.step (.takeOutTimeout now out) = some t →
      t.links.items (.other out) = s.links.items (.other out) ++ s.due now ∧
      t.pending = s.pending.filter (fun a => now < s.expire a) ∧
      (∀ a ∈ s.pending, ∃ i, s.links.link a = some (.slot i)) ∧
      ∀ a ∈ t.pending, ∃ i, t.links.link a = some (.slot i) := by
  have hinit : ∃ l, WheelInv (WheelState.init : WheelState N O) l := ⟨_, WheelInv.init⟩
  obtain ⟨l, hinv⟩ := hrun.invariant (fun _ _ _ h ha => WheelInv.step h ha) hinit
  refine ⟨fun a hok => hinv.returns a hok, ?_⟩
  intro now out t hok hstep
  obtain ⟨t', l', hstep', hinv', hnear', hpending, hout⟩ := hinv.takeOutTimeout hok
  rw [hstep] at hstep'
  rw [← Option.some.inj hstep'] at hinv' hnear' hpending
  have hlinked : ∀ {s : WheelState N O} {l : Place O → List N}, WheelInv s l → s.Near →
      ∀ a ∈ s.pending, ∃ i, s.links.link a = some (.slot i) := by
    intro s l h hnear a ha
    exact ⟨_, (h.repr.link a _).mpr ((h.slots hnear).mem ha)⟩
  refine ⟨?_, hpending, hlinked hinv (WheelState.near_of_takeOut hok), hlinked hinv' hnear'⟩
  rw [hinv'.repr.items, hinv.repr.items]
  exact hout

/-- Three items, two of them with one deadline, and one that is removed in time. -/
theorem takeOutTimeout_due_three : ∃ s t : WheelState Nat Unit, Run WheelState.Step
    WheelState.init [.addTimeOut 1 105 100, .addTimeOut 2 103 100, .addTimeOut 3 105 101,
      .addTimeOut 4 104 101, .removeFromWheel 4] s ∧
      s.step (.takeOutTimeout 110 ()) = some t ∧ t.links.items (.other ()) = [2, 1, 3] := by
  have hcheck : checkRun WheelState.step (fun s a => decide (s.Allowed a))
      (WheelState.init : WheelState Nat Unit) [.addTimeOut 1 105 100, .addTimeOut 2 103 100,
        .addTimeOut 3 105 101, .addTimeOut 4 104 101, .removeFromWheel 4]
      (fun s => decide (s.Allowed (.takeOutTimeout 110 ()) ∧
        s.links.items (.other ()) ++ s.due 110 = [2, 1, 3])) = true := by
    decide +kernel
  have hof : ∀ (s : WheelState Nat Unit) a t, decide (s.Allowed a) = true → s.step a = some t →
      WheelState.Step s a t := fun s a t hok hstep => ⟨of_decide_eq_true hok, hstep⟩
  obtain ⟨s, hrun, hs⟩ := Run.of_check hof hcheck
  obtain ⟨hok, hitems⟩ := of_decide_eq_true hs
  obtain ⟨hreturns, hdue⟩ := takeOutTimeout_due hrun
  obtain ⟨t, hstep⟩ := hreturns _ hok
  refine ⟨s, t, hrun, hstep, ?_⟩
  rw [(hdue 110 () t hok hstep).1]
  exact hitems

end RocketCo.CoRoutine
