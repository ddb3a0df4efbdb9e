/-
  RocketCo.CoRoutine.Stall — `TakeOutTimeout` after a stall of any length.

  The time passed, a 64-bit difference, is narrowed to `int` before it is compared with the size of the
  ring.  If the lower 32 bits are at least that size, as a `size_t`, the loop goes once around the ring
  and all is well; if not, and the difference was longer than 32 bits, it drains too few slots and still
  moves `Start` to `Now`, or does nothing at all.

    • `Agreeing` — every item is in the slot of its deadline,
    • `stall_iff` — what a `TakeOutTimeout` has to do, and exactly when it does it.
-/
import RocketCo.CoRoutine.SizedWheel

namespace RocketCo.CoRoutine

open RocketCo.Lib

variable {N O : Type*} [DecidableEq N] [DecidableEq O]

/-! ## §1. What is asked of a call. -/

/-- The lower 32 bits of the time passed tell as much as all of it. -/
def TimeWheel.InTime (w : TimeWheel) (now : Nat) : Prop :=
  now - w.Start + 1 < 2 ^ 32 ∨ defaultSize ≤ (now - w.Start + 1) % 2 ^ 32

instance (w : TimeWheel) (now : Nat) : Decidable (w.InTime now) := inferInstanceAs (Decidable (_ ∨ _))

namespace SizedWheel

/-- The slot `i` is that of the deadline of `a`. -/
def Agrees (s : SizedWheel N O) (a : N) (i : Nat) : Prop :=
  s.wheel.Start ≤ s.expire a ∧ s.wheel.slotAhead s.size (s.expire a - s.wheel.Start) = i

/-- **What is asked of `TakeOutTimeout`**: it drains as many slots as milliseconds have passed, up to the
whole ring, moves `Start` to `Now`, and leaves every item in the slot of its deadline. -/
def Drains (s : SizedWheel N O) (now : Nat) (out : O) : Prop :=
  s.wheel.drained s.size now = min (now - s.wheel.Start + 1) s.size ∧
    ∃ t, s.step (.takeOutTimeout now out) = some t ∧ t.wheel.Start = now ∧
      ∀ a i, t.links.link a = some (.slot i) → t.Agrees a i

/-- The condition on a call: no insertion at the time zero, which stands for an unused wheel, and no
`TakeOutTimeout` that misjudges the time passed. -/
def Unhurried (s : SizedWheel N O) : WheelAction N O → Prop
  | .addTimeOut _ e now => s.wheel.Accepts now e → 0 < now
  | .removeFromWheel _ => True
  | .takeOutTimeout now _ => (s.wheel.begin now).InTime now

instance (s : SizedWheel N O) (a : WheelAction N O) : Decidable (s.Unhurried a) :=
  match a with
  | .addTimeOut _ _ _ => inferInstanceAs (Decidable (_ → _))
  | .removeFromWheel _ => inferInstanceAs (Decidable True)
  | .takeOutTimeout now _ => inferInstanceAs (Decidable ((s.wheel.begin now).InTime now))

/-- A call that returns, at any time, and meets the condition. -/
def UnhurriedStep (s : SizedWheel N O) (a : WheelAction N O) (t : SizedWheel N O) : Prop :=
  s.Call a ∧ s.Unhurried a ∧ s.step a = some t

/-- **Every item is in the slot of its deadline.** -/
structure Agreeing (s : SizedWheel N O) (l : Place O → List N) : Prop where
  repr : Repr s.links l
  size_eq : s.size = defaultSize
  index_le : toSizeT s.wheel.Index ≤ s.wheel.Start
  fresh : s.wheel.Start = 0 → ∀ i, l (.slot i) = []
  agree : ∀ i, ∀ a ∈ l (.slot i), s.Agrees a i

end SizedWheel

/-! ## §2. One call. -/

variable {s t : SizedWheel N O} {l : Place O → List N} {w : TimeWheel} {now : Nat}

/-- **The narrowing** is exact when the lower 32 bits tell enough, and only then. -/
theorem TimeWheel.drained_eq_iff (h : w.Start ≤ now) :
    w.drained defaultSize now = min (now - w.Start + 1) defaultSize ↔ w.InTime now := by
  rw [w.drained_eq (by decide) h]
  unfold TimeWheel.InTime defaultSize
  omega

namespace SizedWheel

omit [DecidableEq N] [DecidableEq O] in
theorem Agreeing.init : Agreeing (default : SizedWheel N O) fun _ => [] := by
  refine ⟨Repr.empty, rfl, Nat.le_refl 0, fun _ _ => rfl, fun i a ha => ?_⟩
  cases ha

omit [DecidableEq N] [DecidableEq O] in
/-- The wheel as a call finds it, the first use included. -/
theorem Agreeing.begin (h : Agreeing s l) (now : Nat) :
    toSizeT (s.wheel.begin now).Index ≤ (s.wheel.begin now).Start ∧
      ((s.wheel.begin now).Start = 0 → ∀ i, l (.slot i) = []) ∧
      ∀ i, ∀ a ∈ l (.slot i), (s.wheel.begin now).Start ≤ s.expire a ∧
        (s.wheel.begin now).slotAhead s.size (s.expire a - (s.wheel.begin now).Start) = i := by
  unfold TimeWheel.begin
  by_cases hs : s.wheel.Start = 0
  · rw [if_pos hs]
    have hzero : toSizeT 0 ≤ now := Nat.zero_le now
    refine ⟨hzero, fun _ => h.fresh hs, fun i a ha => ?_⟩
    rw [h.fresh hs i] at ha
    cases ha
  · rw [if_neg hs]
    exact ⟨h.index_le, h.fresh, h.agree⟩

/-- **`AddTimeOut`** puts an item into the slot of its deadline, also when that is many revolutions
away. -/
theorem Agreeing.addTimeOut (h : Agreeing s l) {item : N} {e : Nat}
    (hcall : s.Call (.addTimeOut item e now)) (hok : s.Unhurried (.addTimeOut item e now))
    (ht : s.step (.addTimeOut item e now) = some t) : ∃ l', Agreeing t l' := by
  obtain ⟨hset, hlt, he⟩ := hcall
  obtain ⟨hindex, hfresh, hagree⟩ := h.begin now
  -- what is in the wheel keeps its deadline and its slot
  have hold : ∀ i, ∀ a ∈ l (.slot i),
      (s.wheel.begin now).Start ≤ Function.update s.expire item e a ∧
        (s.wheel.begin now).slotAhead s.size
          (Function.update s.expire item e a - (s.wheel.begin now).Start) = i := by
    intro i a ha
    rw [expire_update h.repr hset ha]
    exact hagree i a ha
  cases addTimeOutIn_cases s.size s.wheel s.links item e now with
  | inl hrefused =>
      obtain ⟨-, ret, -, heq⟩ := hrefused
      rw [step_of_addTimeOut heq] at ht
      rw [← Option.some.inj ht]
      exact ⟨l, h.repr, h.size_eq, hindex, hfresh, hold⟩
  | inr haccepted =>
      obtain ⟨hacc, heq⟩ := haccepted
      have hle := Nat.le_trans hacc.1 hacc.2.1
      have hsize : s.size ≠ 0 := by
        rw [h.size_eq]
        decide
      unfold slotIn at heq
      rw [if_neg hsize, TimeWheel.deadline_slotAhead hindex hle he, Option.map_some] at heq
      rw [step_of_addTimeOut heq] at ht
      rw [← Option.some.inj ht]
      refine ⟨_, h.repr.appended _ item, h.size_eq, hindex, ?_, ?_⟩
      · -- a wheel that an insertion has left unused was asked at the time zero
        intro hzero
        have hpos := hok hacc
        have hstart := TimeWheel.begin_start s.wheel now
        have hzero' : (s.wheel.begin now).Start = 0 := hzero
        rw [hzero'] at hstart
        split_ifs at hstart with h0
        · omega
        · exact absurd hstart.symm h0
      · intro i a ha
        cases mem_appended.mp ha with
        | inl hin => exact hold i a hin
        | inr hnew =>
            obtain ⟨ha, hi, -⟩ := hnew
            unfold Agrees
            rw [ha]
            dsimp only
            rw [Function.update_self]
            exact ⟨hle, (Place.slot.inj hi).symm⟩

/-- **`RemoveFromWheel`.** -/
theorem Agreeing.removeFromWheel (h : Agreeing s l) {item : N}
    (ht : s.step (.removeFromWheel item) = some t) : ∃ l', Agreeing t l' := by
  obtain ⟨links, hrem, hr⟩ := h.repr.erased item
  simp only [SizedWheel.step, hrem, Option.map_some, Option.some.injEq] at ht
  rw [← ht]
  refine ⟨erased l item, hr, h.size_eq, h.index_le, ?_, ?_⟩
  · exact fun h0 i => erased_nil (h.fresh h0 i) item
  · intro i a ha
    exact h.agree i a (List.mem_of_mem_erase ha)

/-- **`TakeOutTimeout`** that does not misjudge the time passed. -/
theorem Agreeing.takeOutTimeout (h : Agreeing s l) {out : O} (hlt : now < 2 ^ 64)
    (hok : (s.wheel.begin now).InTime now) :
    ∃ t, s.step (.takeOutTimeout now out) = some t ∧ (∃ l', Agreeing t l') ∧
      ((s.wheel.begin now).Start ≤ now → t.wheel.Start = now) := by
  obtain ⟨hindex, hfresh, hagree⟩ := h.begin now
  have hsize : s.size < 2 ^ 31 := by
    rw [h.size_eq]
    decide
  obtain ⟨links, l', htake, hr, -, hpast, hslots⟩ :=
    takeOutTimeoutIn_slots h.repr hsize s.wheel out hlt hindex rfl
  refine ⟨_, step_of_takeOutTimeout htake, ?_⟩
  rcases Nat.lt_or_ge now (s.wheel.begin now).Start with hearly | hlo
  · -- the clock went back: nothing is drained
    rw [(s.wheel.begin now).drained_of_lt s.size hearly] at hslots ⊢
    refine ⟨⟨l', hr, h.size_eq, hindex, fun h0 i => ?_, fun i a ha => ?_⟩, fun hle => ?_⟩
    · rw [hslots i, hfresh h0 i, ite_self]
    · have hnone : ¬ ∃ j < 0, (s.wheel.begin now).slotAhead s.size j = i := by simp
      rw [hslots i, if_neg hnone] at ha
      exact hagree i a ha
    · exact absurd hle (Nat.not_le.mpr hearly)
  · have hn := (TimeWheel.drained_eq_iff hlo).mpr hok
    rw [← h.size_eq] at hn
    generalize (s.wheel.begin now).drained s.size now = n at hn hpast hslots ⊢
    -- at least the slot of `Start` is drained
    have hpos : 0 < n := by
      rw [hn, h.size_eq]
      unfold defaultSize
      omega
    rw [if_neg (Nat.ne_of_gt hpos)]
    have hmoved := TimeWheel.slotAhead_moved hindex hpos (hpast hpos) hlt
    refine ⟨⟨l', hr, h.size_eq, ?_, fun h0 i => ?_, fun i a ha => ?_⟩, fun _ => rfl⟩
    · dsimp only
      rw [hmoved]
      have := hpast hpos
      omega
    -- a drain leaves `Start` at zero only at the time zero, and then no slot had anything
    · have hnow : now = 0 := h0
      rw [hslots i, hfresh (by omega) i, ite_self]
    · rw [hslots i] at ha
      split_ifs at ha with hdrained
      · cases ha
      · -- the slot was not reached, so the deadline is ahead of `now`
        obtain ⟨hexp, hslot⟩ := hagree i a ha
        have hring : (s.expire a - (s.wheel.begin now).Start) % s.size < s.size := by
          apply Nat.mod_lt
          rw [h.size_eq]
          decide
        have hshort : n ≤ (s.expire a - (s.wheel.begin now).Start) % s.size := by
          refine Nat.not_lt.mp fun hlt => hdrained ⟨_, hlt, ?_⟩
          rw [TimeWheel.slotAhead_mod]
          exact hslot
        have hmod := Nat.mod_le (s.expire a - (s.wheel.begin now).Start) s.size
        refine ⟨show now ≤ s.expire a by omega, ?_⟩
        rw [← hslot]
        unfold TimeWheel.slotAhead
        dsimp only
        rw [hmoved]
        congr 1
        omega

/-! ## §3. Every run. -/

theorem Agreeing.step {a : WheelAction N O} (h : ∃ l, Agreeing s l) (hstep : s.UnhurriedStep a t) :
    ∃ l, Agreeing t l := by
  obtain ⟨l, h⟩ := h
  obtain ⟨hcall, hok, ht⟩ := hstep
  cases a with
  | addTimeOut item e now => exact h.addTimeOut hcall hok ht
  | removeFromWheel item => exact h.removeFromWheel ht
  | takeOutTimeout now out =>
      obtain ⟨t', ht', hinv, -⟩ := h.takeOutTimeout hcall hok
      rw [ht'] at ht
      rw [← Option.some.inj ht]
      exact hinv

end SizedWheel

/-- **Stalls and jumps of the clock.**  In every state that calls so far, none of them misjudging
the time, can lead to, `TakeOutTimeout(now)` drains the slots it should, moves `Start` to `now` and
leaves every item in the slot of its deadline, exactly when the time passed fits 32 bits or its
lower 32 bits are no less than the ring. -/
theorem stall_iff {as : List (WheelAction N O)} {s : SizedWheel N O}
    (hrun : Run SizedWheel.UnhurriedStep .default as s) {now : Nat} (out : O)
    (hstart : 0 < s.wheel.Start) (hle : s.wheel.Start ≤ now) (hlt : now < 2 ^ 64) :
    s.Drains now out ↔ s.wheel.InTime now := by
  have hinit : ∃ l, SizedWheel.Agreeing (.default : SizedWheel N O) l := ⟨_, .init⟩
  obtain ⟨l, hinv⟩ := hrun.invariant (fun _ _ _ h ha => SizedWheel.Agreeing.step h ha) hinit
  have hused : s.wheel.begin now = s.wheel := if_neg (Nat.ne_of_gt hstart)
  constructor
  · intro h
    have hcount := h.1
    rw [hinv.size_eq] at hcount
    exact (TimeWheel.drained_eq_iff hle).mp hcount
  · intro hok
    have hcount := (TimeWheel.drained_eq_iff hle).mpr hok
    rw [← hinv.size_eq] at hcount
    obtain ⟨t, ht, ⟨l', hinv'⟩, hmoved⟩ := hinv.takeOutTimeout hlt (hused.symm ▸ hok)
    rw [hused] at hmoved
    refine ⟨hcount, t, ht, hmoved hle, fun a i hin => ?_⟩
    exact hinv'.agree i a ((hinv'.repr.link a _).mp hin)

theorem SizedWheel.UnhurriedStep.of_check {s t : SizedWheel N O} {a : WheelAction N O}
    (hok : decide (s.Call a ∧ s.Unhurried a) = true) (hstep : s.step a = some t) :
    s.UnhurriedStep a t := by
  obtain ⟨hcall, hok⟩ := of_decide_eq_true hok
  exact ⟨hcall, hok, hstep⟩

/-- One item is pending on a wheel that was started at the time 100. -/
theorem stall_run : ∃ s : SizedWheel Nat Unit,
    Run SizedWheel.UnhurriedStep .default [.addTimeOut 1 105 100] s ∧ s.wheel.Start = 100 ∧
      s.size = defaultSize := by
  have hcheck : checkRun SizedWheel.step (fun s a => decide (s.Call a ∧ s.Unhurried a))
      (.default : SizedWheel Nat Unit) [.addTimeOut 1 105 100]
      (fun s => decide (s.wheel.Start = 100 ∧ s.size = defaultSize)) = true := by
    decide +kernel
  have hof : ∀ (s : SizedWheel Nat Unit) a t, decide (s.Call a ∧ s.Unhurried a) = true →
      s.step a = some t → s.UnhurriedStep a t := fun _ _ _ => .of_check
  obtain ⟨s, hrun, hs⟩ := Run.of_check hof hcheck
  obtain ⟨hstart, hsize⟩ := of_decide_eq_true hs
  exact ⟨s, hrun, hstart, hsize⟩

/-- Fifty days later its lower 32 bits happen to be more than the ring. -/
theorem stall_harmless : ∃ s : SizedWheel Nat Unit,
    Run SizedWheel.UnhurriedStep .default [.addTimeOut 1 105 100] s ∧ s.Drains 4295100000 () := by
  obtain ⟨s, hrun, hstart, -⟩ := stall_run
  have hok : s.wheel.InTime 4295100000 := by
    unfold TimeWheel.InTime
    rw [hstart]
    decide
  exact ⟨s, hrun, (stall_iff hrun () (by rw [hstart]; decide) (by rw [hstart]; decide)
    (by decide)).mpr hok⟩

/-- After `2 ^ 32` milliseconds to the dot nothing is taken out. -/
theorem not_stall : ∃ s : SizedWheel Nat Unit,
    Run SizedWheel.UnhurriedStep .default [.addTimeOut 1 105 100] s ∧
      0 < s.wheel.Start ∧ s.wheel.Start ≤ 4294967395 ∧
      s.wheel.drained s.size 4294967395 = 0 ∧ ¬ s.Drains 4294967395 () := by
  obtain ⟨s, hrun, hstart, hsize⟩ := stall_run
  have hzero : s.wheel.drained s.size 4294967395 = 0 := by
    rw [hsize, s.wheel.drained_eq (by decide) (by rw [hstart]; decide), hstart]
    decide
  refine ⟨s, hrun, by rw [hstart]; decide, by rw [hstart]; decide, hzero, fun h => ?_⟩
  have hcount := h.1
  rw [hzero, hsize, hstart] at hcount
  exact absurd hcount (by decide)

end RocketCo.CoRoutine
