/-
  RocketCo.CoRoutine.Scheduling — the event loop is a scheduler with a queue of deadlines.

  The wheel is 86400 linked lists and two counters, and what is ready is another list.  As long as the clock
  is a clock (it does not go back, and no take-out comes so late that the time passed is misjudged) all of
  this computes what `Lib.Scheduler` says, with `defaultSize` for its horizon: a plain list of sleeping
  calls, sorted when they are due, and one queue.

    • `Loop.op` — the operation of the scheduler that a step of the code stands for,
    • `SchedulerInv` — the lists of the loop, and those of the scheduler,
    • `loop_schedules` — the code resumes what the scheduler dispatches, in this order,
    • `round_exact`, `round_order` — what one round of `EventLoop` resumes, and in which order.
-/
import RocketCo.CoRoutine.Drain
import RocketCo.CoRoutine.HookPoll
import RocketCo.CoRoutine.Stall
import RocketCo.Lib.Scheduler

namespace RocketCo.CoRoutine

open RocketCo.Lib

/-! ## §1. The operations behind the steps. -/

namespace Loop

/-- A clock that runs, timeouts that are an `int`, and take-outs that do not misjudge the time. -/
def Punctual (s : Loop) : Action → Prop
  | .poll _ timeout now => 0 < now ∧ 0 < timeout ∧ timeout ≤ int32Max
  | .wait _ timeOut now => 0 < timeOut → 0 < now ∧ timeOut ≤ int32Max
  | .takeOut now => 0 < now ∧ (s.wheel.begin now).InTime now
  | _ => True

instance (s : Loop) (a : Action) : Decidable (s.Punctual a) :=
  match a with
  | .poll _ _ _ => inferInstanceAs (Decidable (_ ∧ _))
  | .wait _ _ _ => inferInstanceAs (Decidable (_ → _))
  | .takeOut now => inferInstanceAs (Decidable (_ ∧ (s.wheel.begin now).InTime now))
  | .resume _ | .yeild | .finish | .signal _ | .broadcast _ | .back | .epollWait _ | .prepare
  | .drain => inferInstanceAs (Decidable True)

def PunctualStep (s : Loop) (a : Action) (t : Loop) : Prop := s.TimedStep a t ∧ s.Punctual a

/-- The operation of the scheduler, if any, that an action stands for. -/
def op (s : Loop) : Action → Option (SchedulerOp Call Nat)
  | .poll _ timeout now => some (.sleep (.poll s.next) (now + timeout.toNat) now)
  | .wait cv timeOut now =>
      some (if 0 < timeOut then .waitUntil cv (.wait s.next) (now + timeOut.toNat) now
        else .wait cv (.wait s.next))
  | .signal cv => some (.signal cv)
  | .broadcast cv => some (.broadcast cv)
  | .back =>
      match (getCurrCo s).map s.stage with
      | some (.back x) => some (.leave x)
      | _ => none
  | .prepare =>
      match s.phase with
      | .dispatch ((k, _) :: _) => some (.wake (.poll k))
      | _ => none
  | .takeOut now => some (.tick now)
  | .drain => some .dispatch
  | .resume _ | .yeild | .finish | .epollWait _ => none

/-- The deadline that a call left where its coroutine waits. -/
def expireTime (s : Loop) : Call → Option Nat
  | .poll k => (s.polls k).map Stpoll.ExpireTime
  | .wait k => (s.items k).map CondItem.ExpireTime

end Loop

/-- The scheduler of the calls, after the operation of an action. -/
def follow (u : Scheduler Call Nat) (op : Option (SchedulerOp Call Nat)) : Scheduler Call Nat :=
  op.elim u (u.apply defaultSize)

/-- A step of the loop, and of the scheduler beside it. -/
def Beside (p : Loop × Scheduler Call Nat) (a : Action) (q : Loop × Scheduler Call Nat) : Prop :=
  p.1.PunctualStep a q.1 ∧ q.2 = follow p.2 (p.1.op a)

/-! ## §2. The lists of the loop, and those of the scheduler. -/

/-- **What ties them**: the slots of the wheel hold the sleeping calls by their deadlines, `ActiveLink` is
what is ready, and what was resumed is what was dispatched.  `pending` lists the linked nodes of the sleeping
calls in the order in which they fell asleep. -/
structure SchedulerInv (s : Loop) (v : Lists) (pending : List Node) (u : Scheduler Call Nat) :
    Prop where
  ready : u.ready = (v.event activeLink).map Node.call
  waiting : ∀ cv, u.waiting cv = (v.cond cv).map Call.wait
  dispatched : u.dispatched = s.resumed
  sleeping : u.sleeping = pending.map Node.call
  start : u.start = if s.wheel.Start = 0 then none else some s.wheel.Start
  slots : Slots s.wheel v.event (fun n => u.deadline n.call) pending
  linked : ∀ i, ∀ n ∈ v.event (.slot i), n ∈ pending
  fresh : s.wheel.Start = 0 → s.wheel.Index = 0 ∧ pending = []
  start_le : s.wheel.Start ≤ s.now
  index_le : toSizeT s.wheel.Index ≤ s.wheel.Start
  later : ∀ n ∈ pending, s.wheel.Start < u.deadline n.call
  whole : ∀ k i, .item k i ∉ pending
  known : ∀ n ∈ pending, s.expireTime n.call = some (u.deadline n.call)
  ordered : pending.Pairwise fun m n => m.call.addr < n.call.addr
  asleep : ∀ k p, s.polls k = some p → s.Blocked (.poll k) → p.IsHandle = false →
    .poll k ∈ pending ∨ .poll k ∈ v.event activeLink
  drained : s.phase ≠ .drain → ∀ k, .poll k ∉ v.event activeLink

variable {s t : Loop} {v w : Lists} {pending : List Node} {u : Scheduler Call Nat} {a : Action}
  {now : Nat}

/-- An empty loop is an idle scheduler. -/
theorem SchedulerInv.init : SchedulerInv Loop.init ⟨fun _ => [], fun _ => []⟩ [] .init := by
  constructor
  case ready => rfl
  case waiting => exact fun _ => rfl
  case dispatched => rfl
  case sleeping => rfl
  case start => rfl
  case slots => exact ⟨fun _ _ => rfl, fun a ha => absurd ha List.not_mem_nil⟩
  case linked => exact fun i n hn => absurd hn List.not_mem_nil
  case fresh => exact fun _ => ⟨rfl, rfl⟩
  case start_le => exact Nat.le_refl 0
  case index_le => exact Nat.le_refl 0
  case later => exact fun n hn => absurd hn List.not_mem_nil
  case whole => exact fun k i => List.not_mem_nil
  case known => exact fun n hn => absurd hn List.not_mem_nil
  case ordered => exact List.Pairwise.nil
  case asleep => exact fun k p hp => by cases hp
  case drained => exact fun _ k => List.not_mem_nil

/-! ### Lists of nodes and lists of calls. -/

theorem map_erase {α β : Type*} [DecidableEq α] [DecidableEq β] {f : α → β} {a : α} :
    ∀ {l : List α}, (∀ b ∈ l, f b = f a → b = a) → (l.erase a).map f = (l.map f).erase (f a) := by
  intro l
  induction l with
  | nil => exact fun _ => rfl
  | cons b l ih =>
      intro hinj
      by_cases hb : b = a
      · rw [hb, List.erase_cons_head, List.map_cons, List.erase_cons_head]
      · have hfb : f b ≠ f a := fun heq => hb (hinj b List.mem_cons_self heq)
        rw [List.erase_cons_tail (by simpa using hb), List.map_cons, List.map_cons,
          List.erase_cons_tail (by simpa using hfb),
          ih fun c hc => hinj c (List.mem_cons_of_mem _ hc)]

theorem mem_erase_of_mem_erase {α : Type*} [DecidableEq α] {a b : α} {l l' : List α} (hnd : l.Nodup)
    (ha : a ∈ l.erase b) (hsub : ∀ a ∈ l, a ∈ l') : a ∈ l'.erase b := by
  obtain ⟨hne, hin⟩ := hnd.mem_erase_iff.mp ha
  exact (List.mem_erase_of_ne hne).mpr (hsub a hin)

/-- A condition item is the only node of its call. -/
theorem Node.eq_cond {n : Node} {k : Nat} (h : n.call = .wait k) : n = .cond k := by
  cases n with
  | cond j => cases h; rfl
  | poll j => cases h
  | item j i => cases h

/-- A pending node of a poll is the `Stpoll_t` itself. -/
theorem SchedulerInv.eq_poll (hs : SchedulerInv s v pending u) {n : Node} (hn : n ∈ pending)
    {k : Nat} (h : n.call = .poll k) : n = .poll k := by
  cases n with
  | cond j => cases h
  | poll j => cases h; rfl
  | item j i => exact absurd hn (hs.whole j i)

theorem SchedulerInv.mem_sleeping (hs : SchedulerInv s v pending u) {k : Nat} :
    Call.poll k ∈ u.sleeping ↔ .poll k ∈ pending := by
  rw [hs.sleeping, List.mem_map]
  constructor
  · intro h
    obtain ⟨n, hn, hcall⟩ := h
    rw [← hs.eq_poll hn hcall]
    exact hn
  · exact fun h => ⟨_, h, rfl⟩

theorem SchedulerInv.on (hs : SchedulerInv s v pending u) {n : Node} (hn : n ∈ pending) : v.On n :=
  ⟨_, hs.slots.mem hn⟩

/-- Erasing a node from all lists erases it from `pending`. -/
theorem Slots.erased {wheel : TimeWheel} {l : Place EventLink → List Node} {expire : Node → Nat}
    (h : Slots wheel l expire pending) (n : Node) :
    Slots wheel (erased l n) expire (pending.erase n) := by
  constructor
  · intro k hk
    rw [← List.erase_filter, ← h.slot k hk]
    rfl
  · exact fun a ha => h.range a (List.mem_of_mem_erase ha)

/-- The lists outside the wheel do not matter. -/
theorem Slots.elsewhere {wheel : TimeWheel} {l l' : Place EventLink → List Node}
    {expire : Node → Nat} (h : Slots wheel l expire pending)
    (heq : ∀ i, l' (.slot i) = l (.slot i)) : Slots wheel l' expire pending := by
  constructor
  · intro k hk
    rw [heq, h.slot k hk]
  · exact h.range

theorem Slots.congr {wheel : TimeWheel} {l : Place EventLink → List Node} {expire expire' : Node → Nat}
    (h : Slots wheel l expire pending) (heq : ∀ n ∈ pending, expire' n = expire n) :
    Slots wheel l expire' pending := by
  constructor
  · intro k hk
    rw [h.slot k hk]
    apply List.filter_congr
    intro n hn
    rw [heq n hn]
  · intro n hn
    rw [heq n hn]
    exact h.range n hn

theorem erased_eq_self {l : Place EventLink → List Node} {n : Node} (hn : ∀ p, n ∉ l p) :
    erased l n = l := by
  funext p
  exact List.erase_of_not_mem (hn p)

theorem appended_eq {l : Place EventLink → List Node} {n : Node} (hn : ∀ p, n ∉ l p)
    (q : Place EventLink) : appended l q n = Function.update l q (l q ++ [n]) := by
  unfold appended
  rw [if_neg]
  intro h
  obtain ⟨p, hp⟩ := h
  exact hn p hp

theorem stage_of_update {c : Co} {st : Stage} {x : Call}
    (hstage : t.stage = Function.update s.stage c st) (hb : t.Blocked x) :
    s.Blocked x ∨ st = .blocked x := by
  obtain ⟨d, hd⟩ := hb
  rw [hstage] at hd
  by_cases hdc : d = c
  · rw [hdc, Function.update_self] at hd
    exact Or.inr hd
  · rw [Function.update_of_ne hdc] at hd
    exact Or.inl ⟨d, hd⟩

/-- A call that is on its way back has no linked node. -/
theorem LoopInv.back_not_on (h : LoopInv s v) {c : Co} {n : Node} (hc : s.stage c = .back n.call) :
    ¬ v.On n := by
  intro hon
  obtain ⟨d, hd⟩ := h.linked n hon
  have hcd := h.owner_unique (Or.inr hc) (Or.inl hd)
  rw [← hcd, hc] at hd
  cases hd

/-- The address that the next call gets is on no list of waiters. -/
theorem LoopInv.next_not_waiting (h : LoopInv s v) (cv : Nat) : s.next ∉ v.cond cv := by
  intro hin
  have hgone := h.next_fresh (x := .wait s.next) rfl
  exact (h.not_linked hgone).2 s.next ⟨cv, hin⟩ rfl

/-! ## §3. One step. -/

/-! ### Falling asleep. -/

/-- The wheel as a call at `now` finds it, the first use included. -/
theorem SchedulerInv.begin (hs : SchedulerInv s v pending u) (hpos : 0 < now) (hnow : s.now ≤ now) :
    (s.wheel.begin now).Start ≠ 0 ∧ (s.wheel.begin now).Start ≤ now ∧
      toSizeT (s.wheel.begin now).Index ≤ (s.wheel.begin now).Start ∧
      Slots (s.wheel.begin now) v.event (fun n => u.deadline n.call) pending ∧
      u.start.getD now = (s.wheel.begin now).Start ∧
      ∀ n ∈ pending, (s.wheel.begin now).Start < u.deadline n.call := by
  have hslots := hs.slots.begin hs.fresh now
  have hstart := hs.start
  have hle := hs.start_le
  have hindex := hs.index_le
  by_cases h0 : s.wheel.Start = 0
  · have hb : s.wheel.begin now = ⟨now, 0⟩ := if_pos h0
    rw [if_pos h0] at hstart
    rw [hb] at hslots ⊢
    rw [hstart, (hs.fresh h0).2]
    refine ⟨Nat.ne_of_gt hpos, Nat.le_refl _, Nat.zero_le _, ?_, rfl, ?_⟩
    · rw [← (hs.fresh h0).2]
      exact hslots
    · exact fun n hn => absurd hn List.not_mem_nil
  · have hb : s.wheel.begin now = s.wheel := if_neg h0
    rw [if_neg h0] at hstart
    rw [hb, hstart]
    exact ⟨h0, Nat.le_trans hle hnow, hindex, hs.slots, rfl, hs.later⟩

/-- **A call that is turned down** has started the clock, if anything. -/
theorem SchedulerInv.refused (hs : SchedulerInv s v pending u) (hpos : 0 < now) (hnow : s.now ≤ now)
    (hwheel : t.wheel = s.wheel.begin now) (htnow : t.now = now) (hresumed : t.resumed = s.resumed)
    (hpolls : t.polls = s.polls) (hitems : t.items = s.items) (hstage : t.stage = s.stage)
    (hphase : t.phase = s.phase) : SchedulerInv t v pending (u.begin now) := by
  obtain ⟨h0, hle, hindex, hslots, hstart, hlater⟩ := hs.begin hpos hnow
  have hexp : ∀ x, t.expireTime x = s.expireTime x := by
    intro x
    cases x <;> simp only [Loop.expireTime, hpolls, hitems]
  constructor
  case ready => exact hs.ready
  case waiting => exact hs.waiting
  case dispatched =>
    rw [hresumed]
    exact hs.dispatched
  case sleeping => exact hs.sleeping
  case start =>
    show some (u.start.getD now) = _
    rw [hwheel, if_neg h0, hstart]
  case slots =>
    rw [hwheel]
    exact hslots
  case linked => exact hs.linked
  -- the wheel has begun, if it had not before
  case fresh =>
    intro hz
    rw [hwheel] at hz
    exact absurd hz h0
  case start_le =>
    rw [hwheel, htnow]
    exact hle
  case index_le =>
    rw [hwheel]
    exact hindex
  case later =>
    rw [hwheel]
    exact hlater
  case whole => exact hs.whole
  case known =>
    intro n hn
    rw [hexp]
    exact hs.known n hn
  case ordered => exact hs.ordered
  case asleep =>
    intro k p hp hb hh
    rw [hpolls] at hp
    unfold Loop.Blocked at hb
    rw [hstage] at hb
    exact hs.asleep k p hp hb hh
  case drained =>
    rw [hphase]
    exact hs.drained

/-- The checks of `AddTimeOut`, and the slot it takes, in terms of the time that is left. -/
theorem accepts_iff_lt {wheel : TimeWheel} {d : Nat} (hstart : (wheel.begin now).Start ≤ now)
    (hd : now ≤ d) (hlt : d < 2 ^ 63) :
    wheel.Accepts now d ↔ d < (wheel.begin now).Start + defaultSize := by
  unfold TimeWheel.Accepts
  have hcast : (d - (wheel.begin now).Start : Int) = ((d - (wheel.begin now).Start : Nat) : Int) := by
    omega
  rw [hcast, toInt64_of_lt (by omega)]
  omega

/-- The slot of a deadline is as far ahead as the deadline. -/
theorem deadlineSlot_eq {wheel : TimeWheel} {d : Nat} (hstart : (wheel.begin now).Start ≤ now)
    (hindex : toSizeT (wheel.begin now).Index ≤ (wheel.begin now).Start) (hd : now ≤ d)
    (hlt : d < 2 ^ 63) :
    wheel.deadlineSlot now d = (wheel.begin now).ahead (d - (wheel.begin now).Start) := by
  unfold TimeWheel.deadlineSlot
  have hcast : (d - (wheel.begin now).Start : Int) = ((d - (wheel.begin now).Start : Nat) : Int) := by
    omega
  rw [hcast, toInt64_of_lt (by omega)]
  exact TimeWheel.slotOf_ahead (by omega)

/-- **A call that is accepted** falls asleep. -/
theorem SchedulerInv.fallAsleep (hs : SchedulerInv s v pending u) (h : LoopInv s v) (hpos : 0 < now)
    (hnow : s.now ≤ now) {n : Node} {d : Nat} (hn : n.call.addr = s.next)
    (hwhole : ∀ k i, n ≠ .item k i) (hd : now < d) (hlt : d < 2 ^ 63)
    (haccepts : s.wheel.Accepts now d) (hwheel : t.wheel = s.wheel.begin now) (htnow : t.now = now)
    (hresumed : t.resumed = s.resumed) (hphase : t.phase = s.phase)
    (hexp : t.expireTime n.call = some d)
    (hexp' : ∀ x : Call, x.addr ≠ s.next → t.expireTime x = s.expireTime x)
    (hpolls : ∀ k p, t.polls k = some p → t.Blocked (.poll k) →
      n = .poll k ∨ s.polls k = some p ∧ s.Blocked (.poll k)) :
    SchedulerInv t { v with event := appended v.event (.slot (s.wheel.deadlineSlot now d)) n }
      (pending ++ [n]) ((u.begin now).fallAsleep n.call d) := by
  obtain ⟨h0, hle, hindex, hslots, hstart, hlater⟩ := hs.begin hpos hnow
  have hnot := h.next_not_linked hn
  have hout : n ∉ pending := fun hin => hnot _ (hs.slots.mem hin)
  -- a call that sleeps already is older
  have hold : ∀ m ∈ pending, m.call.addr < s.next := by
    intro m hm
    exact h.fresh _ (h.blocked_live (h.linked m (hs.on hm))).1
  have hcall : ∀ m ∈ pending, m.call ≠ n.call := by
    intro m hm heq
    have := hold m hm
    rw [heq] at this
    omega
  have hbound := (accepts_iff_lt hle (Nat.le_of_lt hd) hlt).mp haccepts
  have hslot := deadlineSlot_eq hle hindex (Nat.le_of_lt hd) hlt
  have hdead : ∀ m ∈ pending, Function.update u.deadline n.call d m.call = u.deadline m.call :=
    fun m hm => Function.update_of_ne (hcall m hm) _ _
  have hsame : Function.update u.deadline n.call d n.call = d := Function.update_self _ _ _
  have hplace : ∀ o, appended v.event (.slot (s.wheel.deadlineSlot now d)) n (.other o) =
      v.event (.other o) := fun o => appended_same (by simp)
  constructor
  case ready =>
    show u.ready = (appended v.event _ n activeLink).map Node.call
    rw [hplace]
    exact hs.ready
  case waiting => exact hs.waiting
  case dispatched =>
    rw [hresumed]
    exact hs.dispatched
  case sleeping =>
    show u.sleeping ++ [n.call] = _
    rw [hs.sleeping, List.map_append]
    rfl
  case start =>
    show some (u.start.getD now) = _
    rw [hwheel, if_neg h0, hstart]
  case slots =>
    have hadd := hslots.add (k := d - (s.wheel.begin now).Start) (by omega) hout
    have hdeadline : (s.wheel.begin now).Start + (d - (s.wheel.begin now).Start) = d := by omega
    rw [hdeadline, ← hslot, ← appended_eq hnot] at hadd
    rw [hwheel]
    -- one deadline for a node and for its call
    apply hadd.congr
    intro m hm
    show Function.update u.deadline n.call d m.call = _
    cases List.mem_append.mp hm with
    | inl hin =>
        have hne : m ≠ n := fun heq => hout (heq ▸ hin)
        rw [hdead m hin, Function.update_of_ne hne]
    | inr hin => rw [List.mem_singleton.mp hin, hsame, Function.update_self]
  case linked =>
    intro i m hm
    cases mem_appended.mp hm with
    | inl hin => exact List.mem_append_left _ (hs.linked i m hin)
    | inr hnew => exact List.mem_append_right _ (List.mem_singleton.mpr hnew.1)
  case fresh =>
    intro hz
    rw [hwheel] at hz
    exact absurd hz h0
  case start_le =>
    rw [hwheel, htnow]
    exact hle
  case index_le =>
    rw [hwheel]
    exact hindex
  case later =>
    intro m hm
    show _ < Function.update u.deadline n.call d m.call
    rw [hwheel]
    cases List.mem_append.mp hm with
    | inl hin =>
        rw [hdead m hin]
        exact hlater m hin
    | inr hin =>
        rw [List.mem_singleton.mp hin, hsame]
        omega
  case whole =>
    intro k i hin
    cases List.mem_append.mp hin with
    | inl hin => exact hs.whole k i hin
    | inr hin => exact hwhole k i (List.mem_singleton.mp hin).symm
  case known =>
    intro m hm
    show _ = some (Function.update u.deadline n.call d m.call)
    cases List.mem_append.mp hm with
    | inl hin =>
        have := hold m hin
        rw [hdead m hin, hexp' _ (by omega)]
        exact hs.known m hin
    | inr hin =>
        rw [List.mem_singleton.mp hin, hsame]
        exact hexp
  case ordered =>
    apply List.pairwise_append.mpr
    refine ⟨hs.ordered, List.pairwise_singleton _ _, ?_⟩
    intro m hm x hx
    rw [List.mem_singleton.mp hx, hn]
    exact hold m hm
  case asleep =>
    intro k p hp hb hh
    show _ ∨ _ ∈ appended v.event _ n activeLink
    rw [hplace]
    cases hpolls k p hp hb with
    | inl heq =>
        rw [heq]
        exact Or.inl (List.mem_append_right _ List.mem_cons_self)
    | inr holds =>
        exact (hs.asleep k p holds.1 holds.2 hh).imp_left fun hin => List.mem_append_left _ hin
  case drained =>
    intro hne k
    rw [hphase] at hne
    show _ ∉ appended v.event _ n activeLink
    rw [hplace]
    exact hs.drained hne k

/-! ### Getting ready. -/

/-- **A waiter that is popped** goes to the end of the queue, from wherever it is. -/
theorem SchedulerInv.rouse (hs : SchedulerInv s v pending u) (hnd : ∀ p, (v.event p).Nodup)
    (k : Nat) :
    SchedulerInv s { v with event := woken v.event k } (pending.erase (.cond k))
      (u.rouse (.wait k)) := by
  have hslot : ∀ i, woken v.event k (.slot i) = erased v.event (.cond k) (.slot i) := by
    intro i
    rw [woken_eq hnd, Function.update_of_ne (by simp)]
  have hactive : woken v.event k activeLink = erased v.event (.cond k) activeLink ++ [.cond k] := by
    rw [woken_eq hnd, Function.update_self]
  have hpoll : ∀ j, Node.poll j ∈ woken v.event k activeLink ↔ .poll j ∈ v.event activeLink := by
    intro j
    rw [mem_woken hnd]
    simp
  constructor
  case ready =>
    show u.ready.erase (.wait k) ++ [.wait k] = (woken v.event k activeLink).map Node.call
    rw [hactive, List.map_append, hs.ready]
    have hmap := map_erase (f := Node.call) (a := .cond k) (l := v.event activeLink)
      fun m _ => Node.eq_cond
    exact congrArg (· ++ [Call.wait k]) hmap.symm
  case waiting => exact hs.waiting
  case dispatched => exact hs.dispatched
  case sleeping =>
    show u.sleeping.erase (.wait k) = _
    rw [hs.sleeping]
    exact (map_erase (f := Node.call) (a := .cond k) fun m _ => Node.eq_cond).symm
  case start => exact hs.start
  case slots => exact (hs.slots.erased (.cond k)).elsewhere hslot
  case linked =>
    intro i n hn
    have hn' : n ∈ erased v.event (.cond k) (.slot i) := by
      rw [← hslot]
      exact hn
    exact mem_erase_of_mem_erase (hnd _) hn' (hs.linked i)
  case fresh =>
    intro hz
    obtain ⟨hi, hp⟩ := hs.fresh hz
    refine ⟨hi, ?_⟩
    rw [hp]
    rfl
  case start_le => exact hs.start_le
  case index_le => exact hs.index_le
  case later => exact fun n hn => hs.later n (List.mem_of_mem_erase hn)
  case whole => exact fun j i hin => hs.whole j i (List.mem_of_mem_erase hin)
  case known => exact fun n hn => hs.known n (List.mem_of_mem_erase hn)
  case ordered => exact hs.ordered.sublist List.erase_sublist
  case asleep =>
    intro j p hp hb hh
    refine (hs.asleep j p hp hb hh).imp (fun hin => ?_) (hpoll j).mpr
    exact (List.mem_erase_of_ne (by simp)).mpr hin
  case drained =>
    intro hne j hin
    exact hs.drained hne j ((hpoll j).mp hin)

/-- The whole list of a broadcast. -/
theorem SchedulerInv.rouse_all : ∀ (ks : List Nat) {v : Lists} {pending : List Node}
    {u : Scheduler Call Nat}, SchedulerInv s v pending u → (∀ p, (v.event p).Nodup) →
    ∃ pending', SchedulerInv s { v with event := ks.foldl woken v.event } pending'
      ((ks.map Call.wait).foldl Scheduler.rouse u) := by
  intro ks
  induction ks with
  | nil =>
      intro v pending u hs hnd
      exact ⟨pending, hs⟩
  | cons k ks ih =>
      intro v pending u hs hnd
      exact ih (hs.rouse hnd k) fun p => nodup_woken hnd p

theorem expireTime_update {k : Nat} {p p' : Stpoll} (hp : s.polls k = some p)
    (hpolls : t.polls = Function.update s.polls k (some p')) (hitems : t.items = s.items)
    (hexp : p'.ExpireTime = p.ExpireTime) (x : Call) : t.expireTime x = s.expireTime x := by
  cases x with
  | poll j =>
      by_cases hj : j = k
      · simp only [Loop.expireTime, hpolls, hj, Function.update_self, hp, Option.map_some, hexp]
      · simp only [Loop.expireTime, hpolls, Function.update_of_ne hj]
  | wait j => simp only [Loop.expireTime, hitems]

/-- **The first event of a poll** takes it off the wheel and puts its item in the queue. -/
theorem SchedulerInv.wake (hs : SchedulerInv s v pending u) (h : LoopInv s v) {k i : Nat}
    {p p' : Stpoll} (hphase : s.phase ≠ .drain) (hp : s.polls k = some p)
    (hb : s.Blocked (.poll k)) (hhandled : p.IsHandle = false)
    (hpolls : t.polls = Function.update s.polls k (some p')) (hhandled' : p'.IsHandle = true)
    (hexp : p'.ExpireTime = p.ExpireTime) (hitems : t.items = s.items)
    (hstage : t.stage = s.stage) (hwheel : t.wheel = s.wheel) (hnow : t.now = s.now)
    (hresumed : t.resumed = s.resumed) :
    SchedulerInv t { v with event := appended (erased v.event (.poll k)) activeLink (.item k i) }
      (pending.erase (.poll k)) (u.apply defaultSize (.wake (.poll k))) := by
  have hnot := hs.drained hphase
  have hin : Node.poll k ∈ pending := (hs.asleep k p hp hb hhandled).resolve_right (hnot k)
  have hout : ∀ q, Node.item k i ∉ erased v.event (.poll k) q := by
    intro q hq
    exact h.unhandled k p i hp hhandled ⟨q, on_erased hq⟩
  -- `CoPrepare_` takes the poll off its slot and puts the item at the end
  have hactive : appended (erased v.event (.poll k)) activeLink (.item k i) activeLink =
      v.event activeLink ++ [.item k i] := by
    rw [appended_eq hout, Function.update_self]
    show (v.event activeLink).erase (.poll k) ++ _ = _
    rw [List.erase_of_not_mem (hnot k)]
  have happly : u.apply defaultSize (.wake (.poll k)) =
      { u with sleeping := u.sleeping.erase (.poll k), ready := u.ready ++ [.poll k] } :=
    if_pos (hs.mem_sleeping.mpr hin)
  rw [happly]
  constructor
  case ready =>
    show u.ready ++ [.poll k] = (appended _ activeLink _ activeLink).map Node.call
    rw [hactive, List.map_append, hs.ready]
    rfl
  case waiting => exact hs.waiting
  case dispatched =>
    rw [hresumed]
    exact hs.dispatched
  case sleeping =>
    show u.sleeping.erase (.poll k) = _
    rw [hs.sleeping]
    exact (map_erase (f := Node.call) (a := .poll k) fun m hm => hs.eq_poll hm).symm
  case start =>
    rw [hwheel]
    exact hs.start
  case slots =>
    rw [hwheel]
    exact (hs.slots.erased (.poll k)).elsewhere fun j => appended_same (by simp)
  case linked =>
    intro j n hn
    have hn' : n ∈ erased v.event (.poll k) (.slot j) := by
      have hsame : appended (erased v.event (.poll k)) activeLink (.item k i) (.slot j) =
          erased v.event (.poll k) (.slot j) := appended_same (by simp)
      rw [← hsame]
      exact hn
    exact mem_erase_of_mem_erase (h.rep.links.nodup _) hn' (hs.linked j)
  case fresh =>
    intro hz
    rw [hwheel] at hz ⊢
    obtain ⟨hi, hempty⟩ := hs.fresh hz
    rw [hempty] at hin
    cases hin
  case start_le =>
    rw [hwheel, hnow]
    exact hs.start_le
  case index_le =>
    rw [hwheel]
    exact hs.index_le
  case later =>
    intro n hn
    rw [hwheel]
    exact hs.later n (List.mem_of_mem_erase hn)
  case whole => exact fun j i' hin => hs.whole j i' (List.mem_of_mem_erase hin)
  case known =>
    intro n hn
    rw [expireTime_update hp hpolls hitems hexp]
    exact hs.known n (List.mem_of_mem_erase hn)
  case ordered => exact hs.ordered.sublist List.erase_sublist
  -- the other polls sleep as before, and `k` is marked as handled
  case asleep =>
    intro j q hq hb hh
    rw [hpolls] at hq
    have hj : j ≠ k := by
      intro heq
      rw [heq, Function.update_self] at hq
      rw [← Option.some.inj hq, hhandled'] at hh
      cases hh
    rw [Function.update_of_ne hj] at hq
    unfold Loop.Blocked at hb
    rw [hstage] at hb
    refine (hs.asleep j q hq hb hh).imp (fun hin => ?_) fun hin => absurd hin (hnot j)
    exact (List.mem_erase_of_ne fun heq => hj (Node.poll.inj heq)).mpr hin
  case drained =>
    intro _ j hj
    have hj' : Node.poll j ∈ v.event activeLink ++ [.item k i] := by
      rw [← hactive]
      exact hj
    cases List.mem_append.mp hj' with
    | inl hin => exact hnot j hin
    | inr hnew => cases List.mem_singleton.mp hnew

/-! ### The clock. -/

/-- The link fields determine the lists. -/
theorem Represents.unique (hv : Represents s v) (hw : Represents s w) : v = w := by
  have hevent : v.event = w.event := by
    funext p
    rw [← hv.links.items, ← hw.links.items]
  have hcond : v.cond = w.cond := by
    funext cv
    rw [← hv.conds.items, ← hw.conds.items]
  cases v
  cases w
  cases hevent
  cases hcond
  rfl

/-- A take-out that does not misjudge the time visits the slots it should. -/
theorem takeOut_exact (hr : Represents s v) (hstart : (s.wheel.begin now).Start ≤ now)
    (htime : (s.wheel.begin now).InTime now) (ht : takeOut s now = some t) {n : Nat}
    (hn : n = min (now - (s.wheel.begin now).Start + 1) defaultSize) :
    t.wheel = ⟨now, toInt64 ((s.wheel.begin now).Index + ((n : Int) - 1))⟩ ∧
      Represents t { v with
        event := expired v.event
          ((List.range n).map fun j => slotOf ((s.wheel.begin now).Index + (j : Nat))) } := by
  have hdrained := (TimeWheel.drained_eq_iff hstart).mpr htime
  rw [← hn] at hdrained
  have hle : (s.wheel.begin now).drained defaultSize now ≤ defaultSize := by omega
  have hne : activeLink ≠ timeoutLink := by decide
  obtain ⟨links, htake, hr₁⟩ :=
    takeOutTimeoutIn_spec hr.links s.wheel now EventLink.TimeoutLink hle
  have hpos : ¬ n = 0 := by
    rw [hn]
    unfold defaultSize
    omega
  rw [takeOutTimeoutIn_default, hdrained, if_neg hpos] at htake
  rw [hdrained] at hr₁
  obtain ⟨links', hjoin, hr₂⟩ := hr₁.join hne
  unfold takeOut at ht
  rw [htake] at ht
  dsimp only at ht
  rw [hjoin, Option.map_some] at ht
  rw [← Option.some.inj ht]
  exact ⟨rfl, hr₂, hr.conds⟩

/-- Sorting nodes by the deadlines of their calls is sorting the calls. -/
theorem map_sortByKey {α β : Type*} (f : α → β) (key : β → Nat) (l : List α) :
    (sortByKey (fun a => key (f a)) l).map f = sortByKey key (l.map f) :=
  List.map_insertionSort _ _ f l fun _ _ _ _ => Iff.rfl

/-- **A take-out** makes ready what is due, sorted. -/
theorem SchedulerInv.tick (hs : SchedulerInv s v pending u) (hempty : v.event timeoutLink = [])
    (hpos : 0 < now) (hnow : s.now ≤ now) (hlt : now < clockMax) {n : Nat}
    (hn : n = min (now - (s.wheel.begin now).Start + 1) defaultSize)
    (hwheel : t.wheel = ⟨now, toInt64 ((s.wheel.begin now).Index + ((n : Int) - 1))⟩)
    (htnow : t.now = now) (hphase : t.phase = .drain) (hresumed : t.resumed = s.resumed)
    (hpolls : t.polls = s.polls) (hitems : t.items = s.items) (hstage : t.stage = s.stage)
    (hrep : Represents t { v with
      event := expired v.event
        ((List.range n).map fun j => slotOf ((s.wheel.begin now).Index + (j : Nat))) }) :
    SchedulerInv t { v with
        event := expired v.event
          ((List.range n).map fun j => slotOf ((s.wheel.begin now).Index + (j : Nat))) }
      (pending.filter fun m => now < u.deadline m.call) (u.apply defaultSize (.tick now)) := by
  obtain ⟨-, hle, hindex, hslots, -, -⟩ := hs.begin hpos hnow
  have hlt64 : now < 2 ^ 64 := Nat.lt_trans hlt (by decide)
  obtain ⟨l, hl, hindex', hout, hslots'⟩ :=
    hslots.take EventLink.TimeoutLink hindex hle hlt64 hn
  obtain ⟨-, hmoves, hother⟩ := foldl_joined_moves EventLink.TimeoutLink
    ((List.range n).map fun j => slotOf ((s.wheel.begin now).Index + (j : Nat))) v.event
  have hactive : ∀ js, (∀ o, o ≠ EventLink.TimeoutLink →
      js.foldl (joined .TimeoutLink) v.event (.other o) = v.event (.other o)) →
      expired v.event js activeLink =
        v.event activeLink ++ js.foldl (joined .TimeoutLink) v.event timeoutLink := by
    intro js hjs
    have hne : activeLink ≠ timeoutLink := by decide
    unfold expired
    rw [Function.update_of_ne hne, Function.update_self, hjs .ActiveLink (by decide)]
  have hready := hactive _ hother
  rw [← hl, hout, hempty, List.nil_append] at hready
  have hexp : ∀ x, t.expireTime x = s.expireTime x := by
    intro x
    cases x <;> simp only [Loop.expireTime, hpolls, hitems]
  have hfilter : ∀ p : Nat → Bool, (pending.filter fun m => p (u.deadline m.call)).map Node.call =
      u.sleeping.filter fun x => p (u.deadline x) := by
    intro p
    rw [hs.sleeping, List.filter_map]
    rfl
  constructor
  case ready =>
    show u.ready ++ u.due now = (expired v.event _ activeLink).map Node.call
    rw [hready, List.map_append, hs.ready, map_sortByKey Node.call,
      hfilter fun d => decide (d ≤ now)]
    rfl
  case waiting => exact hs.waiting
  case dispatched =>
    rw [hresumed]
    exact hs.dispatched
  case sleeping => exact (hfilter fun d => decide (now < d)).symm
  case start =>
    rw [hwheel, if_neg (Nat.ne_of_gt hpos)]
    rfl
  case slots =>
    rw [hwheel]
    apply hslots'.elsewhere
    intro i
    rw [hl]
    show expired v.event _ (.slot i) = _
    unfold expired
    rw [Function.update_of_ne (by simp), Function.update_of_ne (by simp)]
  case linked =>
    intro i m hm
    have hin : m ∈ pending := by
      have hm' := expired_slot hm
      cases hmoves i with
      | inl hempty =>
          rw [hempty] at hm'
          cases hm'
      | inr hsame =>
          rw [hsame] at hm'
          exact hs.linked i m hm'
    -- what is due is on `ActiveLink` now
    refine List.mem_filter.mpr ⟨hin, decide_eq_true (Nat.not_le.mp fun hdue => ?_)⟩
    have hm' : m ∈ expired v.event
        ((List.range n).map fun j => slotOf ((s.wheel.begin now).Index + (j : Nat))) activeLink := by
      rw [hready]
      refine List.mem_append_right _ ?_
      unfold sortByKey
      rw [List.mem_insertionSort]
      exact List.mem_filter.mpr ⟨hin, decide_eq_true hdue⟩
    have heq : activeLink = .slot i := hrep.links.unique hm' hm
    cases heq
  case fresh =>
    intro hz
    rw [hwheel] at hz
    exact absurd hz (Nat.ne_of_gt hpos)
  case start_le =>
    rw [hwheel, htnow]
  case index_le =>
    rw [hwheel]
    exact hindex'
  case later =>
    intro m hm
    rw [hwheel]
    exact of_decide_eq_true (List.mem_filter.mp hm).2
  case whole => exact fun k i hin => hs.whole k i (List.mem_filter.mp hin).1
  case known =>
    intro m hm
    rw [hexp]
    exact hs.known m (List.mem_filter.mp hm).1
  case ordered => exact hs.ordered.sublist List.filter_sublist
  case asleep =>
    intro k p hp hb hh
    rw [hpolls] at hp
    unfold Loop.Blocked at hb
    rw [hstage] at hb
    show _ ∨ _ ∈ expired v.event _ activeLink
    rw [hready]
    cases hs.asleep k p hp hb hh with
    | inr hin => exact Or.inr (List.mem_append_left _ hin)
    | inl hin =>
        by_cases hdue : u.deadline (.poll k) ≤ now
        · refine Or.inr (List.mem_append_right _ ?_)
          unfold sortByKey
          rw [List.mem_insertionSort]
          exact List.mem_filter.mpr ⟨hin, decide_eq_true hdue⟩
        · exact Or.inl (List.mem_filter.mpr ⟨hin, decide_eq_true (Nat.not_le.mp hdue)⟩)
  case drained => exact fun hne => absurd hphase hne

/-! ### Every step. -/

/-- Other entries of the log are no resumes. -/
theorem resumed_append {es : List Event} (hlog : t.log = s.log ++ es)
    (hes : es.filterMap Event.call? = []) : t.resumed = s.resumed := by
  unfold Loop.resumed
  rw [hlog, List.filterMap_append, hes, List.append_nil]

/-- The wheel and the scheduler accept the same deadlines. -/
theorem SchedulerInv.accepts_iff (hs : SchedulerInv s v pending u) (hpos : 0 < now)
    (hnow : s.now ≤ now) {d : Nat} (hd : now < d) (hlt : d < 2 ^ 63) :
    s.wheel.Accepts now d ↔ u.Accepts defaultSize d now := by
  obtain ⟨-, hle, -, -, hstart, -⟩ := hs.begin hpos hnow
  rw [accepts_iff_lt hle (Nat.le_of_lt hd) hlt]
  unfold Scheduler.Accepts
  rw [hstart]

/-- A deadline does not wrap. -/
theorem toSizeT_deadline {timeout : Int} (hlt : now < clockMax) (h0 : 0 < timeout)
    (hint : timeout ≤ int32Max) : toSizeT (now + timeout) = now + timeout.toNat ∧
      now < now + timeout.toNat ∧ now + timeout.toNat < 2 ^ 63 := by
  unfold clockMax at hlt
  unfold int32Max at hint
  unfold toSizeT
  omega

/-- The lists of waiters are tied to nothing else. -/
theorem SchedulerInv.rewait (hs : SchedulerInv s v pending u) {l : Nat → List Nat}
    {waiting : Nat → List Call} (hwaiting : ∀ cv, waiting cv = (l cv).map Call.wait) :
    SchedulerInv s { v with cond := l } pending { u with waiting } where
  ready := hs.ready
  waiting := hwaiting
  dispatched := hs.dispatched
  sleeping := hs.sleeping
  start := hs.start
  slots := hs.slots
  linked := hs.linked
  fresh := hs.fresh
  start_le := hs.start_le
  index_le := hs.index_le
  later := hs.later
  whole := hs.whole
  known := hs.known
  ordered := hs.ordered
  asleep := hs.asleep
  drained := hs.drained

/-- One list of waiters changes. -/
theorem SchedulerInv.waiting_update (hs : SchedulerInv s v pending u) (cv : Nat) (ks : List Nat)
    (cv' : Nat) : Function.update u.waiting cv (ks.map Call.wait) cv' =
      (Function.update v.cond cv ks cv').map Call.wait := by
  by_cases hcv : cv' = cv
  · rw [hcv, Function.update_self, Function.update_self]
  · rw [Function.update_of_ne hcv, Function.update_of_ne hcv, hs.waiting]

/-- One more waiter. -/
theorem SchedulerInv.enqueue (hs : SchedulerInv s v pending u) {cv k : Nat}
    (hout : ∀ cv, k ∉ v.cond cv) :
    SchedulerInv s { v with cond := appended v.cond cv k } pending (u.enqueue cv (.wait k)) := by
  have happ : appended v.cond cv k = Function.update v.cond cv (v.cond cv ++ [k]) := by
    unfold appended
    exact if_neg fun hin => hin.elim hout
  have hlist : u.waiting cv ++ [.wait k] = (v.cond cv ++ [k]).map Call.wait := by
    rw [hs.waiting, List.map_append]
    rfl
  unfold Scheduler.enqueue
  rw [happ, hlist]
  exact hs.rewait (hs.waiting_update cv _)

/-- The scheduler's lists and the loop's, when only the stages, the phase and the records of calls that do
not sleep have changed. -/
theorem SchedulerInv.quiet (hs : SchedulerInv s v pending u) (hwheel : t.wheel = s.wheel)
    (hnow : t.now = s.now) (hresumed : t.resumed = s.resumed)
    (hexp : ∀ n ∈ pending, t.expireTime n.call = s.expireTime n.call)
    (hpolls : ∀ k p, t.polls k = some p → t.Blocked (.poll k) → p.IsHandle = false →
      s.polls k = some p ∧ s.Blocked (.poll k))
    (hphase : t.phase ≠ .drain → s.phase ≠ .drain ∨ v.event activeLink = []) :
    SchedulerInv t v pending u where
  ready := hs.ready
  waiting := hs.waiting
  dispatched := hresumed ▸ hs.dispatched
  sleeping := hs.sleeping
  start := hwheel ▸ hs.start
  slots := hwheel ▸ hs.slots
  linked := hs.linked
  fresh := hwheel ▸ hs.fresh
  start_le := by
    rw [hwheel, hnow]
    exact hs.start_le
  index_le := hwheel ▸ hs.index_le
  later := hwheel ▸ hs.later
  whole := hs.whole
  known := by
    intro n hn
    rw [hexp n hn]
    exact hs.known n hn
  ordered := hs.ordered
  asleep := by
    intro k p hp hb hh
    obtain ⟨hp', hb'⟩ := hpolls k p hp hb hh
    exact hs.asleep k p hp' hb' hh
  drained := by
    intro hne k
    cases hphase hne with
    | inl hne => exact hs.drained hne k
    | inr hempty =>
        rw [hempty]
        exact List.not_mem_nil

/-- A poll that is accepted. -/
theorem SchedulerInv.poll_blocks (hs : SchedulerInv s v pending u) (h : LoopInv s v) {c : Co}
    {fds : List PollFd} {d : Nat} (hpos : 0 < now) (hnow : s.now ≤ now) (hd : now < d)
    (hlt : d < 2 ^ 63) (haccepts : s.wheel.Accepts now d) (hwheel : t.wheel = s.wheel.begin now)
    (htnow : t.now = now) (hlog : t.log = s.log) (hphase : t.phase = s.phase)
    (hpolls : t.polls = Function.update s.polls s.next (some ⟨c, fds, d, false, 0⟩))
    (hitems : t.items = s.items)
    (hstage : t.stage = Function.update s.stage c (.blocked (.poll s.next))) :
    SchedulerInv t
      { v with event := appended v.event (.slot (s.wheel.deadlineSlot now d)) (.poll s.next) }
      (pending ++ [.poll s.next]) ((u.begin now).fallAsleep (.poll s.next) d) := by
  have hresumed : t.resumed = s.resumed := by
    unfold Loop.resumed
    rw [hlog]
  have hexp : t.expireTime (.poll s.next) = some d := by
    simp only [Loop.expireTime, hpolls, Function.update_self, Option.map_some]
  refine hs.fallAsleep h hpos hnow rfl (by simp) hd hlt haccepts hwheel htnow hresumed hphase hexp
    ?_ ?_
  · intro x hx
    cases x with
    | poll k =>
        have hk : k ≠ s.next := hx
        simp only [Loop.expireTime, hpolls, Function.update_of_ne hk]
    | wait k => simp only [Loop.expireTime, hitems]
  · intro k p hp hb
    by_cases hk : k = s.next
    · rw [hk]
      exact Or.inl rfl
    · rw [hpolls, Function.update_of_ne hk] at hp
      refine Or.inr ⟨hp, (stage_of_update hstage hb).resolve_right fun heq => ?_⟩
      cases heq
      exact hk rfl

/-- A timed wait that is accepted. -/
theorem SchedulerInv.wait_blocks (hs : SchedulerInv s v pending u) (h : LoopInv s v) {c : Co}
    {cv d : Nat} (hpos : 0 < now) (hnow : s.now ≤ now) (hd : now < d) (hlt : d < 2 ^ 63)
    (haccepts : s.wheel.Accepts now d) (hwheel : t.wheel = s.wheel.begin now) (htnow : t.now = now)
    (hlog : t.log = s.log ++ [.waited cv s.next]) (hphase : t.phase = s.phase)
    (hpolls : t.polls = s.polls)
    (hitems : t.items = Function.update s.items s.next (some ⟨c, d⟩))
    (hstage : t.stage = Function.update s.stage c (.blocked (.wait s.next))) :
    SchedulerInv t
      { event := appended v.event (.slot (s.wheel.deadlineSlot now d)) (.cond s.next)
        cond := appended v.cond cv s.next }
      (pending ++ [.cond s.next])
      (((u.begin now).fallAsleep (.wait s.next) d).enqueue cv (.wait s.next)) := by
  have hexp : t.expireTime (.wait s.next) = some d := by
    simp only [Loop.expireTime, hitems, Function.update_self, Option.map_some]
  have hasleep := hs.fallAsleep h (n := .cond s.next) (t := t) hpos hnow rfl (by simp) hd hlt
    haccepts hwheel htnow (resumed_append hlog rfl) hphase hexp ?_ ?_
  · exact hasleep.enqueue h.next_not_waiting
  · intro x hx
    cases x with
    | poll k => simp only [Loop.expireTime, hpolls]
    | wait k =>
        have hk : k ≠ s.next := hx
        simp only [Loop.expireTime, hitems, Function.update_of_ne hk]
  · intro k p hp hb
    rw [hpolls] at hp
    exact Or.inr ⟨hp, (stage_of_update hstage hb).resolve_right (by simp)⟩

/-- A wait without a deadline. -/
theorem SchedulerInv.wait_untimed (hs : SchedulerInv s v pending u) (h : LoopInv s v) {c : Co}
    {cv : Nat} {item : CondItem} (hwheel : t.wheel = s.wheel) (hnow : t.now = s.now)
    (hlog : t.log = s.log ++ [.waited cv s.next]) (hphase : t.phase = s.phase)
    (hpolls : t.polls = s.polls) (hitems : t.items = Function.update s.items s.next (some item))
    (hstage : t.stage = Function.update s.stage c (.blocked (.wait s.next))) :
    SchedulerInv t { v with cond := appended v.cond cv s.next } pending
      (u.enqueue cv (.wait s.next)) := by
  have hquiet := hs.quiet hwheel hnow (resumed_append hlog rfl) ?_ ?_ fun hne => Or.inl (hphase ▸ hne)
  · exact hquiet.enqueue h.next_not_waiting
  · intro n hn
    have hlive := (h.blocked_live (h.linked n (hs.on hn))).1
    cases hx : n.call with
    | poll k => simp only [Loop.expireTime, hpolls]
    | wait k =>
        have hk : k ≠ s.next := by
          intro heq
          rw [hx] at hlive
          exact hlive (h.next_fresh heq)
        simp only [Loop.expireTime, hitems, Function.update_of_ne hk]
  · intro k p hp hb _
    rw [hpolls] at hp
    exact ⟨hp, (stage_of_update hstage hb).resolve_right (by simp)⟩

/-- **A turn of the drain** dispatches the first call in the queue. -/
theorem SchedulerInv.dispatch (hs : SchedulerInv s v pending u) {n : Node} {ns : List Node}
    (hactive : v.event activeLink = n :: ns) (hwheel : t.wheel = s.wheel) (hnow : t.now = s.now)
    (hphase : t.phase = s.phase) (hresumed : t.resumed = s.resumed ++ [n.call])
    (hpolls : t.polls = s.polls) (hitems : t.items = s.items)
    (hblocked : ∀ k, t.Blocked (.poll k) → s.Blocked (.poll k) ∧ Call.poll k ≠ n.call)
    (hdrain : s.phase = .drain) :
    SchedulerInv t { v with event := Function.update v.event activeLink ns } pending
      { u with ready := ns.map Node.call, dispatched := u.dispatched ++ [n.call] } where
  ready := by
    dsimp only
    rw [Function.update_self]
  waiting := hs.waiting
  dispatched := by
    rw [hresumed, ← hs.dispatched]
  sleeping := hs.sleeping
  start := hwheel ▸ hs.start
  slots := by
    rw [hwheel]
    apply hs.slots.elsewhere
    intro i
    dsimp only
    rw [Function.update_of_ne (by simp)]
  linked := by
    intro i n hn
    dsimp only at hn
    rw [Function.update_of_ne (by simp)] at hn
    exact hs.linked i n hn
  fresh := hwheel ▸ hs.fresh
  start_le := by
    rw [hwheel, hnow]
    exact hs.start_le
  index_le := hwheel ▸ hs.index_le
  later := hwheel ▸ hs.later
  whole := hs.whole
  known := by
    intro m hm
    have hexp : t.expireTime m.call = s.expireTime m.call := by
      cases m.call <;> simp only [Loop.expireTime, hpolls, hitems]
    rw [hexp]
    exact hs.known m hm
  ordered := hs.ordered
  asleep := by
    intro k p hp hb hh
    obtain ⟨hb', hne⟩ := hblocked k hb
    rw [hpolls] at hp
    refine (hs.asleep k p hp hb' hh).imp_right fun hin => ?_
    dsimp only
    rw [Function.update_self]
    rw [hactive] at hin
    exact (List.mem_cons.mp hin).resolve_left fun heq => hne (heq ▸ rfl)
  drained := by
    intro hne
    rw [hphase] at hne
    exact absurd hdrain hne

theorem op_wait_timed {cv : Nat} {timeOut : Int} (htimed : 0 < timeOut) :
    s.op (.wait cv timeOut now) =
      some (.waitUntil cv (.wait s.next) (now + timeOut.toNat) now) :=
  congrArg some (if_pos htimed)

theorem op_wait_untimed {cv : Nat} {timeOut : Int} (huntimed : timeOut ≤ 0) :
    s.op (.wait cv timeOut now) = some (.wait cv (.wait s.next)) :=
  congrArg some (if_neg (Int.not_lt.mpr huntimed))

/-- **Every step of the loop is the operation of the scheduler it stands for.** -/
theorem SchedulerInv.step (hs : SchedulerInv s v pending u) (h : LoopInv s v) (hc : CondInv s v)
    (h' : LoopInv t w) (hstep : s.PunctualStep a t) (heff : Effect s v a t w) :
    ∃ pending', SchedulerInv t w pending' (follow u (s.op a)) := by
  obtain ⟨⟨⟨hok, hcode⟩, hclock⟩, hpunctual⟩ := hstep
  have hnd := h.rep.links.nodup
  -- a coroutine that changes its stage, but does not block, leaves the blocked ones alone
  have hstay : ∀ {c : Co} {st : Stage}, t.stage = Function.update s.stage c st →
      (∀ y, st ≠ .blocked y) → ∀ k, t.Blocked (.poll k) → s.Blocked (.poll k) :=
    fun hstage hst k hb => (stage_of_update hstage hb).resolve_right (hst _)
  cases heff with
  | resume co =>
      exact ⟨pending, hs.quiet rfl rfl rfl (fun _ _ => rfl)
        (fun k p hp hb _ => ⟨hp, hstay rfl (by simp) k hb⟩) Or.inl⟩
  | yeild hs' =>
      exact ⟨pending, hs.quiet rfl rfl rfl (fun _ _ => rfl)
        (fun k p hp hb _ => ⟨hp, hstay rfl (by simp) k hb⟩) Or.inl⟩
  | finish hs' =>
      exact ⟨pending, hs.quiet rfl rfl rfl (fun _ _ => rfl)
        (fun k p hp hb _ => ⟨hp, hstay rfl (by simp) k hb⟩) Or.inl⟩
  | @pollRefused fds timeout now links hrefused =>
      obtain ⟨hnow, hlt⟩ := hclock
      obtain ⟨hpos, h0, hint⟩ := hpunctual
      obtain ⟨hval, hd, hlt'⟩ := toSizeT_deadline hlt h0 hint
      rw [hval, hs.accepts_iff hpos hnow hd hlt'] at hrefused
      have hop : follow u (s.op (.poll fds timeout now)) = u.begin now := if_neg hrefused
      rw [hop, erased_eq_self (h.next_not_linked rfl)]
      exact ⟨pending, hs.refused hpos hnow rfl rfl (resumed_append rfl rfl) rfl rfl rfl rfl⟩
  | @pollBlocked c rest fds timeout now links hs' haccepted =>
      obtain ⟨hnow, hlt⟩ := hclock
      obtain ⟨hpos, h0, hint⟩ := hpunctual
      obtain ⟨hval, hd, hlt'⟩ := toSizeT_deadline hlt h0 hint
      rw [hval] at haccepted ⊢
      have hop : follow u (s.op (.poll fds timeout now)) =
          (u.begin now).fallAsleep (.poll s.next) (now + timeout.toNat) :=
        if_pos ((hs.accepts_iff hpos hnow hd hlt').mp haccepted)
      rw [hop]
      exact ⟨_, hs.poll_blocks h hpos hnow hd hlt' haccepted rfl rfl rfl rfl rfl rfl rfl⟩
  | @waitRefused cv now timeOut ret hrefused htimed =>
      obtain ⟨hnow, hlt⟩ := hclock htimed
      obtain ⟨hpos, hint⟩ := hpunctual htimed
      obtain ⟨hval, hd, hlt'⟩ := toSizeT_deadline hlt htimed hint
      rw [hval, hs.accepts_iff hpos hnow hd hlt'] at hrefused
      have hop : follow u (s.op (.wait cv timeOut now)) = u.begin now := by
        rw [op_wait_timed htimed]
        exact if_neg hrefused
      rw [hop]
      exact ⟨pending, hs.refused hpos hnow rfl rfl (resumed_append rfl rfl) rfl rfl rfl rfl⟩
  | @waitTimed c rest cv now timeOut links conds hs' haccepted htimed =>
      obtain ⟨hnow, hlt⟩ := hclock htimed
      obtain ⟨hpos, hint⟩ := hpunctual htimed
      obtain ⟨hval, hd, hlt'⟩ := toSizeT_deadline hlt htimed hint
      rw [hval] at haccepted ⊢
      have hop : follow u (s.op (.wait cv timeOut now)) =
          ((u.begin now).fallAsleep (.wait s.next) (now + timeOut.toNat)).enqueue cv
            (.wait s.next) := by
        rw [op_wait_timed htimed]
        exact if_pos ((hs.accepts_iff hpos hnow hd hlt').mp haccepted)
      rw [hop]
      exact ⟨_, hs.wait_blocks h hpos hnow hd hlt' haccepted rfl rfl rfl rfl rfl rfl rfl⟩
  | @waitUntimed c rest cv now timeOut conds hs' huntimed =>
      rw [op_wait_untimed huntimed]
      exact ⟨_, hs.wait_untimed h rfl rfl rfl rfl rfl rfl rfl⟩
  | @signalNone cv hcv =>
      have hnone : u.waiting cv = [] := by
        rw [hs.waiting, hcv]
        rfl
      have hop : follow u (s.op (.signal cv)) = u := by
        show u.apply defaultSize (.signal cv) = u
        unfold Scheduler.apply
        dsimp only
        rw [hnone]
      rw [hop]
      exact ⟨pending, hs⟩
  | @signal cv k ks links conds hcv =>
      have hfirst : u.waiting cv = .wait k :: ks.map .wait := by
        rw [hs.waiting, hcv]
        rfl
      have hop : follow u (s.op (.signal cv)) = { u.rouse (.wait k) with
          waiting := Function.update u.waiting cv (ks.map Call.wait) } := by
        show u.apply defaultSize (.signal cv) = _
        unfold Scheduler.apply
        dsimp only
        rw [hfirst]
      rw [hop]
      refine ⟨pending.erase (.cond k), SchedulerInv.quiet (s := s) ?_ rfl rfl
        (resumed_append rfl rfl) (fun _ _ => rfl) (fun k p hp hb _ => ⟨hp, hb⟩) Or.inl⟩
      exact (hs.rouse hnd k).rewait (hs.waiting_update cv ks)
  | @broadcast cv links conds =>
      obtain ⟨pending', hall⟩ := hs.rouse_all (v.cond cv) hnd
      have hop : follow u (s.op (.broadcast cv)) =
          { ((v.cond cv).map Call.wait).foldl Scheduler.rouse u with
            waiting := Function.update u.waiting cv [] } := by
        rw [← hs.waiting]
        rfl
      rw [hop]
      refine ⟨pending', SchedulerInv.quiet (s := s) ?_ rfl rfl
        (resumed_append rfl (filterMap_call_map (fun _ => rfl) _)) (fun _ _ => rfl)
        (fun k p hp hb _ => ⟨hp, hb⟩) Or.inl⟩
      exact hall.rewait (hs.waiting_update cv [])
  | @pollBack c rest k p links hs' hstage hp =>
      have hoff : ¬ v.On (.poll k) := h.back_not_on hstage
      have hop : follow u (s.op .back) = u.apply defaultSize (.leave (.poll k)) := by
        unfold Loop.op
        rw [getCurrCo_eq hs', Option.map_some, hstage]
        rfl
      rw [hop, erased_eq_self fun q hq => hoff ⟨q, hq⟩]
      refine ⟨pending, SchedulerInv.quiet (s := s) ?_ rfl rfl (resumed_append rfl rfl) ?_ ?_ Or.inl⟩
      · -- a poll waits on no condition
        refine hs.rewait (l := v.cond) fun cv => ?_
        rw [hs.waiting]
        exact List.erase_of_not_mem (by simp)
      · intro n hn
        have hne : n.call ≠ .poll k := fun heq => hoff (hs.eq_poll hn heq ▸ hs.on hn)
        cases hx : n.call with
        | wait j => rfl
        | poll j =>
            have hj : j ≠ k := fun heq => hne (by rw [hx, heq])
            simp only [Loop.expireTime, Function.update_of_ne hj]
      · intro j q hq hb _
        have hj : j ≠ k := by
          intro heq
          rw [heq] at hq
          simp at hq
        exact ⟨by simpa [hj] using hq, hstay rfl (by simp) j hb⟩
  | @waitBack c rest k conds hs' hstage =>
      have hoff : ¬ v.On (.cond k) := h.back_not_on hstage
      have hop : follow u (s.op .back) = u.apply defaultSize (.leave (.wait k)) := by
        unfold Loop.op
        rw [getCurrCo_eq hs', Option.map_some, hstage]
        rfl
      rw [hop]
      refine ⟨pending, SchedulerInv.quiet (s := s) ?_ rfl rfl (resumed_append rfl rfl) ?_ ?_ Or.inl⟩
      · refine hs.rewait (l := erased v.cond k) fun cv => ?_
        rw [hs.waiting]
        exact (map_erase (f := Call.wait) (a := k) fun j _ heq => Call.wait.inj heq).symm
      · intro n hn
        have hne : n.call ≠ .wait k := fun heq => hoff (Node.eq_cond heq ▸ hs.on hn)
        cases hx : n.call with
        | poll j => rfl
        | wait j =>
            have hj : j ≠ k := fun heq => hne (by rw [hx, heq])
            simp only [Loop.expireTime, Function.update_of_ne hj]
      · exact fun j q hq hb _ => ⟨hq, hstay rfl (by simp) j hb⟩
  | epollWait batch =>
      refine ⟨pending, hs.quiet rfl rfl rfl (fun _ _ => rfl) (fun k p hp hb _ => ⟨hp, hb⟩) ?_⟩
      intro _
      rw [hok.2.1]
      exact Or.inl (by simp)
  | @prepareAgain k i rest p hphase hp hhandled =>
      have hoff : Call.poll k ∉ u.sleeping := by
        rw [hs.mem_sleeping]
        exact fun hin => h.handled k p hp hhandled (hs.on hin)
      have hop : follow u (s.op .prepare) = u := by
        unfold Loop.op
        rw [hphase]
        exact if_neg hoff
      rw [hop]
      refine ⟨pending, hs.quiet rfl rfl (resumed_append rfl rfl) ?_ ?_ ?_⟩
      · exact fun n _ => expireTime_update hp (by rfl) (by rfl) (by rfl) n.call
      · intro j q hq hb hh
        have hj : j ≠ k := by
          intro heq
          rw [heq] at hq
          simp only [Function.update_self, Option.some.injEq] at hq
          rw [← hq, hhandled] at hh
          cases hh
        exact ⟨by simpa [hj] using hq, hb⟩
      · intro _
        rw [hphase]
        exact Or.inl (by simp)
  | @prepare k i rest p links hphase hp hhandled =>
      have hop : follow u (s.op .prepare) = u.apply defaultSize (.wake (.poll k)) := by
        unfold Loop.op
        rw [hphase]
        rfl
      rw [hop]
      obtain ⟨q, hq, hb, -⟩ := (h.round _ hphase).2 (k, i) List.mem_cons_self
      exact ⟨_, hs.wake h (by rw [hphase]; simp) hp ⟨_, hb⟩ hhandled (by rfl) (by rfl) (by rfl) rfl rfl
        rfl rfl (resumed_append rfl rfl)⟩
  | @takeOut now n links hsize hearly hpast js hjs =>
      obtain ⟨hnow, hlt⟩ := hclock
      obtain ⟨hpos, htime⟩ := hpunctual
      obtain ⟨-, hle, -⟩ := hs.begin hpos hnow
      obtain ⟨hwheel, hrep⟩ := takeOut_exact h.rep hle htime hcode rfl
      rw [h'.rep.unique hrep]
      exact ⟨_, hs.tick hc.timeout hpos hnow hlt rfl hwheel rfl rfl
        (resumed_append rfl (filterMap_call_map (fun _ => rfl) _)) rfl rfl rfl hrep⟩
  | drainOver hempty =>
      have hop : follow u (s.op .drain) = u := by
        have hnone : u.ready = [] := by
          rw [hs.ready, hempty]
          rfl
        show u.apply defaultSize .dispatch = u
        unfold Scheduler.apply
        dsimp only
        rw [hnone]
      rw [hop]
      exact ⟨pending, hs.quiet rfl rfl rfl (fun _ _ => rfl) (fun k p hp hb _ => ⟨hp, hb⟩)
        fun _ => Or.inr hempty⟩
  | @drain n ns co links hactive hco =>
      have hfirst : u.ready = n.call :: ns.map Node.call := by
        rw [hs.ready, hactive]
        rfl
      have hop : follow u (s.op .drain) =
          { u with ready := ns.map Node.call, dispatched := u.dispatched ++ [n.call] } := by
        show u.apply defaultSize .dispatch = _
        unfold Scheduler.apply
        dsimp only
        rw [hfirst]
      rw [hop]
      refine ⟨pending, hs.dispatch hactive rfl rfl rfl ?_ rfl rfl ?_ hok.2⟩
      · unfold Loop.resumed coResume
        rw [List.filterMap_append]
        rfl
      · -- the call that was resumed is not blocked any more
        intro k hb
        refine ⟨hstay rfl (by simp) k hb, fun heq => ?_⟩
        refine (h'.once (.poll k) ?_).2 hb
        rw [heq]
        unfold Loop.resumed coResume
        rw [List.filterMap_append]
        exact List.mem_append_right _ List.mem_cons_self

/-! ## §4. Every run. -/

/-- What is known of a loop and the scheduler beside it. -/
structure Scheduled (p : Loop × Scheduler Call Nat) (v : Lists) (pending : List Node) : Prop where
  inv : LoopInv p.1 v
  cond : CondInv p.1 v
  tied : SchedulerInv p.1 v pending p.2

variable {p q : Loop × Scheduler Call Nat}

theorem Scheduled.init : Scheduled (Loop.init, .init) ⟨fun _ => [], fun _ => []⟩ [] :=
  ⟨LoopInv.init, CondInv.init, SchedulerInv.init⟩

/-- **A step of both** keeps them together. -/
theorem Scheduled.step (h : ∃ v pending, Scheduled p v pending) (hstep : Beside p a q) :
    ∃ v pending, Scheduled q v pending := by
  obtain ⟨v, pending, hinv, hcond, htied⟩ := h
  obtain ⟨hpunctual, hq⟩ := hstep
  obtain ⟨t, w, hcode, heff, hinv'⟩ := hinv.run_step hpunctual.1.1.1
  have heq : t = q.1 := Option.some.inj (hcode.symm.trans hpunctual.1.1.2)
  rw [heq] at heff hinv'
  obtain ⟨pending', htied'⟩ := htied.step hinv hcond hinv' hpunctual heff
  rw [← hq] at htied'
  exact ⟨w, pending', hinv', (hcond.step hinv hpunctual.1.1.1 heff).1, htied'⟩

/-- The invariant, in every run of both. -/
theorem Scheduled.of_run {as : List Action} (hrun : Run Beside (Loop.init, .init) as p) :
    ∃ v pending, Scheduled p v pending :=
  hrun.invariant (I := fun p => ∃ v pending, Scheduled p v pending)
    (fun _ _ _ h hstep => Scheduled.step h hstep) ⟨_, _, Scheduled.init⟩

/-- Every run has its scheduler. -/
theorem exists_beside {as : List Action} (hrun : Run Loop.PunctualStep s as t)
    (u : Scheduler Call Nat) : ∃ u', Run Beside (s, u) as (t, u') := by
  induction hrun with
  | nil => exact ⟨u, .nil _⟩
  | @snoc t t' as a hrun ha ih =>
      obtain ⟨u', ih⟩ := ih
      exact ⟨_, .snoc ih ⟨ha, rfl⟩⟩

/-- **The event loop is the scheduler.**  In every run whose steps are `Punctual`: the calls resumed are
those that the scheduler dispatches, in the same order; `ActiveLink` is its queue and the lists of the
condition variables are its waiters; and the calls linked in the wheel are its sleeping ones, each in the
slot that is as many milliseconds ahead of the last take-out as its deadline, none of them overdue. -/
theorem loop_schedules {as : List Action} (hrun : Run Loop.PunctualStep Loop.init as s) :
    ∃ u, Run Beside (Loop.init, .init) as (s, u) ∧
      s.resumed = u.dispatched ∧
      (s.links.items activeLink).map Node.call = u.ready ∧
      (∀ cv, (s.conds.items cv).map Call.wait = u.waiting cv) ∧
      (∀ x, x ∈ u.sleeping ↔ ∃ n i, n.call = x ∧ s.links.link n = some (.slot i)) ∧
      ∀ n i, s.links.link n = some (.slot i) → ∃ d, s.expireTime n.call = some d ∧
        u.deadline n.call = d ∧ s.wheel.Start < d ∧ d < s.wheel.Start + defaultSize ∧
        i = s.wheel.ahead (d - s.wheel.Start) := by
  obtain ⟨u, hbeside⟩ := exists_beside hrun .init
  obtain ⟨v, pending, hinv, hcond, hs⟩ := Scheduled.of_run hbeside
  have hslot : ∀ n i, s.links.link n = some (.slot i) ↔ n ∈ v.event (.slot i) :=
    fun n i => hinv.rep.links.link n (.slot i)
  refine ⟨u, hbeside, hs.dispatched.symm, ?_, ?_, ?_, ?_⟩
  · rw [hinv.rep.links.items]
    exact hs.ready.symm
  · intro cv
    rw [hinv.rep.conds.items]
    exact (hs.waiting cv).symm
  · intro x
    rw [hs.sleeping, List.mem_map]
    constructor
    · intro hx
      obtain ⟨n, hn, heq⟩ := hx
      exact ⟨n, _, heq, (hslot n _).mpr (hs.slots.mem hn)⟩
    · intro hx
      obtain ⟨n, i, heq, hlink⟩ := hx
      exact ⟨n, hs.linked i n ((hslot n i).mp hlink), heq⟩
  · intro n i hlink
    have hin := (hslot n i).mp hlink
    have hn := hs.linked i n hin
    have hplace : (Place.slot i : Place EventLink) = .slot _ :=
      hinv.rep.links.unique hin (hs.slots.mem hn)
    refine ⟨_, hs.known n hn, rfl, hs.later n hn, (hs.slots.range n hn).2, ?_⟩
    exact Place.slot.inj hplace

theorem Loop.PunctualStep.of_check {a : Action}
    (hok : decide (s.Allowed a ∧ s.ClockOk a ∧ s.Punctual a) = true) (hstep : s.step a = some t) :
    s.PunctualStep a t := by
  obtain ⟨hallowed, hclock, hpunctual⟩ := of_decide_eq_true hok
  exact ⟨⟨⟨hallowed, hstep⟩, hclock⟩, hpunctual⟩

/-- Two polls sleep and one that came later is due first; it is resumed, and the other one still sleeps. -/
theorem loop_schedules_two : ∃ s u, Run Loop.PunctualStep Loop.init
      [.resume 1, .poll [⟨3, 1⟩] 500 1000, .resume 2, .poll [⟨4, 1⟩] 300 1100, .epollWait [],
        .takeOut 1450, .drain] s ∧
    Run Beside (Loop.init, .init) [.resume 1, .poll [⟨3, 1⟩] 500 1000, .resume 2,
      .poll [⟨4, 1⟩] 300 1100, .epollWait [], .takeOut 1450, .drain] (s, u) ∧
    u.dispatched = [.poll 1] ∧ .poll 0 ∈ u.sleeping ∧ u.deadline (.poll 0) = 1500 := by
  have hcheck : checkRun Loop.step (fun s a => decide (s.Allowed a ∧ s.ClockOk a ∧ s.Punctual a))
      Loop.init [.resume 1, .poll [⟨3, 1⟩] 500 1000, .resume 2, .poll [⟨4, 1⟩] 300 1100,
        .epollWait [], .takeOut 1450, .drain]
      (fun s => decide (s.resumed = [.poll 1] ∧ s.links.link (.poll 0) = some (.slot 500) ∧
        s.expireTime (.poll 0) = some 1500)) = true := by
    decide +kernel
  obtain ⟨s, hrun, hs⟩ := Run.of_check (fun _ _ _ => Loop.PunctualStep.of_check) hcheck
  obtain ⟨hresumed, hlink, hexp⟩ := of_decide_eq_true hs
  obtain ⟨u, hbeside, hdispatched, -, -, hsleeping, hslot⟩ := loop_schedules hrun
  refine ⟨s, u, hrun, hbeside, hdispatched.symm.trans hresumed, ?_, ?_⟩
  · exact (hsleeping _).mpr ⟨.poll 0, 500, rfl, hlink⟩
  · obtain ⟨d, hd, hdead, -⟩ := hslot (.poll 0) 500 hlink
    have hd' : some d = some 1500 := hd.symm.trans hexp
    exact hdead.trans (Option.some.inj hd')

/-! ## §5. One round. -/

/-- A step in the loop over `ActiveLink`, under a clock. -/
def Loop.RoundStep (s : Loop) (a : Action) (t : Loop) : Prop := s.phase = .drain ∧ s.PunctualStep a t

/-- **What the loop over `ActiveLink` makes ready**: the waiters that are popped in it, and nothing else. -/
theorem SchedulerInv.line_follow (hs : SchedulerInv s v pending u) (h : LoopInv s v)
    (hphase : s.phase = .drain) (hok : s.Allowed a) :
    (∀ x, x ∈ (follow u (s.op a)).line ↔ x ∈ u.line ∨ ∃ k ∈ s.pops a, x = .wait k) ∧
    ∀ x y, [x, y].Sublist u.line → (∀ k ∈ s.pops a, x ≠ .wait k) →
      [x, y].Sublist (follow u (s.op a)).line := by
  have hpops : ∀ op, s.op a = some op → u.called op = [] ∧ u.roused op = (s.pops a).map .wait := by
    intro op hop
    cases a with
    | signal cv =>
        cases hop
        refine ⟨rfl, ?_⟩
        unfold Scheduler.roused Loop.pops
        dsimp only
        rw [hs.waiting, h.rep.conds.items]
        cases v.cond cv <;> rfl
    | broadcast cv =>
        cases hop
        refine ⟨rfl, ?_⟩
        unfold Scheduler.roused Loop.pops
        dsimp only
        rw [hs.waiting, h.rep.conds.items]
    | poll fds timeout now =>
        cases hop
        exact ⟨rfl, rfl⟩
    | wait cv timeOut now =>
        rw [← Option.some.inj hop]
        by_cases htimed : 0 < timeOut
        · rw [if_pos htimed]
          exact ⟨rfl, rfl⟩
        · rw [if_neg htimed]
          exact ⟨rfl, rfl⟩
    | back =>
        unfold Loop.op at hop
        dsimp only at hop
        split at hop
        · cases hop
          exact ⟨rfl, rfl⟩
        · cases hop
    | prepare =>
        -- the events of a round were dispatched before
        unfold Loop.op at hop
        rw [hphase] at hop
        cases hop
    | takeOut now =>
        have hdispatch : s.phase = .dispatch [] := hok.2
        rw [hphase] at hdispatch
        cases hdispatch
    | drain =>
        cases hop
        exact ⟨rfl, rfl⟩
    | resume co => cases hop
    | yeild => cases hop
    | finish => cases hop
    | epollWait batch => cases hop
  have hnone : s.op a = none → s.pops a = [] := by
    intro hop
    cases a with
    | signal cv => cases hop
    | broadcast cv => cases hop
    | _ => rfl
  cases hop : s.op a with
  | none =>
      rw [hnone hop]
      exact ⟨fun x => by simp [follow], fun x y hxy _ => hxy⟩
  | some op =>
      obtain ⟨hcalled, hroused⟩ := hpops op hop
      refine ⟨fun x => ?_, fun x y hxy hx => ?_⟩
      · show x ∈ (u.apply defaultSize op).line ↔ _
        rw [Scheduler.mem_line_apply, hcalled, hroused]
        simp only [List.not_mem_nil, false_or, List.mem_map]
        constructor
        · exact fun hin => hin.imp_right fun ⟨k, hk, heq⟩ => ⟨k, hk, heq.symm⟩
        · exact fun hin => hin.imp_right fun ⟨k, hk, heq⟩ => ⟨k, hk, heq.symm⟩
      · apply Scheduler.before_apply hxy
        rw [hroused]
        intro hin
        obtain ⟨k, hk, heq⟩ := List.mem_map.mp hin
        exact hx k hk heq.symm

/-- **What holds in a round** that started in `s` with the scheduler `u`, where `es` has been recorded
since: who is in line, who is ahead of whom, and that nobody who has been resumed is signalled. -/
structure InRound (s : Loop) (u : Scheduler Call Nat) (es : List Event) (t : Loop)
    (u' : Scheduler Call Nat) : Prop where
  scheduled : ∃ v pending, Scheduled (t, u') v pending
  log : t.log = s.log ++ es
  line : ∀ x, x ∈ u'.line ↔ x ∈ u.line ∨ ∃ k, x = .wait k ∧ .cond k ∈ addedItems es
  before : ∀ x y, [x, y].Sublist u.line → (∀ k, x = .wait k → .cond k ∉ addedItems es) →
    [x, y].Sublist u'.line
  waits : ∀ k, .cond k ∈ addedItems es → .wait k ∉ s.resumed
  emptied : t.phase ≠ .drain → u'.ready = []

/-- A round begins behind the take-out. -/
theorem InRound.start (h : ∃ v pending, Scheduled (s, u) v pending) (hphase : s.phase = .drain) :
    InRound s u [] s u where
  scheduled := h
  log := (List.append_nil _).symm
  line := by simp [addedItems]
  before := fun x y h _ => h
  waits := fun k hk => absurd hk List.not_mem_nil
  emptied := fun hne => absurd hphase hne

/-- **A turn of the round**, in the loop and in the scheduler. -/
theorem InRound.step {es : List Event} {t' : Loop} {u' : Scheduler Call Nat}
    (h : InRound s u es t u') (hstep : t.RoundStep a t') :
    ∃ es', InRound s u (es ++ es') t' (follow u' (t.op a)) := by
  obtain ⟨hphase, hpunctual⟩ := hstep
  have hok : t.Allowed a := hpunctual.1.1.1
  obtain ⟨v, pending, hinv, hcond, hs⟩ := h.scheduled
  obtain ⟨t₁, w, hcode, heff, hinv'⟩ := hinv.run_step hok
  have heq : t₁ = t' := Option.some.inj (hcode.symm.trans hpunctual.1.1.2)
  rw [heq] at heff hinv'
  obtain ⟨es', hlog, hturn⟩ := drain_turn hinv hcond hphase hok heff
  obtain ⟨pending', hs'⟩ := hs.step hinv hcond hinv' hpunctual heff
  have hcond' := (hcond.step hinv hok heff).1
  have hadded : ∀ k, .cond k ∈ addedItems es' ↔ k ∈ t.pops a := by
    intro k
    rw [hturn.added, List.mem_map]
    exact ⟨fun ⟨j, hj, heq⟩ => Node.cond.inj heq ▸ hj, fun hk => ⟨k, hk, rfl⟩⟩
  obtain ⟨hline, hbefore⟩ := hs.line_follow hinv hphase hok
  refine ⟨es', ⟨w, pending', hinv', hcond', hs'⟩, ?_, ?_, ?_, ?_, ?_⟩
  · rw [hlog, h.log, List.append_assoc]
  · intro x
    rw [hline, h.line, or_assoc]
    apply or_congr_right
    simp only [addedItems_append, List.mem_append]
    constructor
    · intro hx
      cases hx with
      | inl hold =>
          obtain ⟨k, hk, hin⟩ := hold
          exact ⟨k, hk, Or.inl hin⟩
      | inr hnew =>
          obtain ⟨k, hin, hk⟩ := hnew
          exact ⟨k, hk, Or.inr ((hadded k).mpr hin)⟩
    · intro hx
      obtain ⟨k, hk, hin⟩ := hx
      cases hin with
      | inl hold => exact Or.inl ⟨k, hk, hold⟩
      | inr hnew => exact Or.inr ⟨k, (hadded k).mp hnew, hk⟩
  · intro x y hxy hx
    simp only [addedItems_append, List.mem_append, not_or] at hx
    apply hbefore x y (h.before x y hxy fun k hk => (hx k hk).1)
    exact fun k hk heq => (hx k heq).2 ((hadded k).mpr hk)
  · intro k hk
    rw [addedItems_append, List.mem_append] at hk
    cases hk with
    | inl hold => exact h.waits k hold
    | inr hnew =>
        -- a waiter that is popped is suspended, so it has not been resumed
        have hblocked := hinv.pops_blocked hok ((hadded k).mp hnew)
        intro hin
        refine (hinv.once (.wait k) ?_).2 hblocked
        unfold Loop.resumed
        rw [h.log, List.filterMap_append]
        exact List.mem_append_left _ hin
  · intro hne
    rw [hs'.ready]
    cases hturn with
    | between action phase => exact absurd phase hne
    | next action phase => exact absurd phase hne
    | ended action phase active active' =>
        rw [active']
        rfl

theorem InRound.run {bs : List Action} (h : InRound s u [] s u)
    (hround : Run Loop.RoundStep s bs t) : ∃ es u', InRound s u es t u' := by
  induction hround with
  | nil => exact ⟨[], u, h⟩
  | snoc _ hstep ih =>
      obtain ⟨es, u', hbefore⟩ := ih
      obtain ⟨es', hafter⟩ := hbefore.step hstep
      exact ⟨_, _, hafter⟩

/-- When a round is over, everybody in line has been resumed. -/
theorem InRound.resumed {es : List Event} {u' : Scheduler Call Nat} (h : InRound s u es t u')
    (hover : t.phase = .user) : t.resumed = u'.line := by
  obtain ⟨v, pending, hinv, hcond, hs⟩ := h.scheduled
  unfold Scheduler.line
  rw [h.emptied (by rw [hover]; decide), List.append_nil]
  exact hs.dispatched.symm

theorem InRound.since {es : List Event} {u' : Scheduler Call Nat} (h : InRound s u es t u') :
    since s t = es := by
  unfold CoRoutine.since
  rw [h.log, List.drop_left]

namespace Loop

/-- The call sleeps in the wheel, and its deadline has come. -/
def Due (s : Loop) (now : Nat) (n : Node) : Prop :=
  (∃ i, s.links.link n = some (.slot i)) ∧ ∃ d ∈ s.expireTime n.call, d ≤ now

/-- By deadline and, for equal deadlines, in the order of the calls. -/
def Earlier (s : Loop) (m n : Node) : Prop :=
  ∃ d ∈ s.expireTime m.call, ∃ e ∈ s.expireTime n.call,
    d < e ∨ d = e ∧ m.call.addr < n.call.addr

/-- In a round that starts with this take-out, the first node is ahead of the second one. -/
def Ahead (s : Loop) (now : Nat) (m n : Node) : Prop :=
  [m, n].Sublist (s.links.items activeLink) ∨
  (m ∈ s.links.items activeLink ∧ s.Due now n) ∨
  (s.Due now m ∧ s.Due now n ∧ s.Earlier m n)

end Loop

theorem SchedulerInv.due_iff (hs : SchedulerInv s v pending u) (h : LoopInv s v) {n : Node} :
    s.Due now n ↔ n ∈ pending ∧ u.deadline n.call ≤ now := by
  unfold Loop.Due
  constructor
  · intro hdue
    obtain ⟨⟨i, hlink⟩, d, hd, hle⟩ := hdue
    have hn := hs.linked i n ((h.rep.links.link n _).mp hlink)
    rw [hs.known n hn, Option.mem_some_iff] at hd
    exact ⟨hn, hd ▸ hle⟩
  · intro hdue
    obtain ⟨hn, hle⟩ := hdue
    exact ⟨⟨_, (h.rep.links.link n _).mpr (hs.slots.mem hn)⟩, _, hs.known n hn, hle⟩

/-- A call is due in the scheduler exactly if it is due in the wheel. -/
theorem SchedulerInv.mem_due (hs : SchedulerInv s v pending u) (h : LoopInv s v) {x : Call} :
    x ∈ u.due now ↔ ∃ n, n.call = x ∧ s.Due now n := by
  rw [Scheduler.mem_due, hs.sleeping, List.mem_map]
  constructor
  · intro hx
    obtain ⟨⟨n, hn, heq⟩, hle⟩ := hx
    rw [← heq] at hle
    exact ⟨n, heq, (hs.due_iff h).mpr ⟨hn, hle⟩⟩
  · intro hx
    obtain ⟨n, heq, hdue⟩ := hx
    obtain ⟨hn, hle⟩ := (hs.due_iff h).mp hdue
    rw [heq] at hle
    exact ⟨⟨n, hn, heq⟩, hle⟩

/-- A call that is about to be resumed in the round has not been resumed before. -/
theorem LoopInv.on_not_resumed (h : LoopInv s v) {n : Node} (hn : v.On n) : n.call ∉ s.resumed :=
  fun hin => (h.once _ hin).2 (h.linked n hn)

/-- Who is ahead when the take-out starts is ahead in line when it is done. -/
theorem SchedulerInv.ahead_line (hs : SchedulerInv s v pending u) (h : LoopInv s v) {m n : Node}
    (hahead : s.Ahead now m n) :
    [m.call, n.call].Sublist (u.apply defaultSize (.tick now)).line := by
  rw [Scheduler.line_tick]
  have hready : ((v.event activeLink).map Node.call).Sublist u.line := by
    rw [← hs.ready]
    exact List.sublist_append_right _ _
  unfold Loop.Ahead at hahead
  rw [h.rep.links.items] at hahead
  rcases hahead with hactive | ⟨hm, hn⟩ | ⟨hm, hn, hearlier⟩
  · exact ((hactive.map Node.call).trans hready).trans (List.sublist_append_left _ _)
  · have hm' : [m.call].Sublist u.line :=
      (List.singleton_sublist.mpr (List.mem_map_of_mem hm)).trans hready
    have hn' : [n.call].Sublist (u.due now) :=
      List.singleton_sublist.mpr ((hs.mem_due h).mpr ⟨n, rfl, hn⟩)
    exact hm'.append hn'
  · refine List.Sublist.trans ?_ (List.sublist_append_right _ _)
    obtain ⟨hmp, hle⟩ := (hs.due_iff h).mp hm
    obtain ⟨hnp, -⟩ := (hs.due_iff h).mp hn
    obtain ⟨d, hd, e, he, horder⟩ := hearlier
    rw [hs.known m hmp, Option.mem_some_iff] at hd
    rw [hs.known n hnp, Option.mem_some_iff] at he
    rw [← hd, ← he] at horder
    cases horder with
    | inl hlt =>
        exact Scheduler.before_due ((hs.mem_due h).mpr ⟨m, rfl, hm⟩)
          ((hs.mem_due h).mpr ⟨n, rfl, hn⟩) hlt
    | inr hsame =>
        -- the calls fell asleep in the order of their addresses
        refine Scheduler.before_due_of_eq ?_ hle hsame.1
        rw [hs.sleeping]
        have hbefore := Scheduler.before_of_sorted (fun n : Node => n.call.addr)
          (hs.ordered.imp fun hlt => Nat.le_of_lt hlt) hmp hnp hsame.2
        exact hbefore.map Node.call

/-- A round, with the scheduler beside it. -/
theorem inRound_of_run {as bs : List Action} {s₀ : Loop}
    (hrun : Run Loop.PunctualStep Loop.init as s₀) (htake : s₀.PunctualStep (.takeOut now) s)
    (hround : Run Loop.RoundStep s bs t) : ∃ v pending u es u', Scheduled (s₀, u) v pending ∧
      InRound s (u.apply defaultSize (.tick now)) es t u' ∧ s.resumed = s₀.resumed := by
  obtain ⟨u, hbeside⟩ := exists_beside hrun .init
  obtain ⟨v, pending, h⟩ := Scheduled.of_run hbeside
  have hstep : Beside (s₀, u) (.takeOut now) (s, u.apply defaultSize (.tick now)) := ⟨htake, rfl⟩
  have hnext := Scheduled.step ⟨v, pending, h⟩ hstep
  obtain ⟨es, u', hin⟩ := (InRound.start hnext (takeOut_phase htake.1.1.2)).run hround
  obtain ⟨w, pending', h'⟩ := hnext
  exact ⟨v, pending, u, es, u', h, hin, h'.tied.dispatched.symm.trans h.tied.dispatched⟩

/-- **What a round resumes.**  In every run whose steps are `Punctual`, from a take-out to the end of the
drain the event loop resumes, each of them once: the calls that were on `ActiveLink`, the calls in the wheel
whose deadline has come, and the waiters that are signalled in the meantime; and no others. -/
theorem round_exact {as bs : List Action} {s₀ : Loop}
    (hrun : Run Loop.PunctualStep Loop.init as s₀) (htake : s₀.PunctualStep (.takeOut now) s)
    (hround : Run Loop.RoundStep s bs t) (hover : t.phase = .user) :
    ∃ xs, t.resumed = s₀.resumed ++ xs ∧ xs.Nodup ∧ ∀ x, x ∈ xs ↔ ∃ n : Node, n.call = x ∧
      (n ∈ s₀.links.items activeLink ∨ s₀.Due now n ∨ n ∈ addedItems (since s t)) := by
  obtain ⟨v, pending, u, es, u', h, hin, hsame⟩ := inRound_of_run hrun htake hround
  obtain ⟨w, pending', hinv, -, -⟩ := hin.scheduled
  have hs := h.tied
  have hsplit : t.resumed = s₀.resumed ++ es.filterMap Event.call? := by
    rw [← hsame]
    unfold Loop.resumed
    rw [hin.log, List.filterMap_append]
  have hnodup := hinv.nodup
  rw [hsplit] at hnodup
  obtain ⟨-, hxs, hdisjoint⟩ := List.nodup_append.mp hnodup
  -- by its place in the scheduler's line every resumed call is one of the four kinds
  have hmem : ∀ x, x ∈ t.resumed ↔ x ∈ s₀.resumed ∨ ∃ n : Node, n.call = x ∧
      (n ∈ s₀.links.items activeLink ∨ s₀.Due now n ∨ n ∈ addedItems (since s t)) := by
    intro x
    rw [hin.resumed hover, hin.line, Scheduler.line_tick, List.mem_append, hs.mem_due h.inv, hin.since,
      h.inv.rep.links.items]
    unfold Scheduler.line
    rw [List.mem_append, hs.dispatched, hs.ready, List.mem_map]
    constructor
    · intro hx
      rcases hx with ((hold | ⟨n, hn, heq⟩) | ⟨n, heq, hdue⟩) | ⟨k, heq, hk⟩
      · exact Or.inl hold
      · exact Or.inr ⟨n, heq, Or.inl hn⟩
      · exact Or.inr ⟨n, heq, Or.inr (Or.inl hdue)⟩
      · exact Or.inr ⟨.cond k, heq.symm, Or.inr (Or.inr hk)⟩
    · intro hx
      rcases hx with hold | ⟨n, heq, hn | hdue | hadded⟩
      · exact Or.inl (Or.inl (Or.inl hold))
      · exact Or.inl (Or.inl (Or.inr ⟨n, hn, heq⟩))
      · exact Or.inl (Or.inr ⟨n, heq, hdue⟩)
      · obtain ⟨k, hk⟩ := exists_cond_of_added hadded
        rw [hk] at heq hadded
        exact Or.inr ⟨k, heq.symm, hadded⟩
  refine ⟨_, hsplit, hxs, fun x => ⟨fun hx => ?_, fun hx => ?_⟩⟩
  · have hx' : x ∈ t.resumed := by
      rw [hsplit]
      exact List.mem_append_right _ hx
    exact ((hmem x).mp hx').resolve_left fun hold => hdisjoint x hold x hx rfl
  -- conversely: what is on a list, or is signalled, was not resumed before the round
  · have hx' := (hmem x).mpr (Or.inr hx)
    rw [hsplit] at hx'
    refine (List.mem_append.mp hx').resolve_left fun hold => ?_
    obtain ⟨n, heq, hn⟩ := hx
    rw [← heq] at hold
    rcases hn with hactive | hdue | hadded
    · rw [h.inv.rep.links.items] at hactive
      exact h.inv.on_not_resumed ⟨_, hactive⟩ hold
    · exact h.inv.on_not_resumed (hs.on ((hs.due_iff h.inv).mp hdue).1) hold
    · rw [hin.since] at hadded
      obtain ⟨k, hk⟩ := exists_cond_of_added hadded
      rw [hk] at hold hadded
      rw [← hsame] at hold
      exact hin.waits k hadded hold

/-- A round found by evaluation. -/
theorem round_of_check {as bs : List Action} {now : Nat} {p : Loop → Loop → Loop → Bool}
    (h : checkRun Loop.step (fun s a => decide (s.Allowed a ∧ s.ClockOk a ∧ s.Punctual a)) Loop.init as
      (fun s₀ => checkRun Loop.step (fun s a => decide (s.Allowed a ∧ s.ClockOk a ∧ s.Punctual a)) s₀
        [.takeOut now] fun s => checkRun Loop.step (fun s a => decide (s.phase = .drain) &&
          decide (s.Allowed a ∧ s.ClockOk a ∧ s.Punctual a)) s bs (p s₀ s)) = true) :
    ∃ s₀ s t, Run Loop.PunctualStep Loop.init as s₀ ∧ s₀.PunctualStep (.takeOut now) s ∧
      Run Loop.RoundStep s bs t ∧ p s₀ s t = true := by
  obtain ⟨s₀, hrun, h⟩ := Run.of_check (fun _ _ _ => Loop.PunctualStep.of_check) h
  obtain ⟨s, hstart, h⟩ := Run.of_check (fun _ _ _ => Loop.PunctualStep.of_check) h
  have hof : ∀ (s : Loop) a t, (decide (s.phase = .drain) &&
      decide (s.Allowed a ∧ s.ClockOk a ∧ s.Punctual a)) = true → s.step a = some t →
      s.RoundStep a t := by
    intro s a t hok hstep
    obtain ⟨hphase, hok⟩ := (Bool.and_eq_true _ _).mp hok
    exact ⟨of_decide_eq_true hphase, .of_check hok hstep⟩
  obtain ⟨t, hround, h⟩ := Run.of_check hof h
  exact ⟨s₀, s, t, hrun, hstart.single, hround, h⟩

/-- Three calls sleep: a poll until 1500 that gets an event, a poll until 1300 and a waiter until 1200. -/
def threeCalls : List Action :=
  [.resume 1, .poll [⟨3, 1⟩] 500 1000, .resume 2, .poll [⟨4, 1⟩] 300 1000, .resume 3,
    .wait 7 200 1000, .epollWait [(0, 0)], .prepare]

/-- The three coroutines are resumed, and yield. -/
def threeTurns : List Action :=
  [.drain, .back, .yeild, .drain, .back, .yeild, .drain, .back, .yeild, .drain]

/-- The round at 1310 resumes all three. -/
theorem round_exact_three : ∃ s₀ s t, Run Loop.PunctualStep Loop.init threeCalls s₀ ∧
    s₀.PunctualStep (.takeOut 1310) s ∧ Run Loop.RoundStep s threeTurns t ∧
    ∃ xs, t.resumed = s₀.resumed ++ xs ∧ Call.wait 2 ∈ xs := by
  have hcheck : checkRun Loop.step (fun s a => decide (s.Allowed a ∧ s.ClockOk a ∧ s.Punctual a))
      Loop.init threeCalls (fun s₀ => checkRun Loop.step
        (fun s a => decide (s.Allowed a ∧ s.ClockOk a ∧ s.Punctual a)) s₀ [.takeOut 1310] fun s =>
          checkRun Loop.step (fun s a => decide (s.phase = .drain) &&
            decide (s.Allowed a ∧ s.ClockOk a ∧ s.Punctual a)) s threeTurns fun t =>
              decide (t.phase = .user ∧ s₀.links.link (.cond 2) = some (.slot 200) ∧
                s₀.expireTime (.wait 2) = some 1200)) = true := by
    decide +kernel
  obtain ⟨s₀, s, t, hrun, htake, hround, h⟩ := round_of_check hcheck
  obtain ⟨hover, hlink, hexp⟩ := of_decide_eq_true h
  obtain ⟨xs, hsplit, -, hiff⟩ := round_exact hrun htake hround hover
  have hdue : s₀.Due 1310 (.cond 2) := ⟨⟨_, hlink⟩, 1200, hexp, by decide⟩
  exact ⟨s₀, s, t, hrun, htake, hround, xs, hsplit, (hiff _).mpr ⟨.cond 2, rfl, Or.inr (Or.inl hdue)⟩⟩

/-- **In which order a round resumes**, in such a run.  What is on `ActiveLink` comes first, in the order of
that list; then what is due, by deadline and, for equal deadlines, in the order of the calls.  Nobody is
overtaken but a waiter that is signalled in the round. -/
theorem round_order {as bs : List Action} {s₀ : Loop}
    (hrun : Run Loop.PunctualStep Loop.init as s₀) (htake : s₀.PunctualStep (.takeOut now) s)
    (hround : Run Loop.RoundStep s bs t) (hover : t.phase = .user) {m n : Node}
    (hahead : s₀.Ahead now m n) (hm : m ∉ addedItems (since s t)) :
    [m.call, n.call].Sublist t.resumed := by
  obtain ⟨v, pending, u, es, u', h, hin, -⟩ := inRound_of_run hrun htake hround
  rw [hin.since] at hm
  rw [hin.resumed hover]
  apply hin.before _ _ (h.tied.ahead_line h.inv hahead)
  intro k hk
  rw [← Node.eq_cond hk]
  exact hm

/-- The waiter is resumed before the poll that called before it and expires later. -/
theorem round_order_three : ∃ s₀ s t, Run Loop.PunctualStep Loop.init threeCalls s₀ ∧
    s₀.PunctualStep (.takeOut 1310) s ∧ Run Loop.RoundStep s threeTurns t ∧
    [Call.wait 2, .poll 1].Sublist t.resumed := by
  have hcheck : checkRun Loop.step (fun s a => decide (s.Allowed a ∧ s.ClockOk a ∧ s.Punctual a))
      Loop.init threeCalls (fun s₀ => checkRun Loop.step
        (fun s a => decide (s.Allowed a ∧ s.ClockOk a ∧ s.Punctual a)) s₀ [.takeOut 1310] fun s =>
          checkRun Loop.step (fun s a => decide (s.phase = .drain) &&
            decide (s.Allowed a ∧ s.ClockOk a ∧ s.Punctual a)) s threeTurns fun t =>
              decide (t.phase = .user ∧ s₀.links.link (.cond 2) = some (.slot 200) ∧
                s₀.expireTime (.wait 2) = some 1200 ∧ s₀.links.link (.poll 1) = some (.slot 300) ∧
                s₀.expireTime (.poll 1) = some 1300 ∧ addedItems (since s t) = [])) = true := by
    decide +kernel
  obtain ⟨s₀, s, t, hrun, htake, hround, h⟩ := round_of_check hcheck
  obtain ⟨hover, hlink, hexp, hlink', hexp', hadded⟩ := of_decide_eq_true h
  have hahead : s₀.Ahead 1310 (.cond 2) (.poll 1) := by
    refine Or.inr (Or.inr ⟨⟨⟨_, hlink⟩, 1200, hexp, by decide⟩, ⟨⟨_, hlink'⟩, 1300, hexp', by decide⟩,
      1200, hexp, 1300, hexp', Or.inl (by decide)⟩)
  have hm : Node.cond 2 ∉ addedItems (since s t) := by
    rw [hadded]
    exact List.not_mem_nil
  exact ⟨s₀, s, t, hrun, htake, hround, round_order hrun htake hround hover hahead hm⟩

end RocketCo.CoRoutine
