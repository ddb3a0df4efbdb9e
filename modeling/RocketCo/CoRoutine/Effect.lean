/-
  RocketCo.CoRoutine.Effect — what each step of the event loop does, in terms of lists.

  `Represents s v` reads the link fields of a state back as the lists `v`.  `Effect s v a t w` says
  what the action `a` does to the lists and to the rest of the state, with one constructor for each
  way a step can end.  `step_effect` is the only place that looks into the code of a step: every
  invariant of the loop is proved by cases on `Effect`.
-/
import RocketCo.CoRoutine.EventLoop

namespace RocketCo.CoRoutine

/-! ## §1. Lists. -/

/-- The contents of all lists of a loop. -/
structure Lists where
  event : Place EventLink → List Node
  cond : Nat → List Nat

/-- The link fields spell out the lists. -/
structure Represents (s : Loop) (v : Lists) : Prop where
  links : Repr s.links v.event
  conds : Repr s.conds v.cond

theorem Represents.init : Represents Loop.init ⟨fun _ => [], fun _ => []⟩ :=
  ⟨Repr.empty, Repr.empty⟩

/-- `wake`, on lists. -/
noncomputable def woken (l : Place EventLink → List Node) (k : Nat) : Place EventLink → List Node :=
  appended (erased l (.cond k)) activeLink (.cond k)

/-- The slots `js` are emptied into `TimeoutLink`, and that is joined to `ActiveLink`. -/
def expired (l : Place EventLink → List Node) (js : List Nat) : Place EventLink → List Node :=
  let l := js.foldl (joined .TimeoutLink) l
  Function.update (Function.update l activeLink (l activeLink ++ l timeoutLink)) timeoutLink []

/-! ## §2. Effects. -/

/-- **What a step does.** -/
inductive Effect (s : Loop) (v : Lists) : Action → Loop → Lists → Prop where
  | resume (co : Co) : Effect s v (.resume co) (coResume s co .running) v
  | yeild {c : Co} {rest : List Co} (hs : s.stack = c :: rest) :
      Effect s v .yeild
        { s with stack := rest, stage := Function.update s.stage c .yielded } v
  | finish {c : Co} {rest : List Co} (hs : s.stack = c :: rest) :
      Effect s v .finish
        { s with stack := rest, stage := Function.update s.stage c .ended } v
  | pollRefused {fds : List PollFd} {timeout : Int} {now : Nat} (links : Links Node (Place EventLink))
      (hrefused : ¬ s.wheel.Accepts now (toSizeT (now + timeout))) :
      Effect s v (.poll fds timeout now)
        { s with
          wheel := s.wheel.begin now, links, next := s.next + 1, now
          log := s.log ++ [.returned (.poll s.next) (-1)] }
        { v with event := erased v.event (.poll s.next) }
  | pollBlocked {c : Co} {rest : List Co} {fds : List PollFd} {timeout : Int} {now : Nat}
      (links : Links Node (Place EventLink)) (hs : s.stack = c :: rest)
      (haccepted : s.wheel.Accepts now (toSizeT (now + timeout))) :
      Effect s v (.poll fds timeout now)
        { s with
          wheel := s.wheel.begin now, links, next := s.next + 1, now
          polls := Function.update s.polls s.next
            (some ⟨c, fds, toSizeT (now + timeout), false, 0⟩)
          stack := rest
          stage := Function.update s.stage c (.blocked (.poll s.next)) }
        { v with
          event := appended v.event (.slot (s.wheel.deadlineSlot now (toSizeT (now + timeout))))
            (.poll s.next) }
  | waitRefused {cv now : Nat} {timeOut : Int} (ret : Nat)
      (hrefused : ¬ s.wheel.Accepts now (toSizeT (now + timeOut))) (htimed : 0 < timeOut) :
      Effect s v (.wait cv timeOut now)
        { s with
          wheel := s.wheel.begin now, next := s.next + 1, now
          log := s.log ++ [.returned (.wait s.next) ret] } v
  | waitTimed {c : Co} {rest : List Co} {cv now : Nat} {timeOut : Int}
      (links : Links Node (Place EventLink)) (conds : Links Nat Nat) (hs : s.stack = c :: rest)
      (haccepted : s.wheel.Accepts now (toSizeT (now + timeOut))) (htimed : 0 < timeOut) :
      Effect s v (.wait cv timeOut now)
        { s with
          wheel := s.wheel.begin now, links, conds, next := s.next + 1, now
          items := Function.update s.items s.next (some ⟨c, toSizeT (now + timeOut)⟩)
          log := s.log ++ [.waited cv s.next]
          stack := rest
          stage := Function.update s.stage c (.blocked (.wait s.next)) }
        { event := appended v.event (.slot (s.wheel.deadlineSlot now (toSizeT (now + timeOut))))
            (.cond s.next)
          cond := appended v.cond cv s.next }
  | waitUntimed {c : Co} {rest : List Co} {cv now : Nat} {timeOut : Int} (conds : Links Nat Nat)
      (hs : s.stack = c :: rest) (huntimed : timeOut ≤ 0) :
      Effect s v (.wait cv timeOut now)
        { s with
          conds, next := s.next + 1
          items := Function.update s.items s.next (some ⟨c, 0⟩)
          log := s.log ++ [.waited cv s.next]
          stack := rest
          stage := Function.update s.stage c (.blocked (.wait s.next)) }
        { v with cond := appended v.cond cv s.next }
  | signalNone {cv : Nat} (hcv : v.cond cv = []) : Effect s v (.signal cv) s v
  | signal {cv k : Nat} {ks : List Nat} (links : Links Node (Place EventLink))
      (conds : Links Nat Nat) (hcv : v.cond cv = k :: ks) :
      Effect s v (.signal cv)
        { s with links, conds, log := s.log ++ [.signalled cv k] }
        { event := woken v.event k, cond := Function.update v.cond cv ks }
  | broadcast {cv : Nat} (links : Links Node (Place EventLink)) (conds : Links Nat Nat) :
      Effect s v (.broadcast cv)
        { s with links, conds, log := s.log ++ (v.cond cv).map (.broadcast cv) }
        { event := (v.cond cv).foldl woken v.event, cond := Function.update v.cond cv [] }
  | pollBack {c : Co} {rest : List Co} {k : Nat} {p : Stpoll}
      (links : Links Node (Place EventLink)) (hs : s.stack = c :: rest)
      (hstage : s.stage c = .back (.poll k)) (hp : s.polls k = some p) :
      Effect s v .back
        { s with
          links
          polls := Function.update s.polls k none
          stage := Function.update s.stage c .running
          log := s.log ++ [.returned (.poll k) p.RaisedNumber] }
        { v with event := erased v.event (.poll k) }
  | waitBack {c : Co} {rest : List Co} {k : Nat} (conds : Links Nat Nat)
      (hs : s.stack = c :: rest) (hstage : s.stage c = .back (.wait k)) :
      Effect s v .back
        { s with
          conds
          items := Function.update s.items k none
          stage := Function.update s.stage c .running
          log := s.log ++ [.returned (.wait k) (-1)] }
        { v with cond := erased v.cond k }
  | epollWait (batch : List (Nat × Nat)) :
      Effect s v (.epollWait batch) { s with phase := .dispatch batch } v
  | prepareAgain {k i : Nat} {rest : List (Nat × Nat)} {p : Stpoll}
      (hphase : s.phase = .dispatch ((k, i) :: rest)) (hp : s.polls k = some p)
      (hhandled : p.IsHandle = true) :
      Effect s v .prepare
        { s with
          phase := .dispatch rest
          log := s.log ++ [.delivered k i]
          polls := Function.update s.polls k
            (some { p with RaisedNumber := p.RaisedNumber + 1 }) }
        v
  | prepare {k i : Nat} {rest : List (Nat × Nat)} {p : Stpoll}
      (links : Links Node (Place EventLink))
      (hphase : s.phase = .dispatch ((k, i) :: rest)) (hp : s.polls k = some p)
      (hhandled : p.IsHandle = false) :
      Effect s v .prepare
        { s with
          links
          phase := .dispatch rest
          log := s.log ++ [.delivered k i]
          polls := Function.update s.polls k
            (some { p with RaisedNumber := p.RaisedNumber + 1, IsHandle := true }) }
        { v with event := appended (erased v.event (.poll k)) activeLink (.item k i) }
  | takeOut {now n : Nat} (links : Links Node (Place EventLink)) (hsize : n ≤ defaultSize)
      (hearly : now < (s.wheel.begin now).Start → n = 0)
      (hpast : (s.wheel.begin now).Start ≤ now → n ≤ now - (s.wheel.begin now).Start + 1)
      {js : List Nat}
      (hjs : js = (List.range n).map fun j => slotOf ((s.wheel.begin now).Index + (j : Nat))) :
      Effect s v (.takeOut now)
        { s with
          wheel := if n = 0 then s.wheel.begin now
            else ⟨now, toInt64 ((s.wheel.begin now).Index + ((n : Int) - 1))⟩
          links, now
          phase := .drain
          log := s.log ++ (js.foldl (joined .TimeoutLink) v.event timeoutLink).map .takenOut }
        { v with event := expired v.event js }
  | drainOver (hempty : v.event activeLink = []) : Effect s v .drain { s with phase := .user } v
  | drain {n : Node} {ns : List Node} {co : Co} (links : Links Node (Place EventLink))
      (hactive : v.event activeLink = n :: ns) (hco : s.itemCo n.call = some co) :
      Effect s v .drain
        (coResume { s with links, log := s.log ++ [.resumed n] } co (.back n.call))
        { v with event := Function.update v.event activeLink ns }

/-! ## §3. The steps have these effects. -/

variable {s t : Loop} {v : Lists}

theorem coYeild_eq {c : Co} {rest : List Co} {stage : Stage} (hs : s.stack = c :: rest) :
    coYeild s stage =
      some { s with stack := rest, stage := Function.update s.stage c stage } := by
  unfold coYeild
  rw [hs]

/-- A `poll` is refused by the wheel, or linked into the slot of its deadline and left to wait. -/
theorem poll_effect (hr : Represents s v) {c : Co} {rest : List Co} (hs : s.stack = c :: rest)
    (fds : List PollFd) (timeout : Int) (now : Nat) :
    ∃ t w, coPollInner s c fds timeout now = some t ∧ Effect s v (.poll fds timeout now) t w ∧
      Represents t w := by
  unfold coPollInner
  dsimp only
  cases addTimeOut_cases s.wheel s.links (.poll s.next) (toSizeT (now + timeout)) now with
  | inl hrefused =>
      obtain ⟨hno, ret, hret, heq⟩ := hrefused
      obtain ⟨links, hrem, hr'⟩ := hr.links.erased (.poll s.next)
      rw [heq, if_pos hret, hrem]
      exact ⟨_, _, rfl, .pollRefused links hno, hr', hr.conds⟩
  | inr haccepted =>
      obtain ⟨hyes, heq⟩ := haccepted
      rw [heq, if_neg (fun h => h rfl)]
      exact ⟨_, _, coYeild_eq hs, .pollBlocked _ hs hyes, hr.links.appended _ _, hr.conds⟩

/-- A wait that the wheel refuses returns at once; any other one is linked to its condition variable, and to
the wheel when it is timed. -/
theorem wait_effect (hr : Represents s v) {c : Co} {rest : List Co} (hs : s.stack = c :: rest)
    (cv : Nat) (timeOut : Int) (now : Nat) :
    ∃ t w, conditionVariableWait s c cv timeOut now = some t ∧
      Effect s v (.wait cv timeOut now) t w ∧ Represents t w := by
  unfold conditionVariableWait
  dsimp only
  by_cases htimed : 0 < timeOut
  · rw [if_pos htimed]
    cases addTimeOut_cases s.wheel s.links (.cond s.next) (toSizeT (now + timeOut)) now with
    | inl hrefused =>
        obtain ⟨hno, ret, hret, heq⟩ := hrefused
        rw [heq, if_pos hret]
        exact ⟨_, _, rfl, .waitRefused ret hno htimed, hr.links, hr.conds⟩
    | inr haccepted =>
        obtain ⟨hyes, heq⟩ := haccepted
        rw [heq, if_neg (fun h => h rfl)]
        exact ⟨_, _, coYeild_eq hs, .waitTimed _ _ hs hyes htimed, hr.links.appended _ _,
          hr.conds.appended _ _⟩
  · rw [if_neg htimed]
    exact ⟨_, _, coYeild_eq hs, .waitUntimed _ hs (by omega), hr.links,
      hr.conds.appended _ _⟩

/-- A waiter leaves the wheel, if it is there, and goes to the end of `ActiveLink`. -/
theorem wake_effect (hr : Represents s v) (k : Nat) : ∃ links, wake s k = some { s with links } ∧
    Represents { s with links } { v with event := woken v.event k } := by
  obtain ⟨links, hrem, hr'⟩ := hr.links.erased (.cond k)
  unfold wake
  rw [hrem]
  exact ⟨_, rfl, hr'.appended _ _, hr.conds⟩

/-- `PopFromLink` hands out the first waiter, if there is one. -/
theorem popFromLink_effect (hr : Represents s v) (cv : Nat) :
    (v.cond cv = [] ∧ popFromLink s cv = (none, s)) ∨
    ∃ k ks, v.cond cv = k :: ks ∧ ∃ conds, popFromLink s cv = (some k, { s with conds }) ∧
      Represents { s with conds } { v with cond := Function.update v.cond cv ks } := by
  have hhead := hr.conds.head cv
  have hpop := hr.conds.popped cv
  unfold popFromLink
  cases hcv : v.cond cv with
  | nil =>
      rw [hcv] at hhead
      rw [hhead]
      exact Or.inl ⟨rfl, rfl⟩
  | cons k ks =>
      rw [hcv] at hhead hpop
      rw [hhead]
      exact Or.inr ⟨k, ks, rfl, _, rfl, hr.links, hpop⟩

/-- A signal without waiters does nothing; with waiters it wakes the first of them. -/
theorem signal_effect (hr : Represents s v) (cv : Nat) :
    ∃ t w, conditionVariableSignal s cv = some t ∧ Effect s v (.signal cv) t w ∧
      Represents t w := by
  unfold conditionVariableSignal
  cases popFromLink_effect hr cv with
  | inl hnone =>
      obtain ⟨hcv, hpop⟩ := hnone
      rw [hpop]
      exact ⟨s, v, rfl, .signalNone hcv, hr⟩
  | inr hsome =>
      obtain ⟨k, ks, hcv, conds, hpop, hr'⟩ := hsome
      have hlog : Represents { s with conds, log := s.log ++ [.signalled cv k] }
          { v with cond := Function.update v.cond cv ks } := ⟨hr'.links, hr'.conds⟩
      obtain ⟨links, hwake, hr''⟩ := wake_effect hlog k
      rw [hpop]
      exact ⟨_, _, hwake, .signal links conds hcv, hr''⟩

/-- The loop of `ConditionVariableBroadcast` ends at an empty list ... -/
theorem broadcastLoop_empty (hr : Represents s v) {cv : Nat} (hcv : v.cond cv = []) (fuel : Nat) :
    broadcastLoop cv fuel s = some s := by
  have hpop : popFromLink s cv = (none, s) := by
    cases popFromLink_effect hr cv with
    | inl hnone => exact hnone.2
    | inr hsome =>
        obtain ⟨k, ks, hcons, -⟩ := hsome
        rw [hcv] at hcons
        cases hcons
  cases fuel with
  | zero =>
      unfold broadcastLoop
      rw [hpop]
  | succ fuel =>
      unfold broadcastLoop
      rw [hpop]

/-- ... and wakes the whole list, first to last. -/
theorem broadcast_loop_effect (cv : Nat) : ∀ (fuel : Nat) {s : Loop} {v : Lists},
    Represents s v → (v.cond cv).length ≤ fuel → ∃ links conds,
      broadcastLoop cv fuel s = some { s with
        links, conds, log := s.log ++ (v.cond cv).map (.broadcast cv) } ∧
      Repr links ((v.cond cv).foldl woken v.event) ∧
      Repr conds (Function.update v.cond cv []) := by
  -- where the list is empty nothing happens, whatever fuel is left
  have hempty : ∀ (fuel : Nat) {s : Loop} {v : Lists}, Represents s v → v.cond cv = [] →
      ∃ links conds,
        broadcastLoop cv fuel s = some { s with
          links, conds, log := s.log ++ (v.cond cv).map (.broadcast cv) } ∧
        Repr links ((v.cond cv).foldl woken v.event) ∧
        Repr conds (Function.update v.cond cv []) := by
    intro fuel s v hr hcv
    refine ⟨s.links, s.conds, ?_, ?_, ?_⟩
    · rw [broadcastLoop_empty hr hcv, hcv, List.map_nil, List.append_nil]
    · rw [hcv]
      exact hr.links
    · rw [← hcv, Function.update_eq_self]
      exact hr.conds
  intro fuel
  induction fuel with
  | zero =>
      intro s v hr hlen
      exact hempty 0 hr (List.length_eq_zero_iff.mp (by omega))
  | succ fuel ih =>
      intro s v hr hlen
      cases popFromLink_effect hr cv with
      | inl hnone => exact hempty _ hr hnone.1
      | inr hsome =>
          obtain ⟨k, ks, hcv, conds, hpop, hr'⟩ := hsome
          have hlog : Represents { s with conds, log := s.log ++ [.broadcast cv k] }
              { v with cond := Function.update v.cond cv ks } := ⟨hr'.links, hr'.conds⟩
          obtain ⟨links, hwake, hr''⟩ := wake_effect hlog k
          have hks : Function.update v.cond cv ks cv = ks := Function.update_self _ _ _
          obtain ⟨links', conds', hloop, hl, hc⟩ := ih hr'' (by
            rw [hcv] at hlen
            show (Function.update v.cond cv ks cv).length ≤ fuel
            rw [hks]
            simpa using hlen)
          unfold broadcastLoop
          rw [hpop]
          dsimp only
          rw [hwake]
          dsimp only at hloop hl hc ⊢
          rw [hks] at hloop hl
          refine ⟨links', conds', ?_, ?_, ?_⟩
          · rw [hloop, hcv, List.map_cons, List.append_assoc, List.singleton_append]
          · rw [hcv, List.foldl_cons]
            exact hl
          · rw [Function.update_idem] at hc
            exact hc

/-- A broadcast wakes all of them, first to last. -/
theorem broadcast_effect (hr : Represents s v) (cv : Nat) :
    ∃ t w, conditionVariableBroadcast s cv = some t ∧ Effect s v (.broadcast cv) t w ∧
      Represents t w := by
  obtain ⟨links, conds, hloop, hl, hc⟩ :=
    broadcast_loop_effect cv s.conds.inserted hr (hr.conds.length_le cv)
  exact ⟨_, _, hloop, .broadcast links conds, hl, hc⟩

/-- The first event of a call moves it from the wheel to `ActiveLink`, and further ones are only counted. -/
theorem prepare_effect (hr : Represents s v) {k i : Nat} {rest : List (Nat × Nat)}
    (hphase : s.phase = .dispatch ((k, i) :: rest)) (hlive : s.polls k ≠ none) :
    ∃ t w, coPrepare { s with phase := .dispatch rest } k i = some t ∧ Effect s v .prepare t w ∧
      Represents t w := by
  obtain ⟨p, hp⟩ := Option.ne_none_iff_exists'.mp hlive
  unfold coPrepare
  dsimp only
  rw [hp]
  cases hh : p.IsHandle with
  | true =>
      dsimp only
      rw [if_pos hh]
      exact ⟨_, _, rfl, .prepareAgain hphase hp hh, hr.links, hr.conds⟩
  | false =>
      obtain ⟨links, hrem, hr'⟩ := hr.links.erased (.poll k)
      have hnot : ¬ p.IsHandle = true := by simp [hh]
      dsimp only
      rw [if_neg hnot, hrem]
      exact ⟨_, _, rfl, .prepare _ hphase hp hh, hr'.appended _ _, hr.conds⟩

/-- A take-out empties the slots that have passed, through `TimeoutLink`, into `ActiveLink`. -/
theorem takeOut_effect (hr : Represents s v) (now : Nat) :
    ∃ t w, takeOut s now = some t ∧ Effect s v (.takeOut now) t w ∧
      Represents t w := by
  obtain ⟨links, n, htake, hr₁, hsize, hearly, hpast, -⟩ :=
    takeOutTimeout_spec hr.links s.wheel now EventLink.TimeoutLink
  have hne : activeLink ≠ timeoutLink := by decide
  obtain ⟨links', hjoin, hr₂⟩ := hr₁.join hne
  unfold takeOut
  rw [htake]
  dsimp only
  rw [hjoin, hr₁.items]
  exact ⟨_, _, rfl, .takeOut links' hsize hearly hpast rfl, hr₂, hr.conds⟩

/-- A turn of the drain resumes the head of `ActiveLink`, or ends the drain when there is none. -/
theorem drain_effect (hr : Represents s v)
    (hlive : ∀ n ∈ (v.event activeLink).head?, s.itemCo n.call ≠ none) :
    ∃ t w, drainOne s = some t ∧ Effect s v .drain t w ∧
      Represents t w := by
  have hhead := hr.links.head activeLink
  have hpop := hr.links.popped activeLink
  unfold drainOne
  cases hactive : v.event activeLink with
  | nil =>
      rw [hactive] at hhead
      rw [hhead]
      exact ⟨_, _, rfl, .drainOver hactive, hr.links, hr.conds⟩
  | cons n ns =>
      rw [hactive] at hhead hpop hlive
      obtain ⟨co, hco⟩ := Option.ne_none_iff_exists'.mp (hlive n rfl)
      rw [hhead]
      dsimp only [List.head?_cons]
      rw [hco]
      exact ⟨_, _, rfl, .drain _ hactive hco, hpop, hr.conds⟩

/-- A call that is resumed unlinks what it left and returns. -/
theorem back_effect (hr : Represents s v) {c : Co} {rest : List Co} {x : Call}
    (hs : s.stack = c :: rest) (hstage : s.stage c = .back x)
    (hlive : ∀ k, x = .poll k → s.polls k ≠ none) :
    ∃ t w, s.step .back = some t ∧ Effect s v .back t w ∧
      Represents t w := by
  simp only [Loop.step, getCurrCo, hs, List.head?_cons, Option.bind_some, hstage]
  cases x with
  | poll k =>
      obtain ⟨links, hrem, hr'⟩ := hr.links.erased (.poll k)
      obtain ⟨p, hp⟩ := Option.ne_none_iff_exists'.mp (hlive k rfl)
      unfold coPollInnerBack
      dsimp only
      rw [hp]
      dsimp only
      rw [hrem]
      exact ⟨_, _, rfl, .pollBack links hs hstage hp, hr', hr.conds⟩
  | wait k =>
      obtain ⟨conds, hrem, hr'⟩ := hr.conds.erased k
      dsimp only
      unfold conditionVariableWaitBack
      rw [hrem]
      exact ⟨_, _, rfl, .waitBack conds hs hstage, hr.links, hr'⟩

/-- A coroutine that is back is back from one of its calls. -/
theorem Stage.exists_of_isBack {st : Stage} (h : st.isBack = true) : ∃ x, st = .back x := by
  cases st with
  | back x => exact ⟨x, rfl⟩
  | _ => cases h

/-- While there are events left there is a next one. -/
theorem Phase.exists_of_hasEvent {ph : Phase} (h : ph.hasEvent = true) :
    ∃ e rest, ph = .dispatch (e :: rest) := by
  cases ph with
  | dispatch batch =>
      cases batch with
      | nil => cases h
      | cons e rest => exact ⟨e, rest, rfl⟩
  | _ => cases h

/-- The memory that the code uses without a check of its own is there. -/
def Loop.Live (s : Loop) (v : Lists) : Action → Prop
  | .back => ∀ c k, getCurrCo s = some c → s.stage c = .back (.poll k) → s.polls k ≠ none
  | .prepare => ∀ e rest, s.phase = .dispatch (e :: rest) → s.polls e.1 ≠ none
  | .drain => ∀ n ∈ (v.event activeLink).head?, s.itemCo n.call ≠ none
  | _ => True

/-- **Every allowed step that only uses live memory returns, with its effect.** -/
theorem step_effect (hr : Represents s v) {a : Action} (hok : s.Allowed a) (hlive : s.Live v a) :
    ∃ t w, s.step a = some t ∧ Effect s v a t w ∧
      Represents t w := by
  have hturn : s.UserTurn → ∃ c rest, s.stack = c :: rest := by
    intro h
    obtain ⟨c, hc, -⟩ := h
    exact ⟨c, List.head?_eq_some_iff.mp hc⟩
  cases a with
  | resume co => exact ⟨_, v, rfl, .resume co, hr.links, hr.conds⟩
  | yeild =>
      obtain ⟨c, rest, hs⟩ := hturn hok.1
      exact ⟨_, v, coYeild_eq hs, .yeild hs, hr.links, hr.conds⟩
  | finish =>
      obtain ⟨c, rest, hs⟩ := hturn hok.1
      exact ⟨_, v, coYeild_eq hs, .finish hs, hr.links, hr.conds⟩
  | poll fds timeout now =>
      obtain ⟨c, rest, hs⟩ := hturn hok.1
      simp only [Loop.step, getCurrCo, hs, List.head?_cons, Option.bind_some]
      exact poll_effect hr hs fds timeout now
  | wait cv timeOut now =>
      obtain ⟨c, rest, hs⟩ := hturn hok.1
      simp only [Loop.step, getCurrCo, hs, List.head?_cons, Option.bind_some]
      exact wait_effect hr hs cv timeOut now
  | signal cv => exact signal_effect hr cv
  | broadcast cv => exact broadcast_effect hr cv
  | back =>
      obtain ⟨c, hc, hback⟩ := hok
      obtain ⟨rest, hs⟩ := List.head?_eq_some_iff.mp hc
      obtain ⟨x, hx⟩ := Stage.exists_of_isBack hback
      exact back_effect hr hs hx fun k hk => hlive c k hc (by rw [hx, hk])
  | epollWait batch => exact ⟨_, v, rfl, .epollWait batch, hr.links, hr.conds⟩
  | prepare =>
      obtain ⟨-, hevent⟩ := hok
      obtain ⟨⟨k, i⟩, rest, hphase⟩ := Phase.exists_of_hasEvent hevent
      simp only [Loop.step, hphase]
      exact prepare_effect hr hphase (hlive (k, i) rest hphase)
  | takeOut now => exact takeOut_effect hr now
  | drain => exact drain_effect hr hlive

end RocketCo.CoRoutine
