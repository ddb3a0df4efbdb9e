/-
  RocketCo.CoRoutine.EventLoop — blocked coroutines and the loop that wakes them.

  The state of one thread's event loop and the steps that change it:

      Co_resume, Co_yeild, the end of a coroutine      — the call stack
      Co_poll_inner                                    — blocks on a `Stpoll_t`
      ConditionVariableWait / Signal / Broadcast       — blocks on, and wakes through, a list
      EventLoop: Epoll_Wait, CoPrepare_ per event, TakeOutTimeout, Join, one turn of the drain

  A call that blocks is split at its `Co_yeild`: one step up to it, one step (`back`) from the
  moment it is resumed to its return.  Only the coroutine on top of the call stack moves; while
  that is the main coroutine it is either in user code (before, between and after the rounds, in
  `fun(args)`) or inside `EventLoop`.

  Memory obtained with `new` is a table entry that goes with the `delete`; using an entry that is
  gone is `none`.  All registrations with epoll succeed here, and an event's `data.ptr` is intact.
-/
import RocketCo.CoRoutine.TimeWheel
import RocketCo.Lib.Run

namespace RocketCo.CoRoutine

/-! ## §1. Data. -/

/-- A coroutine; `mainCo` is the one that runs `EventLoop`. -/
abbrev Co := Nat

def mainCo : Co := 0

/-- A call that blocks, by the address of what it allocates. -/
inductive Call where
  /-- `Co_poll_inner` with its `Stpoll_t`. -/
  | poll (k : Nat)
  /-- `ConditionVariableWait` with its `ConditionVariableItem`. -/
  | wait (k : Nat)
  deriving DecidableEq

/-- The `CoEventItem`s: a `Stpoll_t` itself, one of its `StPollItem`s, the `Item` of a
`ConditionVariableItem`. -/
inductive Node where
  | poll (k : Nat)
  | item (k i : Nat)
  | cond (k : Nat)
  deriving DecidableEq

/-- The call a node is part of. -/
def Node.call : Node → Call
  | .poll k => .poll k
  | .item k _ => .poll k
  | .cond k => .wait k

/-- The two lists of an event loop outside its wheel. -/
inductive EventLink where
  | TimeoutLink
  | ActiveLink
  deriving DecidableEq

abbrev timeoutLink : Place EventLink := .other .TimeoutLink

abbrev activeLink : Place EventLink := .other .ActiveLink

structure PollFd where
  fd : Int
  events : BitVec 16
  deriving DecidableEq

/-- `Stpoll_t`. -/
structure Stpoll where
  ItemCo : Co
  fds : List PollFd
  ExpireTime : Nat
  IsHandle : Bool
  RaisedNumber : Nat

/-- `ConditionVariableItem`. -/
structure CondItem where
  ItemCo : Co
  ExpireTime : Nat

/-- Where a coroutine stands. -/
inductive Stage where
  | fresh
  | running
  | yielded
  | blocked (c : Call)
  /-- Resumed inside the blocking call, which has not returned yet. -/
  | back (c : Call)
  | ended
  deriving DecidableEq

def Stage.isBack : Stage → Bool
  | .back _ => true
  | _ => false

/-- Where the main coroutine stands. -/
inductive Phase where
  | user
  /-- In the loop over the events of one `Epoll_Wait`; these are left. -/
  | dispatch (rest : List (Nat × Nat))
  /-- In the loop over `ActiveLink`. -/
  | drain
  deriving DecidableEq

def Phase.hasEvent : Phase → Bool
  | .dispatch (_ :: _) => true
  | _ => false

/-- What has happened so far (a ghost). -/
inductive Event where
  | delivered (k i : Nat)
  | takenOut (n : Node)
  /-- The item is put on the list of a condition variable. -/
  | waited (cv k : Nat)
  | signalled (cv k : Nat)
  | broadcast (cv k : Nat)
  | resumed (n : Node)
  /-- The blocking call returns this value. -/
  | returned (c : Call) (ret : Int)
  deriving DecidableEq

/-- The state of one thread.  `stack` is the call stack, top first; `now` and `log` are ghosts, the
last clock reading and what has happened. -/
structure Loop where
  wheel : TimeWheel
  links : Links Node (Place EventLink)
  conds : Links Nat Nat
  polls : Nat → Option Stpoll
  items : Nat → Option CondItem
  next : Nat
  stack : List Co
  stage : Co → Stage
  phase : Phase
  now : Nat
  log : List Event

/-- After `init_thisThread_Env`: the main coroutine runs, nothing is blocked. -/
def Loop.init : Loop where
  wheel := .default
  links := .empty
  conds := .empty
  polls := fun _ => none
  items := fun _ => none
  next := 0
  stack := [mainCo]
  stage := fun c => if c = mainCo then .running else .fresh
  phase := .user
  now := 0
  log := []

/-- The coroutine that made a blocking call, while the call's memory is there. -/
def Loop.itemCo (s : Loop) : Call → Option Co
  | .poll k => (s.polls k).map Stpoll.ItemCo
  | .wait k => (s.items k).map CondItem.ItemCo

/-! ## §2. Switching. -/

/-- `Co_resume`. -/
def coResume (s : Loop) (co : Co) (stage : Stage) : Loop :=
  { s with stack := co :: s.stack, stage := Function.update s.stage co stage }

/-- `Co_yeild`, by the coroutine on top of the stack; `stage` says how it leaves. -/
def coYeild (s : Loop) (stage : Stage) : Option Loop :=
  match s.stack with
  | [] => none
  | c :: rest => some { s with stack := rest, stage := Function.update s.stage c stage }

/-- `GetCurrCo`. -/
def getCurrCo (s : Loop) : Option Co := s.stack.head?

/-! ## §3. The blocking calls. -/

/-- `Co_poll_inner` up to `Co_yeild`, or to the end when `AddTimeOut` turns `poll_` down. -/
def coPollInner (s : Loop) (self : Co) (fds : List PollFd) (timeout : Int) (now : Nat) :
    Option Loop :=
  let k := s.next
  let expireTime := toSizeT (now + timeout)
  let r := addTimeOut s.wheel s.links (.poll k) expireTime now
  let s := { s with wheel := r.2.1, links := r.2.2, next := k + 1, now }
  -- the clean-up behind the `if` runs in both cases; here it is the whole rest of the call
  if r.1 ≠ 0 then
    (removeFromWheel s.links (.poll k)).map fun links =>
      { s with links, log := s.log ++ [.returned (.poll k) (-1)] }
  else
    coYeild
      { s with polls := Function.update s.polls k (some ⟨self, fds, expireTime, false, 0⟩) }
      (.blocked (.poll k))

/-- `Co_poll_inner` from `Co_yeild` on. -/
def coPollInnerBack (s : Loop) (self : Co) (k : Nat) : Option Loop :=
  match s.polls k with
  | none => none
  | some poll =>
      (removeFromWheel s.links (.poll k)).map fun links =>
        { s with
          links
          polls := Function.update s.polls k none
          stage := Function.update s.stage self .running
          log := s.log ++ [.returned (.poll k) poll.RaisedNumber] }

/-- `ConditionVariableWait` up to `Co_yeild`, or to the end when `AddTimeOut` turns it down. -/
def conditionVariableWait (s : Loop) (self : Co) (cv : Nat) (timeOut : Int) (now : Nat) :
    Option Loop :=
  let k := s.next
  let s := { s with next := k + 1 }
  if 0 < timeOut then
    let expireTime := toSizeT (now + timeOut)
    let r := addTimeOut s.wheel s.links (.cond k) expireTime now
    let s := { s with wheel := r.2.1, links := r.2.2, now }
    -- `delete Item` before it is on the list
    if r.1 ≠ 0 then some { s with log := s.log ++ [.returned (.wait k) r.1] }
    else
      coYeild
        { s with
          conds := addTail s.conds cv k
          items := Function.update s.items k (some ⟨self, expireTime⟩)
          log := s.log ++ [.waited cv k] }
        (.blocked (.wait k))
  else
    coYeild
      { s with
        conds := addTail s.conds cv k
        items := Function.update s.items k (some ⟨self, 0⟩)
        log := s.log ++ [.waited cv k] }
      (.blocked (.wait k))

/-- `ConditionVariableWait` from `Co_yeild` on. -/
def conditionVariableWaitBack (s : Loop) (self : Co) (k : Nat) : Option Loop :=
  (removeFromWheel s.conds k).map fun conds =>
    { s with
      conds
      items := Function.update s.items k none
      stage := Function.update s.stage self .running
      log := s.log ++ [.returned (.wait k) (-1)] }

/-- A popped waiter goes from wherever it is linked to the end of `ActiveLink`. -/
def wake (s : Loop) (k : Nat) : Option Loop :=
  (removeFromWheel s.links (.cond k)).map fun links =>
    { s with links := addTail links activeLink (.cond k) }

/-- `PopFromLink`. -/
def popFromLink (s : Loop) (cv : Nat) : Option Nat × Loop :=
  match s.conds.head cv with
  | none => (none, s)
  | some k => (some k, { s with conds := popHead s.conds cv })

/-- `ConditionVariableSignal`; it returns `0` when a waiter was popped and `-1` otherwise. -/
def conditionVariableSignal (s : Loop) (cv : Nat) : Option Loop :=
  match popFromLink s cv with
  | (none, s) => some s
  | (some k, s) => wake { s with log := s.log ++ [.signalled cv k] } k

/-- The loop of `ConditionVariableBroadcast`; the fuel is a bound on the length of the list. -/
def broadcastLoop (cv : Nat) : Nat → Loop → Option Loop
  | fuel, s =>
      match popFromLink s cv with
      | (none, s) => some s
      | (some k, s) =>
          match fuel with
          | 0 => none
          | fuel + 1 =>
              match wake { s with log := s.log ++ [.broadcast cv k] } k with
              | none => none
              | some s => broadcastLoop cv fuel s

/-- `ConditionVariableBroadcast`. -/
def conditionVariableBroadcast (s : Loop) (cv : Nat) : Option Loop :=
  broadcastLoop cv s.conds.inserted s

/-! ## §4. One round of `EventLoop`. -/

/-- `CoPrepare_`, for the event on item `i` of the poll `k`. -/
def coPrepare (s : Loop) (k i : Nat) : Option Loop :=
  match s.polls k with
  | none => none
  | some poll =>
      let s := { s with log := s.log ++ [Event.delivered k i] }
      let poll := { poll with RaisedNumber := poll.RaisedNumber + 1 }
      -- a second event of the same call is counted and otherwise ignored
      if poll.IsHandle then some { s with polls := Function.update s.polls k (some poll) }
      else
        (removeFromWheel s.links (.poll k)).map fun links =>
          { s with
            links := addTail links activeLink (.item k i)
            polls := Function.update s.polls k (some { poll with IsHandle := true }) }

/-- From the clock reading to the drain: `TakeOutTimeout`, then `Join` of `TimeoutLink` to
`ActiveLink`. -/
def takeOut (s : Loop) (now : Nat) : Option Loop :=
  match takeOutTimeout s.wheel s.links now .TimeoutLink with
  | none => none
  | some (wheel, links) =>
      (join links activeLink timeoutLink).map fun links' =>
        -- what is on `TimeoutLink` before `Join` is what `SetUpTimepoutLable` marks
        { s with
          wheel, links := links', now, phase := .drain
          log := s.log ++ (links.items timeoutLink).map .takenOut }

/-- One turn of `while(item)`: `PopHead`, then `CoPrecoss`, which is `Co_resume` for every item.  When
`ActiveLink` is empty the round is over. -/
def drainOne (s : Loop) : Option Loop :=
  match s.links.head activeLink with
  | none => some { s with phase := .user }
  | some item =>
      match s.itemCo item.call with
      | none => none
      | some co =>
          some (coResume
            { s with links := popHead s.links activeLink, log := s.log ++ [.resumed item] }
            co (.back item.call))

/-! ## §5. Steps. -/

inductive Action where
  | resume (co : Co)
  | yeild
  /-- The end of `Co_realRunningFun`. -/
  | finish
  | poll (fds : List PollFd) (timeout : Int) (now : Nat)
  | wait (cv : Nat) (timeOut : Int) (now : Nat)
  | signal (cv : Nat)
  | broadcast (cv : Nat)
  /-- The blocking call that was just resumed cleans up and returns. -/
  | back
  /-- `Epoll_Wait` returns these events: pairs of a `Stpoll_t` and an index. -/
  | epollWait (batch : List (Nat × Nat))
  | prepare
  | takeOut (now : Nat)
  | drain
  deriving DecidableEq

namespace Loop

/-- What the code computes. -/
def step (s : Loop) : Action → Option Loop
  | .resume co => some (coResume s co .running)
  | .yeild => coYeild s .yielded
  | .finish => coYeild s .ended
  | .poll fds timeout now => (getCurrCo s).bind fun self => coPollInner s self fds timeout now
  | .wait cv timeOut now =>
      (getCurrCo s).bind fun self => conditionVariableWait s self cv timeOut now
  | .signal cv => conditionVariableSignal s cv
  | .broadcast cv => conditionVariableBroadcast s cv
  | .back =>
      (getCurrCo s).bind fun self =>
        match s.stage self with
        | .back (.poll k) => coPollInnerBack s self k
        | .back (.wait k) => conditionVariableWaitBack s self k
        | _ => none
  | .epollWait batch => some { s with phase := .dispatch batch }
  | .prepare =>
      match s.phase with
      | .dispatch ((k, i) :: rest) => coPrepare { s with phase := .dispatch rest } k i
      | _ => none
  | .takeOut now => takeOut s now
  | .drain => drainOne s

/-- User code runs: not a blocking call that was just resumed, nor `EventLoop`. -/
def UserTurn (s : Loop) : Prop :=
  ∃ c ∈ getCurrCo s, s.stage c = .running ∧ (c = mainCo → s.phase = .user)

instance (s : Loop) : Decidable s.UserTurn := inferInstanceAs (Decidable (∃ c ∈ getCurrCo s, _))

/-- User code runs in a coroutine other than the main one. -/
def CoTurn (s : Loop) : Prop := s.UserTurn ∧ getCurrCo s ≠ some mainCo

instance (s : Loop) : Decidable s.CoTurn := inferInstanceAs (Decidable (_ ∧ _))

/-- It is not the main coroutine that calls. -/
theorem CoTurn.ne_main {s : Loop} {c : Co} (h : s.CoTurn) (hcur : getCurrCo s = some c) :
    c ≠ mainCo := by
  intro heq
  rw [heq] at hcur
  exact h.2 hcur

/-- The event `(k, i)` is one of a currently suspended `Co_poll_inner`. -/
def Suspended (s : Loop) (e : Nat × Nat) : Prop :=
  ∃ p ∈ s.polls e.1, s.stage p.ItemCo = .blocked (.poll e.1) ∧ e.2 < p.fds.length

instance (s : Loop) (e : Nat × Nat) : Decidable (s.Suspended e) :=
  inferInstanceAs (Decidable (∃ p ∈ s.polls e.1, _))

/-- Who may do what: the rules of the API (a coroutine that is blocked in `Co_poll_inner` or
`ConditionVariableWait` is resumed by the loop alone), the kernel's (events are of suspended
calls), and the order of statements in `EventLoop`. -/
def Allowed (s : Loop) : Action → Prop
  | .resume co => s.UserTurn ∧ co ∉ s.stack ∧ (s.stage co = .fresh ∨ s.stage co = .yielded)
  | .yeild | .finish => s.CoTurn
  | .poll _ _ _ | .wait _ _ _ => s.CoTurn
  | .signal _ | .broadcast _ => s.UserTurn
  | .back => ∃ c ∈ getCurrCo s, (s.stage c).isBack
  | .epollWait batch => s.stack = [mainCo] ∧ s.phase = .user ∧ ∀ e ∈ batch, s.Suspended e
  | .prepare => s.stack = [mainCo] ∧ s.phase.hasEvent
  | .takeOut _ => s.stack = [mainCo] ∧ s.phase = .dispatch []
  | .drain => s.stack = [mainCo] ∧ s.phase = .drain

instance (s : Loop) (a : Action) : Decidable (s.Allowed a) :=
  match a with
  | .resume _ => inferInstanceAs (Decidable (_ ∧ _))
  | .yeild => inferInstanceAs (Decidable s.CoTurn)
  | .finish => inferInstanceAs (Decidable s.CoTurn)
  | .poll _ _ _ => inferInstanceAs (Decidable s.CoTurn)
  | .wait _ _ _ => inferInstanceAs (Decidable s.CoTurn)
  | .signal _ => inferInstanceAs (Decidable s.UserTurn)
  | .broadcast _ => inferInstanceAs (Decidable s.UserTurn)
  | .back => inferInstanceAs (Decidable (∃ c ∈ getCurrCo s, _))
  | .epollWait _ => inferInstanceAs (Decidable (_ ∧ _))
  | .prepare => inferInstanceAs (Decidable (_ ∧ _))
  | .takeOut _ => inferInstanceAs (Decidable (_ ∧ _))
  | .drain => inferInstanceAs (Decidable (_ ∧ _))

/-- An allowed step. -/
def Step (s : Loop) (a : Action) (t : Loop) : Prop := s.Allowed a ∧ s.step a = some t

end Loop

end RocketCo.CoRoutine
