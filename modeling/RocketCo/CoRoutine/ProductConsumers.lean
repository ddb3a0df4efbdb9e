/-
  RocketCo.CoRoutine.ProductConsumers — producers and consumers over one condition variable.

  The program of the example of this name, for any number of coroutines of each kind:

      Product     push a task; ConditionVariableSignal; sleep in poll; again
      Consumer    pop while there are tasks; ConditionVariableWait without a timeout; again

  on the event loop of `EventLoop`.  The main coroutine starts them, and runs the loop.

  A signal moves one waiter to `ActiveLink`, and a consumer that runs leaves no task behind.  So tasks
  and a waiting consumer are there together only while a consumer is on its way.

  Main result: `no_lost_wakeup`.
-/
import RocketCo.CoRoutine.Condition

namespace RocketCo.CoRoutine

open RocketCo.Lib

/-! ## §1. The program. -/

/-- `TaskItem`, with the producer that made it (a ghost). -/
structure TaskItem where
  producer : Co
  id : Nat
  deriving DecidableEq

/-- Which coroutines there are, what each of them runs, and `TaskQueue::cond`. -/
structure Program where
  created : List Co
  isProducer : Co → Bool
  cond : Nat

/-- What `Product` does next. -/
inductive Line where
  | push
  | signal
  | poll
  deriving DecidableEq

/-- A thread that runs the program.  The last two fields are ghosts: the tasks pushed and popped so
far. -/
structure Shop where
  loop : Loop
  Task_Queue : List TaskItem
  id : Co → Nat
  line : Co → Line
  produced : List TaskItem
  consumed : List TaskItem

def Shop.init : Shop where
  loop := .init
  Task_Queue := []
  id := fun _ => 0
  line := fun _ => .push
  produced := []
  consumed := []

inductive ShopAction where
  /-- The main coroutine resumes one for the first time. -/
  | start (co : Co)
  | push
  | signal
  | sleep (fds : List PollFd) (timeout : Int) (now : Nat)
  | pop
  | wait (timeOut : Int) (now : Nat)
  /-- The blocking call that was just resumed returns, or a step of `EventLoop`. -/
  | loop (a : Action)

/-- The steps of the loop that the program has no part in. -/
def Action.ofLoop : Action → Bool
  | .back | .epollWait _ | .prepare | .takeOut _ | .drain => true
  | _ => false

namespace Shop

variable (p : Program)

/-- `env->Task_Queue.push(task)`, by producer `c`. -/
def push (s : Shop) (c : Co) : Shop :=
  let task : TaskItem := ⟨c, s.id c⟩
  { s with
    Task_Queue := s.Task_Queue ++ [task]
    id := Function.update s.id c (s.id c + 1)
    line := Function.update s.line c .signal
    produced := s.produced ++ [task] }

/-- `front` and `pop`. -/
def pop (s : Shop) : Option Shop :=
  match s.Task_Queue with
  | [] => none
  | task :: rest => some { s with Task_Queue := rest, consumed := s.consumed ++ [task] }

/-- A step of the loop, after which producer `c` is at `line`. -/
def call (s : Shop) (a : Action) (c : Co) (line : Line) : Option Shop :=
  (s.loop.step a).map fun loop => { s with loop, line := Function.update s.line c line }

def step (s : Shop) : ShopAction → Option Shop
  | .start co => (s.loop.step (.resume co)).map fun loop => { s with loop }
  | .push => (getCurrCo s.loop).map s.push
  | .signal => (getCurrCo s.loop).bind fun c => s.call (.signal p.cond) c .poll
  | .sleep fds timeout now =>
      (getCurrCo s.loop).bind fun c => s.call (.poll fds timeout now) c .push
  | .pop => s.pop
  | .wait timeOut now =>
      (s.loop.step (.wait p.cond timeOut now)).map fun loop => { s with loop }
  | .loop a => (s.loop.step a).map fun loop => { s with loop }

/-- A producer runs, and is at `line`. -/
def AtLine (s : Shop) (line : Line) : Prop :=
  s.loop.CoTurn ∧ ∃ c ∈ getCurrCo s.loop, p.isProducer c = true ∧ s.line c = line

/-- A consumer runs. -/
def ConsumerTurn (s : Shop) : Prop :=
  s.loop.CoTurn ∧ ∃ c ∈ getCurrCo s.loop, p.isProducer c = false

instance (s : Shop) (line : Line) : Decidable (s.AtLine p line) :=
  inferInstanceAs (Decidable (_ ∧ ∃ c ∈ getCurrCo s.loop, _))

instance (s : Shop) : Decidable (s.ConsumerTurn p) :=
  inferInstanceAs (Decidable (_ ∧ ∃ c ∈ getCurrCo s.loop, _))

/-- The order of statements in `main`, `Product` and `Consumer`. -/
def Allowed (s : Shop) : ShopAction → Prop
  | .start co =>
      co ∈ p.created ∧ s.loop.stage co = .fresh ∧ getCurrCo s.loop = some mainCo ∧
        s.loop.Allowed (.resume co)
  | .push => s.AtLine p .push
  | .signal => s.AtLine p .signal
  | .sleep _ _ _ => s.AtLine p .poll
  | .pop => s.ConsumerTurn p ∧ s.Task_Queue ≠ []
  | .wait timeOut _ => s.ConsumerTurn p ∧ s.Task_Queue = [] ∧ timeOut ≤ 0
  | .loop a => a.ofLoop = true ∧ s.loop.Allowed a

instance (s : Shop) (a : ShopAction) : Decidable (s.Allowed p a) :=
  match a with
  | .start _ => inferInstanceAs (Decidable (_ ∧ _))
  | .push => inferInstanceAs (Decidable (s.AtLine p .push))
  | .signal => inferInstanceAs (Decidable (s.AtLine p .signal))
  | .sleep _ _ _ => inferInstanceAs (Decidable (s.AtLine p .poll))
  | .pop => inferInstanceAs (Decidable (_ ∧ _))
  | .wait _ _ => inferInstanceAs (Decidable (_ ∧ _))
  | .loop _ => inferInstanceAs (Decidable (_ ∧ _))

def Step (s : Shop) (a : ShopAction) (t : Shop) : Prop := s.Allowed p a ∧ s.step p a = some t

/-- `EventLoop` is about to call `Epoll_Wait`. -/
def BeforeEpollWait (s : Shop) : Prop := s.loop.stack = [mainCo] ∧ s.loop.phase = .user

end Shop

/-! ## §2. Tasks. -/

/-- **The queue is first in, first out**, and no two tasks are the same. -/
structure TaskInv (s : Shop) : Prop where
  fifo : s.produced = s.consumed ++ s.Task_Queue
  past : ∀ task ∈ s.produced, task.id < s.id task.producer
  distinct : s.produced.Nodup

variable {p : Program} {s t : Shop} {a : ShopAction}

/-- No task was made yet. -/
theorem TaskInv.init : TaskInv .init := by
  constructor
  case fifo => rfl
  case past => exact fun task h => absurd h List.not_mem_nil
  case distinct => exact List.nodup_nil

/-- Other steps leave the tasks alone. -/
theorem TaskInv.congr (h : TaskInv s) (hqueue : t.Task_Queue = s.Task_Queue) (hid : t.id = s.id)
    (hproduced : t.produced = s.produced) (hconsumed : t.consumed = s.consumed) : TaskInv t := by
  constructor
  case fifo => rw [hproduced, hconsumed, hqueue]; exact h.fifo
  case past => rw [hproduced, hid]; exact h.past
  case distinct => rw [hproduced]; exact h.distinct

/-- A task goes to the end, with a number its producer has not used. -/
theorem TaskInv.push (h : TaskInv s) (c : Co) : TaskInv (s.push c) := by
  have hnew : (⟨c, s.id c⟩ : TaskItem) ∉ s.produced :=
    fun hin => Nat.lt_irrefl _ (h.past _ hin)
  constructor
  case fifo =>
    show s.produced ++ [_] = s.consumed ++ (s.Task_Queue ++ [_])
    rw [h.fifo, List.append_assoc]
  case past =>
    intro task hin
    have hle : s.id task.producer ≤ Function.update s.id c (s.id c + 1) task.producer := by
      by_cases hc : task.producer = c
      · rw [hc, Function.update_self]
        omega
      · rw [Function.update_of_ne hc]
    cases List.mem_append.mp hin with
    | inl hold => exact Nat.lt_of_lt_of_le (h.past task hold) hle
    | inr hone =>
        rw [List.mem_singleton.mp hone]
        show s.id c < Function.update s.id c (s.id c + 1) c
        rw [Function.update_self]
        omega
  case distinct =>
    show (s.produced ++ [_]).Nodup
    apply List.nodup_append.mpr
    refine ⟨h.distinct, List.nodup_singleton _, ?_⟩
    intro task hin other hother heq
    rw [heq, List.mem_singleton.mp hother] at hin
    exact hnew hin

/-- What is popped is the first task. -/
theorem pop_some (hpop : s.pop = some t) : ∃ task rest, s.Task_Queue = task :: rest ∧
    t = { s with Task_Queue := rest, consumed := s.consumed ++ [task] } := by
  unfold Shop.pop at hpop
  cases hqueue : s.Task_Queue with
  | nil =>
      rw [hqueue] at hpop
      cases hpop
  | cons task rest =>
      rw [hqueue] at hpop
      exact ⟨task, rest, rfl, (Option.some.inj hpop).symm⟩

/-- The first task goes from the queue to the consumed ones. -/
theorem TaskInv.pop (h : TaskInv s) (hpop : s.pop = some t) : TaskInv t := by
  obtain ⟨task, rest, hqueue, heq⟩ := pop_some hpop
  rw [heq]
  constructor
  case fifo =>
    show s.produced = s.consumed ++ [task] ++ rest
    rw [h.fifo, hqueue, List.append_assoc]
    rfl
  case past => exact h.past
  case distinct => exact h.distinct

theorem loop_some {b : Action}
    (h : ((s.loop.step b).map fun loop => { s with loop }) = some t) :
    ∃ loop, s.loop.step b = some loop ∧ t = { s with loop } := by
  obtain ⟨loop, hloop, heq⟩ := Option.map_eq_some_iff.mp h
  exact ⟨loop, hloop, heq.symm⟩

theorem call_some {b : Action} {line : Line}
    (h : ((getCurrCo s.loop).bind fun c => s.call b c line) = some t) :
    ∃ c loop, getCurrCo s.loop = some c ∧ s.loop.step b = some loop ∧
      t = { s with loop, line := Function.update s.line c line } := by
  obtain ⟨c, hc, hcall⟩ := Option.bind_eq_some_iff.mp h
  obtain ⟨loop, hloop, heq⟩ := Option.map_eq_some_iff.mp hcall
  exact ⟨c, loop, hc, hloop, heq.symm⟩

/-- Pushes and pops are the only steps that touch the tasks. -/
theorem TaskInv.step (h : TaskInv s) (hstep : s.Step p a t) : TaskInv t := by
  obtain ⟨-, hstep⟩ := hstep
  cases a with
  | push =>
      obtain ⟨c, -, heq⟩ := Option.map_eq_some_iff.mp hstep
      rw [← heq]
      exact h.push c
  | pop => exact h.pop hstep
  | start co =>
      obtain ⟨loop, -, heq⟩ := loop_some (b := .resume co) hstep
      rw [heq]
      exact h.congr rfl rfl rfl rfl
  | wait timeOut now =>
      obtain ⟨loop, -, heq⟩ := loop_some (b := .wait p.cond timeOut now) hstep
      rw [heq]
      exact h.congr rfl rfl rfl rfl
  | loop b =>
      obtain ⟨loop, -, heq⟩ := loop_some (b := b) hstep
      rw [heq]
      exact h.congr rfl rfl rfl rfl
  | signal =>
      obtain ⟨c, loop, -, -, heq⟩ := call_some (b := .signal p.cond) hstep
      rw [heq]
      exact h.congr rfl rfl rfl rfl
  | sleep fds timeout now =>
      obtain ⟨c, loop, -, -, heq⟩ := call_some (b := .poll fds timeout now) hstep
      rw [heq]
      exact h.congr rfl rfl rfl rfl

/-! ## §3. Consumers on their way. -/

/-- A consumer runs, in its own code or in `ConditionVariableWait`. -/
def Shop.ConsumerOn (p : Program) (s : Shop) : Prop :=
  ∃ c, getCurrCo s.loop = some c ∧ c ≠ mainCo ∧ p.isProducer c = false

/-- **Why tasks will be taken**: their producer has still to signal, no consumer waits to be told, one
has been told, or one is running. -/
def Shop.Pending (p : Program) (s : Shop) (v : Lists) : Prop :=
  (∃ c, s.line c = .signal) ∨ v.cond p.cond = [] ∨ (∃ k, Node.cond k ∈ v.event activeLink) ∨
    s.ConsumerOn p

/-- **What holds between two steps of the program.** -/
structure ShopInv (p : Program) (s : Shop) (v : Lists) : Prop where
  loop : LoopInv s.loop v
  waiter : ∀ k, s.loop.Blocked (.wait k) →
    k ∈ v.cond p.cond ∨ Node.cond k ∈ v.event activeLink
  consumer : ∀ c k, s.loop.stage c = .blocked (.wait k) → p.isProducer c = false
  line : ∀ c, s.line c ≠ .push →
    getCurrCo s.loop = some c ∧ c ≠ mainCo ∧ p.isProducer c = true
  pending : s.Task_Queue ≠ [] → s.Pending p v

variable {v w : Lists}

/-- At the start nobody waits, and the queue is empty. -/
theorem ShopInv.init (p : Program) : ShopInv p .init ⟨fun _ => [], fun _ => []⟩ := by
  have hstage : ∀ c x, Loop.init.stage c ≠ .blocked x := by
    intro c x
    show (if c = mainCo then Stage.running else .fresh) ≠ .blocked x
    by_cases hc : c = mainCo <;> simp [hc]
  constructor
  case loop => exact LoopInv.init
  case waiter =>
    intro k hb
    obtain ⟨c, hc⟩ := hb
    exact absurd hc (hstage c _)
  case consumer => exact fun c k hc => absurd hc (hstage c _)
  case line => exact fun c hne => absurd rfl hne
  case pending => exact fun hne => absurd rfl hne

/-- **Nobody moves**, and who is on `ActiveLink` stays there. -/
theorem ShopInv.relist (h : ShopInv p s v) (hloop : LoopInv t.loop w)
    (hstage : t.loop.stage = s.loop.stage) (hstack : t.loop.stack = s.loop.stack)
    (hline : t.line = s.line) (hqueue : t.Task_Queue = s.Task_Queue) (hcond : w.cond = v.cond)
    (hactive : ∀ k, Node.cond k ∈ v.event activeLink → Node.cond k ∈ w.event activeLink) :
    ShopInv p t w := by
  have hcur : getCurrCo t.loop = getCurrCo s.loop := by
    unfold getCurrCo
    rw [hstack]
  constructor
  case loop => exact hloop
  case waiter =>
    intro k hb
    unfold Loop.Blocked at hb
    rw [hstage] at hb
    rw [hcond]
    cases h.waiter k hb with
    | inl hin => exact Or.inl hin
    | inr hin => exact Or.inr (hactive k hin)
  case consumer => rw [hstage]; exact h.consumer
  case line => rw [hline, hcur]; exact h.line
  case pending =>
    intro hne
    rw [hqueue] at hne
    have hold := h.pending hne
    unfold Shop.Pending Shop.ConsumerOn at hold ⊢
    rw [hline, hcond, hcur]
    cases hold with
    | inl hsignal => exact Or.inl hsignal
    | inr hold =>
        cases hold with
        | inl hnone => exact Or.inr (Or.inl hnone)
        | inr hold =>
            cases hold with
            | inl hactive' =>
                obtain ⟨k, hk⟩ := hactive'
                exact Or.inr (Or.inr (Or.inl ⟨k, hactive k hk⟩))
            | inr hon => exact Or.inr (Or.inr (Or.inr hon))

/-- While the main coroutine runs no producer is in the middle of its loop. -/
theorem ShopInv.line_main (h : ShopInv p s v) (hmain : getCurrCo s.loop = some mainCo) (c : Co) :
    s.line c = .push := by
  by_contra hne
  obtain ⟨hcur, hc, -⟩ := h.line c hne
  rw [hmain] at hcur
  exact hc (Option.some.inj hcur).symm

/-- **What the main coroutine finds**: no consumer waits, or one has been told. -/
theorem ShopInv.pending_main (h : ShopInv p s v) (hmain : getCurrCo s.loop = some mainCo)
    (hne : s.Task_Queue ≠ []) :
    v.cond p.cond = [] ∨ ∃ k, Node.cond k ∈ v.event activeLink := by
  cases h.pending hne with
  | inl hsignal =>
      obtain ⟨c, hc⟩ := hsignal
      rw [h.line_main hmain c] at hc
      cases hc
  | inr hold =>
      cases hold with
      | inl hnone => exact Or.inl hnone
      | inr hold =>
          cases hold with
          | inl hactive => exact Or.inr hactive
          | inr hon =>
              obtain ⟨c, hcur, hc, -⟩ := hon
              rw [hmain] at hcur
              exact absurd (Option.some.inj hcur).symm hc

/-- **Nobody enters `ConditionVariableWait`**, and who stays in it stays where he is or is told. -/
theorem ShopInv.move (h : ShopInv p s v) (hloop : LoopInv t.loop w)
    (hblocked : ∀ c k, t.loop.stage c = .blocked (.wait k) → s.loop.stage c = .blocked (.wait k))
    (hcond : ∀ k, t.loop.Blocked (.wait k) → k ∈ v.cond p.cond →
      k ∈ w.cond p.cond ∨ Node.cond k ∈ w.event activeLink)
    (hactive : ∀ k, t.loop.Blocked (.wait k) → Node.cond k ∈ v.event activeLink →
      Node.cond k ∈ w.event activeLink)
    (hline : ∀ c, t.line c ≠ .push →
      getCurrCo t.loop = some c ∧ c ≠ mainCo ∧ p.isProducer c = true)
    (hpending : t.Task_Queue ≠ [] → t.Pending p w) : ShopInv p t w := by
  constructor
  case loop => exact hloop
  case waiter =>
    intro k hb
    obtain ⟨c, hc⟩ := hb
    cases h.waiter k ⟨c, hblocked c k hc⟩ with
    | inl hin => exact hcond k ⟨c, hc⟩ hin
    | inr hin => exact Or.inr (hactive k ⟨c, hc⟩ hin)
  case consumer => exact fun c k hc => h.consumer c k (hblocked c k hc)
  case line => exact hline
  case pending => exact hpending

/-- A coroutine that takes another stage than `blocked` blocks nobody. -/
theorem blocked_of_update {c d : Co} {st : Stage} {k : Nat} {stage : Co → Stage}
    (hst : st ≠ .blocked (.wait k)) (hd : Function.update stage c st d = .blocked (.wait k)) :
    stage d = .blocked (.wait k) := by
  by_cases hdc : d = c
  · rw [hdc, Function.update_self] at hd
    exact absurd hd hst
  · rwa [Function.update_of_ne hdc] at hd

/-- The main coroutine starts another one. -/
theorem ShopInv.start (h : ShopInv p s v) {co : Co} (hmain : getCurrCo s.loop = some mainCo)
    {loop : Loop} (heff : Effect s.loop v (.resume co) loop w) (hloop : LoopInv loop w) :
    ShopInv p { s with loop } w := by
  cases heff with
  | resume =>
      apply h.move hloop
      · exact fun c k hc => blocked_of_update (by simp) hc
      · exact fun k _ hk => Or.inl hk
      · exact fun k _ hk => hk
      · exact fun c hne => absurd (h.line_main hmain c) hne
      · intro hne
        cases h.pending_main hmain hne with
        | inl hnone => exact Or.inr (Or.inl hnone)
        | inr hactive => exact Or.inr (Or.inr (Or.inl hactive))

/-- The coroutine that is at a line. -/
theorem Shop.AtLine.running {line : Line} {c : Co} (hat : s.AtLine p line)
    (hcur : getCurrCo s.loop = some c) :
    c ≠ mainCo ∧ p.isProducer c = true ∧ s.line c = line := by
  obtain ⟨hturn, d, hd, hproducer, hline⟩ := hat
  have hdc : d = c := Option.some.inj (hd.symm.trans hcur)
  rw [hdc] at hproducer hline
  exact ⟨hturn.ne_main hcur, hproducer, hline⟩

/-- A producer that has pushed will signal. -/
theorem ShopInv.push (h : ShopInv p s v) (hat : s.AtLine p .push) {c : Co}
    (hcur : getCurrCo s.loop = some c) : ShopInv p (s.push c) v := by
  obtain ⟨hmain, hproducer, -⟩ := hat.running hcur
  apply h.move (t := s.push c) h.loop
  · exact fun _ _ hb => hb
  · exact fun k _ hk => Or.inl hk
  · exact fun k _ hk => hk
  · intro e he
    by_cases hec : e = c
    · rw [hec]
      exact ⟨hcur, hmain, hproducer⟩
    · have hold : s.line e ≠ .push := by
        have he' : Function.update s.line c .signal e ≠ .push := he
        rwa [Function.update_of_ne hec] at he'
      exact h.line e hold
  · exact fun _ => Or.inl ⟨c, Function.update_self _ _ _⟩

/-- The line of the running producer is the only one that is not `push`. -/
theorem ShopInv.line_update (h : ShopInv p s v) {c : Co} (hcur : getCurrCo s.loop = some c)
    {line : Line} {d : Co} (hd : Function.update s.line c line d ≠ .push) : d = c := by
  by_contra hdc
  rw [Function.update_of_ne hdc] at hd
  have hcur' := (h.line d hd).1
  rw [hcur] at hcur'
  exact hdc (Option.some.inj hcur').symm

/-- Its signal puts a waiter on `ActiveLink`, if there is one. -/
theorem ShopInv.signal (h : ShopInv p s v) (hat : s.AtLine p .signal) {c : Co}
    (hcur : getCurrCo s.loop = some c) {loop : Loop}
    (heff : Effect s.loop v (.signal p.cond) loop w) (hloop : LoopInv loop w) :
    ShopInv p { s with loop, line := Function.update s.line c .poll } w := by
  obtain ⟨hmain, hproducer, -⟩ := hat.running hcur
  have hnd := h.loop.rep.links.nodup
  cases heff with
  | signalNone hcv =>
      apply h.move (t := { s with line := Function.update s.line c .poll }) hloop
      · exact fun _ _ hb => hb
      · exact fun k _ hk => Or.inl hk
      · exact fun k _ hk => hk
      · intro e he
        rw [h.line_update hcur he]
        exact ⟨hcur, hmain, hproducer⟩
      · exact fun _ => Or.inr (Or.inl hcv)
  | @signal _ j ks links conds hcv =>
      apply h.move hloop
      · exact fun _ _ hb => hb
      · intro k _ hk
        rw [hcv] at hk
        cases List.mem_cons.mp hk with
        | inl heq => exact Or.inr ((mem_woken hnd).mpr (Or.inl (by rw [heq])))
        | inr hin =>
            apply Or.inl
            show k ∈ Function.update v.cond p.cond ks p.cond
            rw [Function.update_self]
            exact hin
      · exact fun k _ hk => (mem_woken hnd).mpr (Or.inr hk)
      · intro e he
        rw [h.line_update hcur he]
        exact ⟨hcur, hmain, hproducer⟩
      · -- the waiter that was popped is on its way
        exact fun _ => Or.inr (Or.inr (Or.inl ⟨j, (mem_woken hnd).mpr (Or.inl rfl)⟩))

/-- A producer that sleeps has signalled before. -/
theorem ShopInv.sleep (h : ShopInv p s v) (hat : s.AtLine p .poll) {c : Co}
    (hcur : getCurrCo s.loop = some c) {fds : List PollFd} {timeout : Int} {now : Nat}
    {loop : Loop} (heff : Effect s.loop v (.poll fds timeout now) loop w)
    (hloop : LoopInv loop w) :
    ShopInv p { s with loop, line := Function.update s.line c .push } w := by
  obtain ⟨-, hproducer, hline⟩ := hat.running hcur
  have hnone : ∀ e, Function.update s.line c .push e = .push := by
    intro e
    by_contra hne
    rw [h.line_update hcur hne, Function.update_self] at hne
    exact hne rfl
  -- the producer has signalled, so it leaves nothing undone
  have hold : s.Task_Queue ≠ [] → v.cond p.cond = [] ∨ ∃ k, Node.cond k ∈ v.event activeLink := by
    intro hne
    cases h.pending hne with
    | inl hsignal =>
        obtain ⟨e, he⟩ := hsignal
        have hec := (h.line e (by rw [he]; simp)).1
        rw [hcur] at hec
        rw [← Option.some.inj hec, hline] at he
        cases he
    | inr hrest =>
        cases hrest with
        | inl hempty => exact Or.inl hempty
        | inr hrest =>
            cases hrest with
            | inl hactive => exact Or.inr hactive
            | inr hon =>
                obtain ⟨e, he, -, hconsumer⟩ := hon
                rw [hcur] at he
                rw [← Option.some.inj he, hproducer] at hconsumer
                cases hconsumer
  cases heff with
  | pollRefused links hrefused =>
      have hactive : ∀ k, Node.cond k ∈ v.event activeLink →
          Node.cond k ∈ erased v.event (.poll s.loop.next) activeLink :=
        fun k hk => (cond_mem_erased (by simp [Node.call]) _).mpr hk
      apply h.move hloop
      · exact fun _ _ hb => hb
      · exact fun k _ hk => Or.inl hk
      · exact fun k _ hk => hactive k hk
      · exact fun e he => absurd (hnone e) he
      · intro hne
        cases hold hne with
        | inl hempty => exact Or.inr (Or.inl hempty)
        | inr hin =>
            obtain ⟨k, hk⟩ := hin
            exact Or.inr (Or.inr (Or.inl ⟨k, hactive k hk⟩))
  | pollBlocked links hs haccepted =>
      have hactive : ∀ j n, appended v.event (.slot j) n activeLink = v.event activeLink :=
        fun j n => appended_same (by simp)
      apply h.move hloop
      · exact fun e k he => blocked_of_update (by simp) he
      · exact fun k _ hk => Or.inl hk
      · intro k _ hk
        dsimp only
        rw [hactive]
        exact hk
      · exact fun e he => absurd (hnone e) he
      · intro hne
        cases hold hne with
        | inl hempty => exact Or.inr (Or.inl hempty)
        | inr hin =>
            apply Or.inr
            apply Or.inr
            apply Or.inl
            dsimp only
            rw [hactive]
            exact hin

/-- A consumer that has popped goes on to look at the queue. -/
theorem ShopInv.pop (h : ShopInv p s v) (hturn : s.ConsumerTurn p) (hpop : s.pop = some t) :
    ShopInv p t v := by
  obtain ⟨hco, c, hcur, hconsumer⟩ := hturn
  have hmain : c ≠ mainCo := hco.ne_main hcur
  obtain ⟨task, rest, -, heq⟩ := pop_some hpop
  rw [heq]
  apply h.move (t := { s with Task_Queue := rest, consumed := s.consumed ++ [task] }) h.loop
  · exact fun _ _ hb => hb
  · exact fun k _ hk => Or.inl hk
  · exact fun k _ hk => hk
  · exact h.line
  · exact fun _ => Or.inr (Or.inr (Or.inr ⟨c, hcur, hmain, hconsumer⟩))

/-- A consumer waits only when it has found no task. -/
theorem ShopInv.wait (h : ShopInv p s v) (hturn : s.ConsumerTurn p) (hempty : s.Task_Queue = [])
    {timeOut : Int} {now : Nat} (huntimed : timeOut ≤ 0) {loop : Loop}
    (heff : Effect s.loop v (.wait p.cond timeOut now) loop w) (hloop : LoopInv loop w) :
    ShopInv p { s with loop } w := by
  obtain ⟨hco, c, hcur, hconsumer⟩ := hturn
  -- the consumer runs, so the producer is not between its push and its signal
  have hline : ∀ e, s.line e = .push := by
    intro e
    by_contra hne
    obtain ⟨hcur', -, hproducer⟩ := h.line e hne
    have hec : c = e := Option.some.inj (Eq.trans (Eq.symm hcur) hcur')
    rw [← hec, hconsumer] at hproducer
    cases hproducer
  cases heff with
  | waitRefused ret hrefused htimed => omega
  | waitTimed links conds hs haccepted htimed => omega
  | @waitUntimed d rest _ _ _ conds hs _ =>
      have hdc : d = c := Option.some.inj ((getCurrCo_eq hs).symm.trans hcur)
      -- the number of the call has never been given out
      have hnew : ∀ cv, s.loop.next ∉ v.cond cv := by
        intro cv hin
        have hb := h.loop.waiter_blocked hco.1 hin
        exact Nat.lt_irrefl _ (h.loop.blocked_live hb).2
      constructor
      case loop => exact hloop
      case waiter =>
        intro k hb
        obtain ⟨e, he⟩ := hb
        have he' : Function.update s.loop.stage d (.blocked (.wait s.loop.next)) e =
          .blocked (.wait k) := he
        by_cases hed : e = d
        · rw [hed, Function.update_self] at he'
          have hk : s.loop.next = k := Call.wait.inj (Stage.blocked.inj he')
          rw [← hk]
          exact Or.inl (mem_appended.mpr (Or.inr ⟨rfl, rfl, hnew⟩))
        · rw [Function.update_of_ne hed] at he'
          cases h.waiter k ⟨e, he'⟩ with
          | inl hin => exact Or.inl (mem_appended.mpr (Or.inl hin))
          | inr hin => exact Or.inr hin
      case consumer =>
        intro e k he
        have he' : Function.update s.loop.stage d (.blocked (.wait s.loop.next)) e =
          .blocked (.wait k) := he
        by_cases hed : e = d
        · rw [hed, hdc]
          exact hconsumer
        · rw [Function.update_of_ne hed] at he'
          exact h.consumer e k he'
      case line => exact fun e hne => absurd (hline e) hne
      case pending => exact fun hne => absurd hempty hne

/-- The blocking call that was resumed returns. -/
theorem ShopInv.back (h : ShopInv p s v) {loop : Loop} (heff : Effect s.loop v .back loop w)
    (hloop : LoopInv loop w) : ShopInv p { s with loop } w := by
  cases heff with
  | @pollBack c rest k q links hs hstage hp =>
      have hactive : ∀ j, Node.cond j ∈ v.event activeLink →
          Node.cond j ∈ erased v.event (.poll k) activeLink :=
        fun j hj => (cond_mem_erased (by simp [Node.call]) _).mpr hj
      apply h.move hloop
      · exact fun e j he => blocked_of_update (by simp) he
      · exact fun j _ hj => Or.inl hj
      · exact fun j _ hj => hactive j hj
      · exact h.line
      · intro hne
        cases h.pending hne with
        | inl hsignal => exact Or.inl hsignal
        | inr hrest =>
            cases hrest with
            | inl hempty => exact Or.inr (Or.inl hempty)
            | inr hrest =>
                cases hrest with
                | inl hin =>
                    obtain ⟨j, hj⟩ := hin
                    exact Or.inr (Or.inr (Or.inl ⟨j, hactive j hj⟩))
                | inr hon => exact Or.inr (Or.inr (Or.inr hon))
  | @waitBack c rest k conds hs hstage =>
      apply h.move hloop
      · exact fun e j he => blocked_of_update (by simp) he
      · intro j hb hj
        -- the item that goes is the one of the call that returns
        have hne : j ≠ k := by
          intro heq
          obtain ⟨e, he⟩ := hb
          have hsame := blocked_of_update (by simp) he
          rw [heq] at hsame
          have hec := h.loop.owner_unique (Or.inl hsame) (Or.inr hstage)
          rw [hec, hstage] at hsame
          cases hsame
        exact Or.inl ((List.mem_erase_of_ne hne).mpr hj)
      · exact fun j _ hj => hj
      · exact h.line
      · intro hne
        cases h.pending hne with
        | inl hsignal => exact Or.inl hsignal
        | inr hrest =>
            cases hrest with
            | inl hempty =>
                apply Or.inr
                apply Or.inl
                show (v.cond p.cond).erase k = []
                rw [hempty]
                rfl
            | inr hrest => exact Or.inr (Or.inr hrest)

/-- **One turn of the drain**: the waiter that was on its way runs. -/
theorem ShopInv.drain (h : ShopInv p s v) (hstack : s.loop.stack = [mainCo]) {loop : Loop}
    (heff : Effect s.loop v .drain loop w) (hloop : LoopInv loop w) :
    ShopInv p { s with loop } w := by
  have hmain : getCurrCo s.loop = some mainCo := getCurrCo_eq hstack
  cases heff with
  | drainOver hempty => exact h.relist hloop rfl rfl rfl rfl rfl fun _ hk => hk
  | @drain n ns co links hactive hco =>
      have hon : n ∈ v.event activeLink := by
        rw [hactive]
        exact List.mem_cons_self
      have hactive' : Function.update v.event activeLink ns activeLink = ns :=
        Function.update_self _ _ _
      -- whose call the node belongs to
      have howner : ∀ c, s.loop.stage c = .blocked n.call → c = co := by
        intro c hc
        have hown := h.loop.owner c _ (Or.inl hc)
        rw [hco] at hown
        exact (Option.some.inj hown).symm
      have hstays : ∀ c k, Function.update s.loop.stage co (.back n.call) c = .blocked (.wait k) →
          s.loop.stage c = .blocked (.wait k) ∧ Call.wait k ≠ n.call := by
        intro c k hc
        have hold := blocked_of_update (by simp) hc
        refine ⟨hold, ?_⟩
        intro heq
        rw [heq] at hold
        rw [howner c hold, Function.update_self] at hc
        cases hc
      apply h.move hloop
      · exact fun c k hc => (hstays c k hc).1
      · exact fun k _ hk => Or.inl hk
      · intro k hb hk
        obtain ⟨c, hc⟩ := hb
        show Node.cond k ∈ Function.update v.event activeLink ns activeLink
        rw [hactive']
        rw [hactive] at hk
        cases List.mem_cons.mp hk with
        | inl heq => exact absurd (congrArg Node.call heq) (hstays c k hc).2
        | inr hin => exact hin
      · exact fun c hne => absurd (h.line_main hmain c) hne
      · intro hne
        cases h.pending_main hmain hne with
        | inl hempty => exact Or.inr (Or.inl hempty)
        | inr hin =>
            obtain ⟨k, hk⟩ := hin
            rw [hactive] at hk
            cases List.mem_cons.mp hk with
            | inl heq =>
                -- it is the node that was popped: its consumer runs
                obtain ⟨c, hc⟩ := h.loop.linked n ⟨activeLink, hon⟩
                have hcall : n.call = .wait k := (congrArg Node.call heq).symm
                have hcco := howner c hc
                have hnotmain := h.loop.ne_main (Or.inl hc)
                rw [hcall] at hc
                have hconsumer := h.consumer c k hc
                rw [hcco] at hconsumer hnotmain
                exact Or.inr (Or.inr (Or.inr ⟨co, rfl, hnotmain, hconsumer⟩))
            | inr hin =>
                apply Or.inr
                apply Or.inr
                apply Or.inl
                refine ⟨k, ?_⟩
                show Node.cond k ∈ Function.update v.event activeLink ns activeLink
                rw [hactive']
                exact hin

/-! ## §4. Every step. -/

/-- **Every step of the program.** -/
theorem ShopInv.step (h : ShopInv p s v) (hstep : s.Step p a t) : ∃ w, ShopInv p t w := by
  obtain ⟨hok, hstep⟩ := hstep
  -- an allowed step of the loop has an effect
  have heffect : ∀ {b : Action} {loop : Loop}, s.loop.Allowed b → s.loop.step b = some loop →
      ∃ w, Effect s.loop v b loop w ∧ LoopInv loop w := by
    intro b loop hb hloop
    obtain ⟨loop', w, hloop', heff, hinv⟩ := h.loop.run_step hb
    have heq : loop' = loop := Option.some.inj (hloop'.symm.trans hloop)
    rw [heq] at heff hinv
    exact ⟨w, heff, hinv⟩
  cases a with
  | start co =>
      obtain ⟨-, -, hmain, hb⟩ := hok
      obtain ⟨loop, hloop, heq⟩ := loop_some (b := .resume co) hstep
      obtain ⟨w, heff, hinv⟩ := heffect hb hloop
      rw [heq]
      exact ⟨w, h.start hmain heff hinv⟩
  | push =>
      obtain ⟨c, hcur, heq⟩ := Option.map_eq_some_iff.mp hstep
      rw [← heq]
      exact ⟨v, h.push hok hcur⟩
  | signal =>
      obtain ⟨c, loop, hcur, hloop, heq⟩ := call_some (b := .signal p.cond) hstep
      obtain ⟨w, heff, hinv⟩ := heffect (b := .signal p.cond) hok.1.1 hloop
      rw [heq]
      exact ⟨w, h.signal hok hcur heff hinv⟩
  | sleep fds timeout now =>
      obtain ⟨c, loop, hcur, hloop, heq⟩ := call_some (b := .poll fds timeout now) hstep
      obtain ⟨w, heff, hinv⟩ := heffect (b := .poll fds timeout now) hok.1 hloop
      rw [heq]
      exact ⟨w, h.sleep hok hcur heff hinv⟩
  | pop => exact ⟨v, h.pop hok.1 hstep⟩
  | wait timeOut now =>
      obtain ⟨hturn, hempty, huntimed⟩ := hok
      obtain ⟨loop, hloop, heq⟩ := loop_some (b := .wait p.cond timeOut now) hstep
      obtain ⟨w, heff, hinv⟩ := heffect (b := .wait p.cond timeOut now) hturn.1 hloop
      rw [heq]
      exact ⟨w, h.wait hturn hempty huntimed heff hinv⟩
  | loop b =>
      obtain ⟨hof, hb⟩ := hok
      obtain ⟨loop, hloop, heq⟩ := loop_some (b := b) hstep
      obtain ⟨w, heff, hinv⟩ := heffect hb hloop
      rw [heq]
      refine ⟨w, ?_⟩
      cases b with
      | back => exact h.back heff hinv
      | epollWait batch =>
          cases heff
          exact h.relist hinv rfl rfl rfl rfl rfl fun _ hk => hk
      | prepare =>
          cases heff with
          | prepareAgain hphase hp hhandled =>
              exact h.relist hinv rfl rfl rfl rfl rfl fun _ hk => hk
          | prepare links hphase hp hhandled =>
              refine h.relist hinv rfl rfl rfl rfl rfl ?_
              intro k hk
              apply mem_appended.mpr
              exact Or.inl ((cond_mem_erased (by simp [Node.call]) _).mpr hk)
      | takeOut now =>
          cases heff
          refine h.relist hinv rfl rfl rfl rfl rfl ?_
          exact fun k hk => mem_expired_active.mpr (Or.inl hk)
      | drain => exact h.drain hb.1 heff hinv
      | _ => cases hof

/-- Both invariants, in every run. -/
theorem ShopInv.of_run {as : List ShopAction} (hrun : Run (Shop.Step p) .init as s) :
    TaskInv s ∧ ∃ v, ShopInv p s v := by
  apply Run.invariant (I := fun s => TaskInv s ∧ ∃ v, ShopInv p s v) _ hrun
    ⟨TaskInv.init, _, ShopInv.init p⟩
  intro s a t hinv hstep
  obtain ⟨htask, v, h⟩ := hinv
  exact ⟨htask.step hstep, h.step hstep⟩

/-! ## §5. No wake-up is lost. -/

/-- A consumer is suspended in `ConditionVariableWait`. -/
def Shop.Waits (s : Shop) (c : Co) : Prop := ∃ k, s.loop.stage c = .blocked (.wait k)

/-- **No consumer sleeps on a task.**  In every state of every run in which the main coroutine runs, in
particular when `EventLoop` is about to call `Epoll_Wait`: if there are tasks and `ActiveLink` holds no
waiter that is on its way, then no consumer waits; and so it is at the end of every round.  Tasks are
consumed in the order they were pushed, each at most once. -/
theorem no_lost_wakeup {as : List ShopAction} (hrun : Run (Shop.Step p) .init as s) :
    (getCurrCo s.loop = some mainCo → s.Task_Queue ≠ [] →
      (∀ k, Node.cond k ∉ s.loop.links.items activeLink) → ∀ c, ¬ s.Waits c) ∧
    (∀ t, s.Step p (.loop .drain) t → t.BeforeEpollWait → t.Task_Queue ≠ [] →
      ∀ c, ¬ t.Waits c) ∧
    s.consumed <+: s.produced ∧ s.produced = s.consumed ++ s.Task_Queue ∧ s.produced.Nodup := by
  obtain ⟨htask, v, h⟩ := ShopInv.of_run hrun
  -- a waiter is on the list, which is empty, or on its way
  have hnone : ∀ {s : Shop} {v : Lists}, ShopInv p s v → getCurrCo s.loop = some mainCo →
      s.Task_Queue ≠ [] → (∀ k, Node.cond k ∉ v.event activeLink) → ∀ c, ¬ s.Waits c := by
    intro s v h hmain hne hactive c hwaits
    obtain ⟨k, hk⟩ := hwaits
    cases h.pending_main hmain hne with
    | inl hempty =>
        cases h.waiter k ⟨c, hk⟩ with
        | inl hin =>
            rw [hempty] at hin
            cases hin
        | inr hin => exact hactive k hin
    | inr hin =>
        obtain ⟨j, hj⟩ := hin
        exact hactive j hj
  refine ⟨?_, ?_, ?_, htask.fifo, htask.distinct⟩
  · intro hmain hne hactive
    rw [h.loop.rep.links.items] at hactive
    exact hnone h hmain hne hactive
  · intro t hstep hbefore hne
    obtain ⟨w, h'⟩ := h.step hstep
    obtain ⟨⟨-, hok⟩, hstep⟩ := hstep
    obtain ⟨loop, hloop, heq⟩ := loop_some (b := .drain) hstep
    obtain ⟨loop', w', hloop', heff, hinv⟩ := h.loop.run_step hok
    have hsame : loop' = loop := Option.some.inj (hloop'.symm.trans hloop)
    have hmain := getCurrCo_eq hbefore.1
    rw [heq] at h' hbefore hne hmain ⊢
    rw [hsame] at heff
    cases heff with
    | drainOver hempty =>
        have hrep := h'.loop.rep.links
        have hactive : w.event activeLink = [] := by
          rw [← hrep.items]
          show s.loop.links.items activeLink = []
          rw [h.loop.rep.links.items, hempty]
        apply hnone h' hmain hne
        intro k hk
        rw [hactive] at hk
        cases hk
    | drain links hactive hco =>
        -- somebody else runs then
        have hstack := hbefore.1
        obtain ⟨c, hc⟩ := h.loop.linked _ ⟨activeLink, by rw [hactive]; exact List.mem_cons_self⟩
        have hown := h.loop.owner c _ (Or.inl hc)
        rw [hco] at hown
        have hco' := (List.cons.inj hstack).1
        rw [Option.some.inj hown] at hco'
        exact absurd hco' (h.loop.ne_main (Or.inl hc))
  · exact ⟨s.Task_Queue, htask.fifo.symm⟩

/-- Consumers 1 and 2, producer 3, and condition variable 7. -/
def Program.two : Program where
  created := [1, 2, 3]
  isProducer := fun c => c = 3
  cond := 7

/-- The first consumer has popped the task when the second round begins. -/
theorem no_lost_wakeup_round : ∃ s, Run (Shop.Step .two) .init
    [.start 1, .wait (-1) 0, .start 3, .push, .signal, .sleep [] 1000 5000, .loop (.epollWait []),
      .loop (.takeOut 5001), .loop .drain, .loop .back, .pop, .wait (-1) 0] s ∧
    s.consumed = [⟨3, 0⟩] ∧ s.consumed <+: s.produced := by
  have hcheck : checkRun (Shop.step .two) (fun s a => decide (s.Allowed .two a)) .init
      [.start 1, .wait (-1) 0, .start 3, .push, .signal, .sleep [] 1000 5000, .loop (.epollWait []),
        .loop (.takeOut 5001), .loop .drain, .loop .back, .pop, .wait (-1) 0]
      (fun s => decide (s.consumed = [⟨3, 0⟩])) = true := by
    decide +kernel
  have hof : ∀ (s : Shop) a t, decide (s.Allowed .two a) = true → s.step .two a = some t →
      s.Step .two a t := fun s a t hok hstep => ⟨of_decide_eq_true hok, hstep⟩
  obtain ⟨s, hrun, hs⟩ := Run.of_check hof hcheck
  exact ⟨s, hrun, of_decide_eq_true hs, (no_lost_wakeup hrun).2.2.1⟩

/-- Before the first `Epoll_Wait` the woken consumer is still on `ActiveLink`, and the other one waits,
with a task in the queue. -/
theorem not_no_lost_wakeup : ¬ ∀ (p : Program) (as : List ShopAction) (s : Shop),
    Run (Shop.Step p) .init as s → s.BeforeEpollWait →
    (∀ c ∈ p.created, s.loop.stage c ≠ .fresh) → s.Task_Queue ≠ [] →
    s.loop.conds.items p.cond = [] := by
  intro hclaim
  have hcheck : checkRun (Shop.step .two) (fun s a => decide (s.Allowed .two a)) .init
      [.start 1, .wait (-1) 0, .start 2, .wait (-1) 0, .start 3, .push, .signal,
        .sleep [] 1000 5000]
      (fun s => decide (s.loop.stack = [mainCo] ∧ s.loop.phase = .user ∧
        (∀ c ∈ Program.two.created, s.loop.stage c ≠ .fresh) ∧ s.Task_Queue ≠ [] ∧
        s.loop.conds.items 7 ≠ [])) = true := by
    decide +kernel
  have hof : ∀ (s : Shop) a t, decide (s.Allowed .two a) = true → s.step .two a = some t →
      s.Step .two a t := fun s a t hok hstep => ⟨of_decide_eq_true hok, hstep⟩
  obtain ⟨s, hrun, hs⟩ := Run.of_check hof hcheck
  obtain ⟨hstack, hphase, hstarted, htasks, hwaits⟩ := of_decide_eq_true hs
  exact hwaits (hclaim .two _ s hrun ⟨hstack, hphase⟩ hstarted htasks)

end RocketCo.CoRoutine
