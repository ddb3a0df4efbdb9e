/-
  RocketCo.CoRoutine.EchoServer — who serves which connection.

  The program of the example of this name, for any number of workers:

      readwrite_routine   idle on the stack `g_readwrite` until it is handed a descriptor; then wait
                          for it in `Co_poll_inner`, read, write back, until it closes it
      accept_routine      sleep in `poll` while nobody is idle; accept; hand the descriptor to the
                          worker on top of the stack and resume it

  on the event loop of `EventLoop` and the descriptor table of `Attributes`.  The main coroutine starts
  them, and runs the loop.  `accept_routine` resumes a worker in the middle of its own turn, so up to
  three coroutines are on the call stack.

  A `read` or `write` that emulates blocking would suspend its coroutine a second time; that branch is
  left out, and is shown to be dead: `SetNonBlock` comes before the descriptor is handed over.

  Main results: `echo_workers`, `echo_descriptors`.
-/
import RocketCo.CoRoutine.HookPoll
import RocketCo.CoRoutine.Interest
import RocketCo.CoRoutine.ProductConsumers
import RocketCo.Hook.Flags
import RocketCo.Hook.PollMerge

namespace RocketCo.CoRoutine

open RocketCo.Lib
open RocketCo.Hook (FdTable InArray AttributesLength NonBlock O_NONBLOCK O_RDWR POLLIN POLLERR
  POLLHUP)

/-! ## §1. Who is on the call stack. -/

/-- **The call stack and the stages agree**, and a `Stpoll_t` that is there belongs to a call that has not
returned. -/
structure StackInv (s : Loop) : Prop where
  on : ∀ c, c ∈ s.stack ↔ s.stage c = .running ∨ ∃ x, s.stage c = .back x
  nodup : s.stack.Nodup
  live : ∀ k q, s.polls k = some q →
    s.stage q.ItemCo = .blocked (.poll k) ∨ s.stage q.ItemCo = .back (.poll k)

section Stack

variable {s t : Loop} {v w : Lists} {a : Action} {c : Co}

theorem StackInv.init : StackInv Loop.init := by
  constructor
  case on =>
    intro c
    show c ∈ [mainCo] ↔ (if c = mainCo then Stage.running else .fresh) = .running ∨
      ∃ x, (if c = mainCo then Stage.running else .fresh) = .back x
    by_cases hc : c = mainCo
    · simp [hc]
    · simp [hc]
  case nodup => exact List.nodup_singleton _
  case live => exact fun k q hq => by cases hq

/-- Nobody moves. -/
theorem StackInv.same (h : StackInv s) (hstack : t.stack = s.stack) (hstage : t.stage = s.stage)
    (hlive : ∀ k q, t.polls k = some q → ∃ q', s.polls k = some q' ∧ q'.ItemCo = q.ItemCo) :
    StackInv t := by
  constructor
  case on => rw [hstack, hstage]; exact h.on
  case nodup => rw [hstack]; exact h.nodup
  case live =>
    intro k q hq
    obtain ⟨q', hq', howner⟩ := hlive k q hq
    rw [hstage, ← howner]
    exact h.live k q' hq'

/-- A coroutine comes on top. -/
theorem StackInv.push (h : StackInv s) (hnew : c ∉ s.stack) {st : Stage}
    (hst : st = .running ∨ ∃ x, st = .back x) (hstack : t.stack = c :: s.stack)
    (hstage : t.stage = Function.update s.stage c st)
    (hlive : ∀ k q, t.polls k = some q →
      t.stage q.ItemCo = .blocked (.poll k) ∨ t.stage q.ItemCo = .back (.poll k)) :
    StackInv t := by
  constructor
  case on =>
    intro d
    rw [hstack, hstage, List.mem_cons]
    by_cases hd : d = c
    · rw [hd, Function.update_self]
      exact ⟨fun _ => hst, fun _ => Or.inl rfl⟩
    · rw [Function.update_of_ne hd, or_iff_right hd]
      exact h.on d
  case nodup =>
    rw [hstack]
    exact List.nodup_cons.mpr ⟨hnew, h.nodup⟩
  case live => exact hlive

/-- The one on top leaves. -/
theorem StackInv.pop (h : StackInv s) {rest : List Co} (hs : s.stack = c :: rest) {st : Stage}
    (hst : ¬ (st = .running ∨ ∃ x, st = .back x)) (hstack : t.stack = rest)
    (hstage : t.stage = Function.update s.stage c st)
    (hlive : ∀ k q, t.polls k = some q →
      t.stage q.ItemCo = .blocked (.poll k) ∨ t.stage q.ItemCo = .back (.poll k)) :
    StackInv t := by
  have hnd := h.nodup
  rw [hs, List.nodup_cons] at hnd
  constructor
  case on =>
    intro d
    rw [hstack, hstage]
    by_cases hd : d = c
    · rw [hd, Function.update_self]
      exact ⟨fun hin => absurd hin hnd.1, fun hon => absurd hon hst⟩
    · rw [Function.update_of_ne hd, ← h.on d, hs, List.mem_cons, or_iff_right hd]
  case nodup =>
    rw [hstack]
    exact hnd.2
  case live => exact hlive

/-- Who runs user code is in no call. -/
theorem StackInv.not_live (h : StackInv s) (hrun : s.stage c = .running) {k : Nat} {q : Stpoll}
    (hq : s.polls k = some q) : q.ItemCo ≠ c := by
  intro heq
  have hcall := h.live k q hq
  rw [heq, hrun] at hcall
  cases hcall with
  | inl hcall => cases hcall
  | inr hcall => cases hcall

/-- Where no `Stpoll_t` is made, and `c`, which is in no `Co_poll_inner`, changes its stage. -/
theorem StackInv.live_update (h : StackInv s) {st : Stage} (hpolls : t.polls = s.polls)
    (hnone : ∀ k, s.stage c ≠ .blocked (.poll k) ∧ s.stage c ≠ .back (.poll k))
    (hstage : t.stage = Function.update s.stage c st) : ∀ k q, t.polls k = some q →
      t.stage q.ItemCo = .blocked (.poll k) ∨ t.stage q.ItemCo = .back (.poll k) := by
  intro k q hq
  rw [hpolls] at hq
  have hcall := h.live k q hq
  have hne : q.ItemCo ≠ c := by
    intro heq
    rw [heq] at hcall
    cases hcall with
    | inl hcall => exact (hnone k).1 hcall
    | inr hcall => exact (hnone k).2 hcall
  rw [hstage, Function.update_of_ne hne]
  exact hcall

/-- The coroutine whose turn it is. -/
theorem UserTurn_running (hturn : s.UserTurn) {rest : List Co} (hs : s.stack = c :: rest) :
    s.stage c = .running := by
  obtain ⟨d, hd, hrun, -⟩ := hturn
  have hdc : d = c := Option.some.inj (hd.symm.trans (getCurrCo_eq hs))
  rw [← hdc]
  exact hrun

/-- The call that was resumed returns to its coroutine, which stays on the stack. -/
theorem StackInv.on_back (h : StackInv s) {x : Call} (hstage : s.stage c = .back x) (d : Co) :
    d ∈ s.stack ↔ Function.update s.stage c .running d = .running ∨
      ∃ y, Function.update s.stage c .running d = .back y := by
  rw [h.on d]
  by_cases hd : d = c
  · rw [hd, Function.update_self, hstage]
    simp
  · rw [Function.update_of_ne hd]

/-- `CoPrepare_` leaves a `Stpoll_t` to its owner. -/
theorem owner_handled {polls : Nat → Option Stpoll} {k : Nat} {p p' : Stpoll}
    (hp : polls k = some p) (howner : p'.ItemCo = p.ItemCo) (j : Nat) (q : Stpoll)
    (hq : Function.update polls k (some p') j = some q) :
    ∃ q', polls j = some q' ∧ q'.ItemCo = q.ItemCo := by
  by_cases hj : j = k
  · rw [hj, Function.update_self] at hq
    refine ⟨p, by rw [hj]; exact hp, ?_⟩
    rw [← Option.some.inj hq, howner]
  · rw [Function.update_of_ne hj] at hq
    exact ⟨q, hq, rfl⟩

/-- **Every step of the loop keeps them in agreement.** -/
theorem StackInv.step (h : StackInv s) (hl : LoopInv s v) (hok : s.Allowed a)
    (heff : Effect s v a t w) : StackInv t := by
  have hsame : ∀ k q, s.polls k = some q → ∃ q', s.polls k = some q' ∧ q'.ItemCo = q.ItemCo :=
    fun k q hq => ⟨q, hq, rfl⟩
  have hrunning : ∀ {c : Co}, s.stage c = .running →
      ∀ k, s.stage c ≠ .blocked (.poll k) ∧ s.stage c ≠ .back (.poll k) := by
    intro c hrun k
    rw [hrun]
    simp
  cases heff with
  | resume co =>
      obtain ⟨-, hnew, hstage⟩ := hok
      refine h.push hnew (Or.inl rfl) rfl rfl (h.live_update rfl ?_ rfl)
      intro k
      cases hstage with
      | inl hfresh => rw [hfresh]; simp
      | inr hyield => rw [hyield]; simp
  | yeild hs =>
      have hrun := UserTurn_running hok.1 hs
      exact h.pop hs (by simp) rfl rfl (h.live_update rfl (hrunning hrun) rfl)
  | finish hs =>
      have hrun := UserTurn_running hok.1 hs
      exact h.pop hs (by simp) rfl rfl (h.live_update rfl (hrunning hrun) rfl)
  | pollRefused links hrefused => exact h.same rfl rfl hsame
  | @pollBlocked c rest fds timeout now links hs haccepted =>
      have hrun := UserTurn_running hok.1 hs
      refine h.pop hs (by simp) rfl rfl ?_
      intro k q hq
      have hq' : Function.update s.polls s.next
        (some ⟨c, fds, toSizeT (now + timeout), false, 0⟩) k = some q := hq
      show Function.update s.stage c _ q.ItemCo = _ ∨ Function.update s.stage c _ q.ItemCo = _
      by_cases hk : k = s.next
      · rw [hk, Function.update_self] at hq'
        rw [← Option.some.inj hq', Function.update_self, hk]
        exact Or.inl rfl
      · rw [Function.update_of_ne hk] at hq'
        rw [Function.update_of_ne (h.not_live hrun hq')]
        exact h.live k q hq'
  | waitRefused ret hrefused htimed => exact h.same rfl rfl hsame
  | waitTimed links conds hs haccepted htimed =>
      have hrun := UserTurn_running hok.1 hs
      exact h.pop hs (by simp) rfl rfl (h.live_update rfl (hrunning hrun) rfl)
  | waitUntimed conds hs huntimed =>
      have hrun := UserTurn_running hok.1 hs
      exact h.pop hs (by simp) rfl rfl (h.live_update rfl (hrunning hrun) rfl)
  | signalNone hcv => exact h
  | signal links conds hcv => exact h.same rfl rfl hsame
  | broadcast links conds => exact h.same rfl rfl hsame
  | @pollBack c rest k q links hs hstage hp =>
      -- the call is over, and its memory is gone
      constructor
      case on => exact h.on_back hstage
      case nodup => exact h.nodup
      case live =>
        intro j r hr
        have hr' : Function.update s.polls k none j = some r := hr
        have hj : j ≠ k := by
          intro heq
          rw [heq, Function.update_self] at hr'
          cases hr'
        rw [Function.update_of_ne hj] at hr'
        have hcall := h.live j r hr'
        have hne : r.ItemCo ≠ c := by
          intro heq
          rw [heq, hstage] at hcall
          cases hcall with
          | inl hcall => cases hcall
          | inr hcall => exact hj (Call.poll.inj (Stage.back.inj hcall)).symm
        show Function.update s.stage c _ r.ItemCo = _ ∨ Function.update s.stage c _ r.ItemCo = _
        rw [Function.update_of_ne hne]
        exact hcall
  | @waitBack c rest k conds hs hstage =>
      constructor
      case on => exact h.on_back hstage
      case nodup => exact h.nodup
      case live => exact h.live_update rfl (fun j => by rw [hstage]; simp) rfl
  | epollWait batch => exact h.same rfl rfl hsame
  | @prepareAgain k i rest p hphase hp hhandled =>
      exact h.same rfl rfl (owner_handled hp rfl)
  | @prepare k i rest p links hphase hp hhandled =>
      exact h.same rfl rfl (owner_handled hp rfl)
  | takeOut links hsize hearly hpast hjs => exact h.same rfl rfl hsame
  | drainOver hempty => exact h.same rfl rfl hsame
  | @drain n ns co links hactive hco =>
      obtain ⟨c, hc⟩ := hl.linked n ⟨activeLink, by rw [hactive]; exact List.mem_cons_self⟩
      have hown := hl.owner c _ (Or.inl hc)
      rw [hco] at hown
      rw [← Option.some.inj hown] at hc
      have hnew : co ∉ s.stack := by
        intro hin
        cases (h.on co).mp hin with
        | inl hrun => rw [hc] at hrun; cases hrun
        | inr hback =>
            obtain ⟨x, hx⟩ := hback
            rw [hc] at hx
            cases hx
      refine h.push hnew (Or.inr ⟨_, rfl⟩) rfl rfl ?_
      intro k q hq
      have hcall := h.live k q hq
      show Function.update s.stage co _ q.ItemCo = _ ∨ Function.update s.stage co _ q.ItemCo = _
      by_cases hd : q.ItemCo = co
      · rw [hd, hc] at hcall
        rw [hd, Function.update_self]
        cases hcall with
        | inl hcall => exact Or.inr (by rw [Stage.blocked.inj hcall])
        | inr hcall => cases hcall
      · rw [Function.update_of_ne hd]
        exact hcall

end Stack

/-! ## §2. The program. -/

/-- Which coroutines there are, and the listening socket. -/
structure EchoProgram where
  workers : List Co
  acceptor : Co
  ServerFd : Int
  distinct : (workers ++ [acceptor]).Nodup
  others : mainCo ∉ workers ++ [acceptor]

/-- Where `readwrite_routine` stands. -/
inductive EchoLine where
  /-- At the start of the outer loop. -/
  | top
  /-- At the start of the inner loop, for this descriptor. -/
  | poll (fd : Int)
  /-- Behind `Co_poll_inner`. -/
  | read (fd : Int)
  deriving DecidableEq

/-- The local variable `fd` of the inner loop. -/
def EchoLine.fd? : EchoLine → Option Int
  | .top => none
  | .poll fd | .read fd => some fd

def EchoLine.isPoll : EchoLine → Bool
  | .poll _ => true
  | _ => false

def EchoLine.isRead : EchoLine → Bool
  | .read _ => true
  | _ => false

/-- A thread that runs the program.  A `task_t` is named by its coroutine, and `fd` is its field;
`unstarted` are the coroutines that `main` has still to resume.  The last two fields are ghosts: the
descriptors accepted and closed so far. -/
structure EchoServer where
  loop : Loop
  table : FdTable
  g_readwrite : List Co
  fd : Co → Int
  line : Co → EchoLine
  unstarted : List Co
  accepted : List Int
  closed : List Int

/-- `SetNonBlock`; `O_NDELAY` is `O_NONBLOCK`. -/
def setNonBlock (s : FdTable) (isHook : Bool) (iSock : Int) : Option FdTable :=
  (s.fcntlGetfl iSock).bind fun r => r.2.fcntl isHook iSock (r.1 ||| O_NONBLOCK) false

def AF_INET : Int := 2

/-- After `CreateASocket` and the first `SetNonBlock`. -/
def EchoServer.init (p : EchoProgram) : Option EchoServer :=
  ((FdTable.init.socket false AF_INET p.ServerFd O_RDWR).bind fun table =>
    setNonBlock table false p.ServerFd).map fun table =>
      { loop := .init
        table
        g_readwrite := []
        fd := fun _ => -1
        line := fun _ => .top
        unstarted := p.workers ++ [p.acceptor]
        accepted := []
        closed := [] }

/-- What `readwrite_routine` and `accept_routine` wait for. -/
def echoFds (fd : Int) : List PollFd := [⟨fd, POLLIN ||| POLLERR ||| POLLHUP⟩]

inductive EchoAction where
  /-- `main` resumes the next coroutine. -/
  | start
  /-- A worker without a descriptor. -/
  | idle
  /-- A worker with one. -/
  | take
  | poll (now : Nat)
  /-- `read` returns `ret`, and `write` after it `written`; then `errno`. -/
  | echo (ret written : Int) (errno : Errno)
  /-- `accept_routine` finds nobody idle. -/
  | sleep (now : Nat)
  /-- `accept` returns `fd`. -/
  | accept (fd : Int) (now : Nat)
  /-- The blocking call that was just resumed returns, or a step of `EventLoop`. -/
  | loop (a : Action)

def Action.isEpollWait : Action → Bool
  | .epollWait _ => true
  | _ => false

instance (s : FdTable) (fd : Int) : Decidable (s.Emulates fd) :=
  inferInstanceAs (Decidable (∃ A, A ∈ s.Fd2Attributes fd ∧ _))

namespace EchoServer

variable (p : EchoProgram)

/-- A step of the loop. -/
def call (s : EchoServer) (a : Action) : Option EchoServer :=
  (s.loop.step a).map fun loop => { s with loop }

/-- From `read` to the end of the inner loop's body. -/
def echo (s : EchoServer) (c : Co) (fd ret written : Int) (errno : Errno) : Option EchoServer :=
  -- the hooks that emulate blocking are not followed
  if s.table.Emulates fd then none
  else
    let n := if 0 < ret then written else ret
    (if 0 < ret then s.table.write true fd else some s.table).bind fun table =>
      if 0 < n ∨ (-1 = n ∧ errno = EAGAIN) then
        some { s with table, line := Function.update s.line c (.poll fd) }
      else
        (table.close true fd).map fun table =>
          { s with
            table
            line := Function.update s.line c .top
            closed := s.closed ++ [fd] }

/-- From `AcceptFd2Attributes` to the end of the loop's body. -/
def accept (s : EchoServer) (fd : Int) (now : Nat) : Option EchoServer :=
  (s.table.acceptFd2Attributes fd).bind fun table =>
    if fd < 0 then ({ s with table }).call (.poll (echoFds p.ServerFd) 1000 now)
    else
      match s.g_readwrite with
      | [] =>
          (table.close true fd).map fun table =>
            { s with table, accepted := s.accepted ++ [fd], closed := s.closed ++ [fd] }
      | co :: rest =>
          (setNonBlock table true fd).bind fun table =>
            ({ s with
              table
              fd := Function.update s.fd co fd
              g_readwrite := rest
              accepted := s.accepted ++ [fd] }).call (.resume co)

def step (s : EchoServer) : EchoAction → Option EchoServer
  | .start =>
      match s.unstarted with
      | [] => none
      | co :: rest => ({ s with unstarted := rest }).call (.resume co)
  | .idle =>
      (getCurrCo s.loop).bind fun c =>
        ({ s with g_readwrite := c :: s.g_readwrite }).call .yeild
  | .take =>
      (getCurrCo s.loop).map fun c =>
        { s with
          fd := Function.update s.fd c (-1)
          line := Function.update s.line c (.poll (s.fd c)) }
  | .poll now =>
      (getCurrCo s.loop).bind fun c =>
        match s.line c with
        | .poll fd =>
            ({ s with line := Function.update s.line c (.read fd) }).call
              (.poll (echoFds fd) 1000 now)
        | _ => none
  | .echo ret written errno =>
      (getCurrCo s.loop).bind fun c =>
        match s.line c with
        | .read fd => s.echo c fd ret written errno
        | _ => none
  | .sleep now => (hookPoll true [⟨-1, 0⟩] 1000 now).bind s.call
  | .accept fd now => s.accept p fd now
  | .loop a => s.call a

/-- A worker's own code runs. -/
def WorkerTurn (s : EchoServer) (c : Co) : Prop :=
  s.loop.CoTurn ∧ getCurrCo s.loop = some c ∧ c ∈ p.workers

/-- `accept_routine` runs. -/
def AcceptorTurn (s : EchoServer) : Prop :=
  s.loop.CoTurn ∧ getCurrCo s.loop = some p.acceptor

instance (s : EchoServer) (c : Co) : Decidable (s.WorkerTurn p c) :=
  inferInstanceAs (Decidable (_ ∧ _))

instance (s : EchoServer) : Decidable (s.AcceptorTurn p) := inferInstanceAs (Decidable (_ ∧ _))

/-- The order of statements in `main`, `readwrite_routine` and `accept_routine`, and the kernel's rule
that `accept` returns a number that is not in use. -/
def Allowed (s : EchoServer) : EchoAction → Prop
  | .start => s.loop.UserTurn ∧ getCurrCo s.loop = some mainCo ∧ s.unstarted ≠ []
  | .idle => ∃ c ∈ getCurrCo s.loop, s.WorkerTurn p c ∧ s.line c = .top ∧ s.fd c = -1
  | .take => ∃ c ∈ getCurrCo s.loop, s.WorkerTurn p c ∧ s.line c = .top ∧ s.fd c ≠ -1
  | .poll _ => ∃ c ∈ getCurrCo s.loop, s.WorkerTurn p c ∧ (s.line c).isPoll
  | .echo _ _ _ => ∃ c ∈ getCurrCo s.loop, s.WorkerTurn p c ∧ (s.line c).isRead
  | .sleep _ => s.AcceptorTurn p ∧ s.g_readwrite = []
  | .accept fd _ =>
      s.AcceptorTurn p ∧ s.g_readwrite ≠ [] ∧ (0 ≤ fd → s.table.kernel fd = none)
  | .loop a =>
      a.ofLoop = true ∧ s.loop.Allowed a ∧ (a.isEpollWait = true → s.unstarted = [])

instance (s : EchoServer) (a : EchoAction) : Decidable (s.Allowed p a) :=
  match a with
  | .start => inferInstanceAs (Decidable (_ ∧ _))
  | .idle => inferInstanceAs (Decidable (∃ c ∈ getCurrCo s.loop, _))
  | .take => inferInstanceAs (Decidable (∃ c ∈ getCurrCo s.loop, _))
  | .poll _ => inferInstanceAs (Decidable (∃ c ∈ getCurrCo s.loop, _))
  | .echo _ _ _ => inferInstanceAs (Decidable (∃ c ∈ getCurrCo s.loop, _))
  | .sleep _ => inferInstanceAs (Decidable (_ ∧ _))
  | .accept _ _ => inferInstanceAs (Decidable (_ ∧ _))
  | .loop _ => inferInstanceAs (Decidable (_ ∧ _))

def Step (s : EchoServer) (a : EchoAction) (t : EchoServer) : Prop :=
  s.Allowed p a ∧ s.step p a = some t

/-- The descriptor a coroutine has: the one it was handed, or the one of its inner loop. -/
def held (s : EchoServer) (c : Co) : Option Int :=
  if s.fd c = -1 then (s.line c).fd? else some (s.fd c)

end EchoServer

/-! ## §3. Descriptors in the table. -/

/-- Nobody blocks on the descriptor: the kernel does not, and the hooks do not emulate it. -/
def Direct (s : FdTable) (fd : Int) : Prop :=
  InArray fd ∧ (∃ A, s.Fd2Attributes fd = some A ∧ NonBlock A.fdFlag) ∧
    ∃ file, s.kernel fd = some file ∧ NonBlock file.flags

/-- Only this descriptor is concerned. -/
def OthersSame (s t : FdTable) (fd : Int) : Prop :=
  ∀ fd', fd' ≠ fd → t.kernel fd' = s.kernel fd' ∧ t.Fd2Attributes fd' = s.Fd2Attributes fd'

section Table

variable {s t : FdTable} {fd : Int}

theorem OthersSame.trans {u : FdTable} (h : OthersSame s t fd) (h' : OthersSame t u fd) :
    OthersSame s u fd := by
  intro fd' hne
  rw [(h' fd' hne).1, (h' fd' hne).2]
  exact h fd' hne

theorem Direct.congr {fd' : Int} (h : Direct s fd') (hsame : OthersSame s t fd) (hne : fd' ≠ fd) :
    Direct t fd' := by
  unfold Direct
  rw [(hsame fd' hne).1, (hsame fd' hne).2]
  exact h

theorem Direct.not_emulates (h : Direct s fd) : ¬ s.Emulates fd := by
  obtain ⟨-, ⟨A, hA, hflag⟩, -⟩ := h
  intro hem
  obtain ⟨B, hB, hnot⟩ := hem
  rw [hA] at hB
  rw [← Option.some.inj hB] at hnot
  exact hnot hflag

theorem Direct.opened (h : Direct s fd) : s.kernel fd ≠ none := by
  obtain ⟨-, -, file, hfile, -⟩ := h
  rw [hfile]
  simp

theorem getfl_same {x : Hook.Flags} (h : s.fcntlGetfl fd = some (x, t)) :
    t.kernel = s.kernel ∧ ∀ fd', fd' ≠ fd → t.Fd2Attributes fd' = s.Fd2Attributes fd' := by
  unfold FdTable.fcntlGetfl at h
  split at h
  · rw [← (Prod.mk.inj (Option.some.inj h)).2]
    exact ⟨rfl, fun _ _ => rfl⟩
  · obtain ⟨r, hr, heq⟩ := Option.map_eq_some_iff.mp h
    obtain ⟨hkernel, -, hother, -⟩ := Hook.create_spec (A := r.1) (t := r.2) hr
    rw [← (Prod.mk.inj heq).2]
    exact ⟨hkernel, hother⟩

theorem setNonBlock_other {isHook : Bool} (h : setNonBlock s isHook fd = some t) :
    OthersSame s t fd := by
  obtain ⟨r, hget, hset⟩ := Option.bind_eq_some_iff.mp h
  obtain ⟨hkernel, hother⟩ := getfl_same (x := r.1) (t := r.2) hget
  refine OthersSame.trans (t := r.2) ?_ (Hook.fcntl_other hset)
  exact fun fd' hne => ⟨by rw [hkernel], hother fd' hne⟩

/-- **Behind `SetNonBlock`** the flag is set for the kernel and for the hooks. -/
theorem setNonBlock_direct {isHook : Bool} (h0 : 0 ≤ fd) (hopen : s.kernel fd ≠ none)
    (h : setNonBlock s isHook fd = some t) : Direct t fd := by
  obtain ⟨r, hget, hset⟩ := Option.bind_eq_some_iff.mp h
  obtain ⟨hkernel, -⟩ := getfl_same (x := r.1) (t := r.2) hget
  obtain ⟨file, hfile⟩ := Option.ne_none_iff_exists'.mp hopen
  rw [← hkernel] at hfile
  obtain ⟨A, hfile', hA, hflag⟩ := Hook.fcntl_done h0 hfile hset
  have harray : InArray fd := by
    unfold FdTable.fcntlGetfl at hget
    rw [if_neg (by omega)] at hget
    obtain ⟨q, hq, -⟩ := Option.map_eq_some_iff.mp hget
    exact Hook.create_inArray (A := q.1) (t := q.2) hq
  refine ⟨harray, ⟨A, hA, ?_⟩, _, hfile', ?_⟩
  · rw [hflag]
    exact Hook.nonBlock_or r.1
  · show NonBlock (Hook.setfl file.flags _)
    rw [Hook.nonBlock_setfl]
    cases isHook with
    | true => exact Hook.nonBlock_or _
    | false => exact Hook.nonBlock_or _

theorem setNonBlock_exists (isHook : Bool) (h : InArray fd) :
    ∃ t, setNonBlock s isHook fd = some t := by
  obtain ⟨A, u, hu⟩ := Hook.create_exists s h
  have hget : s.fcntlGetfl fd = some (u.kernelGetfl fd, u) := by
    unfold FdTable.fcntlGetfl
    rw [if_neg (by have := h.1; omega), hu]
    rfl
  obtain ⟨B, w, hw⟩ := Hook.create_exists u h
  unfold setNonBlock
  rw [hget]
  show ∃ t, u.fcntl isHook fd _ false = some t
  unfold FdTable.fcntl
  rw [if_neg (by have := h.1; omega), hw]
  exact ⟨_, rfl⟩

theorem accept_other (h0 : 0 ≤ fd) (hfree : s.kernel fd = none)
    (h : s.acceptFd2Attributes fd = some t) : OthersSame s t fd ∧ t.kernel fd ≠ none := by
  have hstep : s.Step (.accept fd) t := ⟨fun _ => hfree, h⟩
  refine ⟨fun fd' hne => Hook.step_other (a := .accept fd) (fun heq => hne heq.symm) hstep, ?_⟩
  unfold FdTable.acceptFd2Attributes at h
  rw [if_neg (by omega)] at h
  obtain ⟨r, hr, heq⟩ := Option.map_eq_some_iff.mp h
  obtain ⟨hkernel, -⟩ := Hook.create_spec (A := r.1) (t := r.2) hr
  rw [← heq, hkernel, Hook.openFd_kernel]
  simp

theorem accept_exists (h : InArray fd) : ∃ t, s.acceptFd2Attributes fd = some t := by
  obtain ⟨A, u, hu⟩ := Hook.create_exists (s.openFd fd O_RDWR) h
  unfold FdTable.acceptFd2Attributes
  rw [if_neg (by have := h.1; omega), hu]
  exact ⟨u, rfl⟩

theorem accept_refused (h0 : fd < 0) : s.acceptFd2Attributes fd = some s := by
  unfold FdTable.acceptFd2Attributes
  rw [if_pos h0]

/-- `write` finds its entry. -/
theorem Direct.write (h : Direct s fd) : s.write true fd = some s := by
  obtain ⟨harray, ⟨A, hA, -⟩, -⟩ := h
  unfold FdTable.write FdTable.createAFdAttributes
  rw [if_pos rfl, if_pos harray, hA]
  rfl

theorem Direct.close (h : Direct s fd) : ∃ t, s.close true fd = some t ∧ t.kernel fd = none ∧
    OthersSame s t fd := by
  obtain ⟨⟨h0, hlt⟩, ⟨A, hA, -⟩, -⟩ := h
  have hdelete : ∃ u, s.deleteAttributes fd = some u := by
    unfold FdTable.deleteAttributes
    rw [if_pos ⟨by omega, hlt⟩, if_neg (by omega), hA]
    exact ⟨_, rfl⟩
  obtain ⟨u, hu⟩ := hdelete
  obtain ⟨hkernel, hother⟩ := Hook.deleteAttributes_same hu
  have hclose : s.close true fd = some { u with kernel := Function.update u.kernel fd none } := by
    unfold FdTable.close
    rw [if_pos rfl, hu]
    rfl
  refine ⟨_, hclose, Function.update_self _ _ _, ?_⟩
  intro fd' hne
  refine ⟨?_, hother fd' hne⟩
  show Function.update u.kernel fd none fd' = _
  rw [Function.update_of_ne hne, hkernel]

end Table

/-! ## §4. Who has which descriptor. -/

/-- **The books**: who is idle has nothing, every descriptor but the listening one is with one worker, on
none of them anybody blocks, and the numbers of those accepted and closed add up. -/
structure EchoBooks (p : EchoProgram) (s : EchoServer) : Prop where
  idle : ∀ c ∈ s.g_readwrite, c ∈ p.workers ∧ s.held c = none
  nodup : s.g_readwrite.Nodup
  apart : ∀ c, s.fd c ≠ -1 → s.line c = .top
  holder : ∀ c f, s.held c = some f → c ∈ p.workers ∧ f ≠ p.ServerFd
  unique : ∀ c d f, s.held c = some f → s.held d = some f → c = d
  served : ∀ f, f ≠ p.ServerFd → s.table.kernel f ≠ none → ∃ c, s.held c = some f
  direct : ∀ c f, s.held c = some f → Direct s.table f
  server : 0 ≤ p.ServerFd → s.table.kernel p.ServerFd ≠ none
  count : ∀ f, s.accepted.count f =
    s.closed.count f + if f = p.ServerFd ∨ s.table.kernel f = none then 0 else 1

variable {p : EchoProgram} {s t : EchoServer} {c : Co}

theorem held_init (hinit : EchoServer.init p = some s) (d : Co) : s.held d = none := by
  obtain ⟨table, -, heq⟩ := Option.map_eq_some_iff.mp hinit
  rw [← heq]
  rfl

theorem EchoBooks.init (hinit : EchoServer.init p = some s) : EchoBooks p s := by
  have hheld := held_init hinit
  have hnone : ∀ d f, s.held d ≠ some f := by
    intro d f hf
    rw [hheld d] at hf
    cases hf
  obtain ⟨table, htable, heq⟩ := Option.map_eq_some_iff.mp hinit
  obtain ⟨u, hsocket, hset⟩ := Option.bind_eq_some_iff.mp htable
  have hother : OthersSame FdTable.init table p.ServerFd := by
    refine OthersSame.trans (t := u) ?_ (setNonBlock_other hset)
    intro fd' hne
    have hstep : FdTable.init.Step (.socket false AF_INET p.ServerFd O_RDWR) u :=
      ⟨fun _ => rfl, hsocket⟩
    exact Hook.step_other (a := .socket false AF_INET p.ServerFd O_RDWR)
      (fun h => hne h.symm) hstep
  have hclosed : ∀ f, f ≠ p.ServerFd → s.table.kernel f = none := by
    intro f hf
    rw [← heq]
    show table.kernel f = none
    rw [(hother f hf).1]
    rfl
  constructor
  case idle => rw [← heq]; exact fun c hc => absurd hc List.not_mem_nil
  case nodup => rw [← heq]; exact List.nodup_nil
  case apart => rw [← heq]; exact fun _ _ => rfl
  case holder => exact fun c f hf => absurd hf (hnone c f)
  case unique => exact fun c d f hf => absurd hf (hnone c f)
  case served => exact fun f hf hopen => absurd (hclosed f hf) hopen
  case direct => exact fun c f hf => absurd hf (hnone c f)
  case server =>
    intro h0
    rw [← heq]
    show table.kernel p.ServerFd ≠ none
    unfold FdTable.socket at hsocket
    rw [if_neg (by omega)] at hsocket
    have hu : FdTable.init.openFd p.ServerFd O_RDWR = u := Option.some.inj hsocket
    refine (setNonBlock_direct h0 ?_ hset).opened
    rw [← hu, Hook.openFd_kernel]
    simp
  case count =>
    intro f
    have hall : f = p.ServerFd ∨ s.table.kernel f = none := by
      by_cases hf : f = p.ServerFd
      · exact Or.inl hf
      · exact Or.inr (hclosed f hf)
    rw [if_pos hall, ← heq]
    rfl

/-- Only the holder's place in its code changes. -/
theorem EchoBooks.reheld (h : EchoBooks p s) (hheld : ∀ d, t.held d = s.held d)
    (htable : t.table = s.table) (hidle : t.g_readwrite = s.g_readwrite)
    (haccepted : t.accepted = s.accepted) (hclosed : t.closed = s.closed)
    (hapart : ∀ d, t.fd d ≠ -1 → t.line d = .top) : EchoBooks p t := by
  constructor
  case idle => intro d; rw [hidle, hheld]; exact h.idle d
  case nodup => rw [hidle]; exact h.nodup
  case apart => exact hapart
  case holder => intro d f; rw [hheld]; exact h.holder d f
  case unique => intro d e f; rw [hheld, hheld]; exact h.unique d e f
  case served =>
    intro f hf hopen
    rw [htable] at hopen
    obtain ⟨d, hd⟩ := h.served f hf hopen
    exact ⟨d, by rw [hheld]; exact hd⟩
  case direct => intro d f; rw [hheld, htable]; exact h.direct d f
  case server => rw [htable]; exact h.server
  case count => intro f; rw [haccepted, hclosed, htable]; exact h.count f

/-- A worker without a descriptor becomes idle. -/
theorem EchoBooks.push (h : EchoBooks p s) (hc : c ∈ p.workers) (hnone : s.held c = none)
    (hnew : c ∉ s.g_readwrite) (loop : Loop) :
    EchoBooks p { s with loop, g_readwrite := c :: s.g_readwrite } := by
  constructor
  case idle =>
    intro d hd
    cases List.mem_cons.mp hd with
    | inl heq => rw [heq]; exact ⟨hc, hnone⟩
    | inr hin => exact h.idle d hin
  case nodup => exact List.nodup_cons.mpr ⟨hnew, h.nodup⟩
  case apart => exact h.apart
  case holder => exact h.holder
  case unique => exact h.unique
  case served => exact h.served
  case direct => exact h.direct
  case server => exact h.server
  case count => exact h.count

/-- `int fd = co->fd; co->fd = -1`. -/
theorem held_take (hfd : s.fd c ≠ -1) (d : Co) :
    EchoServer.held { s with
      fd := Function.update s.fd c (-1)
      line := Function.update s.line c (.poll (s.fd c)) } d = s.held d := by
  unfold EchoServer.held
  by_cases hd : d = c
  · rw [hd]
    simp only [Function.update_self, hfd, if_true, if_false]
    rfl
  · simp only [Function.update_of_ne hd]

/-- In the inner loop a worker keeps its descriptor. -/
theorem held_line {line : EchoLine} (hfd : s.fd c = -1) (hline : line.fd? = (s.line c).fd?)
    (loop : Loop) (d : Co) :
    EchoServer.held { s with loop, line := Function.update s.line c line } d = s.held d := by
  unfold EchoServer.held
  by_cases hd : d = c
  · rw [hd]
    simp only [Function.update_self, hfd, if_true]
    exact hline
  · simp only [Function.update_of_ne hd]

/-- A line of the inner loop. -/
theorem EchoBooks.inner (h : EchoBooks p s) (hline : s.line c ≠ .top) : s.fd c = -1 := by
  by_contra hfd
  exact hline (h.apart c hfd)

theorem EchoBooks.move (h : EchoBooks p s) {line : EchoLine} (hne : s.line c ≠ .top)
    (hline : line.fd? = (s.line c).fd?) (loop : Loop) :
    EchoBooks p { s with loop, line := Function.update s.line c line } := by
  have hfd := h.inner hne
  refine h.reheld (held_line hfd hline loop) rfl rfl rfl rfl ?_
  intro d hd
  show Function.update s.line c line d = .top
  have hdc : d ≠ c := by
    intro heq
    rw [heq] at hd
    exact hd hfd
  rw [Function.update_of_ne hdc]
  exact h.apart d hd

/-- **A worker closes its descriptor.** -/
theorem EchoBooks.close (h : EchoBooks p s) {f : Int} {table : FdTable} (hfd : s.fd c = -1)
    (hf : s.held c = some f) (hgone : table.kernel f = none)
    (hother : OthersSame s.table table f) :
    EchoBooks p { s with
      table, line := Function.update s.line c .top, closed := s.closed ++ [f] } := by
  have hheld : ∀ d, d ≠ c → EchoServer.held { s with
      table, line := Function.update s.line c .top, closed := s.closed ++ [f] } d = s.held d := by
    intro d hd
    unfold EchoServer.held
    simp only [Function.update_of_ne hd]
  have hnone : EchoServer.held { s with
      table, line := Function.update s.line c .top, closed := s.closed ++ [f] } c = none := by
    unfold EchoServer.held
    simp only [Function.update_self, hfd, if_true]
    rfl
  have hserver := (h.holder c f hf).2
  -- who holds something now held it before, and it is not `f`
  have hold : ∀ d g, EchoServer.held { s with
      table, line := Function.update s.line c .top, closed := s.closed ++ [f] } d = some g →
      s.held d = some g ∧ g ≠ f := by
    intro d g hg
    by_cases hd : d = c
    · rw [hd, hnone] at hg
      cases hg
    · rw [hheld d hd] at hg
      refine ⟨hg, ?_⟩
      intro heq
      rw [heq] at hg
      exact hd (h.unique d c f hg hf)
  constructor
  case idle =>
    intro d hd
    have hne : d ≠ c := by
      intro heq
      have hidle := (h.idle d hd).2
      rw [heq, hf] at hidle
      cases hidle
    rw [hheld d hne]
    exact h.idle d hd
  case nodup => exact h.nodup
  case apart =>
    intro d hd
    show Function.update s.line c .top d = .top
    by_cases hdc : d = c
    · rw [hdc, Function.update_self]
    · rw [Function.update_of_ne hdc]
      exact h.apart d hd
  case holder => exact fun d g hg => h.holder d g (hold d g hg).1
  case unique => exact fun d e g hd he => h.unique d e g (hold d g hd).1 (hold e g he).1
  case served =>
    intro g hg hopen
    have hgf : g ≠ f := by
      intro heq
      rw [heq] at hopen
      exact hopen hgone
    have hopen' : s.table.kernel g ≠ none := by
      rw [← (hother g hgf).1]
      exact hopen
    obtain ⟨d, hd⟩ := h.served g hg hopen'
    have hdc : d ≠ c := by
      intro heq
      rw [heq, hf] at hd
      exact hgf (Option.some.inj hd).symm
    exact ⟨d, by rw [hheld d hdc]; exact hd⟩
  case direct => exact fun d g hg => (h.direct d g (hold d g hg).1).congr hother (hold d g hg).2
  case server =>
    intro h0
    show table.kernel p.ServerFd ≠ none
    rw [(hother p.ServerFd (fun heq => hserver heq.symm)).1]
    exact h.server h0
  case count =>
    intro g
    show s.accepted.count g = (s.closed ++ [f]).count g +
      if g = p.ServerFd ∨ table.kernel g = none then 0 else 1
    rw [List.count_append, List.count_singleton, h.count g]
    by_cases hg : g = f
    · have hopen : ¬ (f = p.ServerFd ∨ s.table.kernel f = none) := by
        intro hor
        cases hor with
        | inl heq => exact hserver heq
        | inr hcl => exact (h.direct c f hf).opened hcl
      rw [hg, if_neg hopen, if_pos (Or.inr hgone)]
      simp
    · have hne : ¬ f = g := fun heq => hg heq.symm
      rw [(hother g hg).1]
      simp [hne]

/-- **The descriptor that was accepted goes to the worker on top.** -/
theorem EchoBooks.hand (h : EchoBooks p s) {f : Int} {rest : List Co} {table : FdTable} (h0 : 0 ≤ f)
    (hidle : s.g_readwrite = c :: rest) (hfree : s.table.kernel f = none)
    (hdirect : Direct table f) (hother : OthersSame s.table table f) (loop : Loop) :
    EchoBooks p { s with
      loop, table, fd := Function.update s.fd c f, g_readwrite := rest
      accepted := s.accepted ++ [f] } := by
  obtain ⟨hc, hnone⟩ := h.idle c (by rw [hidle]; exact List.mem_cons_self)
  have hnd := h.nodup
  rw [hidle, List.nodup_cons] at hnd
  have hserver : f ≠ p.ServerFd := by
    intro heq
    rw [heq] at hfree h0
    exact h.server h0 hfree
  have hheld : ∀ d, d ≠ c → EchoServer.held { s with
      loop, table, fd := Function.update s.fd c f, g_readwrite := rest
      accepted := s.accepted ++ [f] } d = s.held d := by
    intro d hd
    unfold EchoServer.held
    simp only [Function.update_of_ne hd]
  have hnew : EchoServer.held { s with
      loop, table, fd := Function.update s.fd c f, g_readwrite := rest
      accepted := s.accepted ++ [f] } c = some f := by
    unfold EchoServer.held
    simp only [Function.update_self]
    rw [if_neg (by omega)]
  -- nobody had it before
  have hfresh : ∀ d, s.held d ≠ some f := fun d hd => (h.direct d f hd).opened hfree
  have hold : ∀ d g, EchoServer.held { s with
      loop, table, fd := Function.update s.fd c f, g_readwrite := rest
      accepted := s.accepted ++ [f] } d = some g →
      (d = c ∧ g = f) ∨ (d ≠ c ∧ g ≠ f ∧ s.held d = some g) := by
    intro d g hg
    by_cases hd : d = c
    · rw [hd, hnew] at hg
      exact Or.inl ⟨hd, (Option.some.inj hg).symm⟩
    · rw [hheld d hd] at hg
      refine Or.inr ⟨hd, ?_, hg⟩
      intro heq
      rw [heq] at hg
      exact hfresh d hg
  constructor
  case idle =>
    intro d hd
    have hd' : d ∈ rest := hd
    have hdc : d ≠ c := by
      intro heq
      rw [heq] at hd'
      exact hnd.1 hd'
    rw [hheld d hdc]
    exact h.idle d (by rw [hidle]; exact List.mem_cons_of_mem _ hd')
  case nodup => exact hnd.2
  case apart =>
    intro d hd
    show s.line d = .top
    by_cases hdc : d = c
    · rw [hdc]
      unfold EchoServer.held at hnone
      by_cases hfd : s.fd c = -1
      · rw [if_pos hfd] at hnone
        cases hline : s.line c with
        | top => rfl
        | poll g => rw [hline] at hnone; cases hnone
        | read g => rw [hline] at hnone; cases hnone
      · exact h.apart c hfd
    · have hd' : Function.update s.fd c f d ≠ -1 := hd
      rw [Function.update_of_ne hdc] at hd'
      exact h.apart d hd'
  case holder =>
    intro d g hg
    cases hold d g hg with
    | inl hnew => rw [hnew.1, hnew.2]; exact ⟨hc, hserver⟩
    | inr hold => exact h.holder d g hold.2.2
  case unique =>
    intro d e g hd he
    cases hold d g hd with
    | inl hd =>
        cases hold e g he with
        | inl he => rw [hd.1, he.1]
        | inr he => exact absurd hd.2 he.2.1
    | inr hd =>
        cases hold e g he with
        | inl he => exact absurd he.2 hd.2.1
        | inr he => exact h.unique d e g hd.2.2 he.2.2
  case served =>
    intro g hg hopen
    by_cases hgf : g = f
    · exact ⟨c, by rw [hgf]; exact hnew⟩
    · have hopen' : s.table.kernel g ≠ none := by
        rw [← (hother g hgf).1]
        exact hopen
      obtain ⟨d, hd⟩ := h.served g hg hopen'
      have hdc : d ≠ c := by
        intro heq
        rw [heq, hnone] at hd
        cases hd
      exact ⟨d, by rw [hheld d hdc]; exact hd⟩
  case direct =>
    intro d g hg
    cases hold d g hg with
    | inl hnew => rw [hnew.2]; exact hdirect
    | inr hold => exact (h.direct d g hold.2.2).congr hother hold.2.1
  case server =>
    intro h0'
    show table.kernel p.ServerFd ≠ none
    rw [(hother p.ServerFd (fun heq => hserver heq.symm)).1]
    exact h.server h0'
  case count =>
    intro g
    show (s.accepted ++ [f]).count g = s.closed.count g +
      if g = p.ServerFd ∨ table.kernel g = none then 0 else 1
    rw [List.count_append, List.count_singleton, h.count g]
    by_cases hg : g = f
    · have hopen : ¬ (f = p.ServerFd ∨ table.kernel f = none) := by
        intro hor
        cases hor with
        | inl heq => exact hserver heq
        | inr hcl => exact hdirect.opened hcl
      rw [hg, if_pos (Or.inr hfree), if_neg hopen]
      simp
    · have hne : ¬ f = g := fun heq => hg heq.symm
      rw [(hother g hg).1]
      simp [hne]

/-! ## §5. Who stands where. -/

/-- What a coroutine of the program waits for in `Co_poll_inner`. -/
def EchoServer.Awaits (p : EchoProgram) (s : EchoServer) (c : Co) (fds : List PollFd) : Prop :=
  (c = p.acceptor ∧ (fds = [⟨-1, 0⟩] ∨ fds = echoFds p.ServerFd)) ∨
    (c ∈ p.workers ∧ ∃ f, s.line c = .read f ∧ fds = echoFds f)

/-- **What holds between two steps of the program.** -/
structure EchoInv (p : EchoProgram) (s : EchoServer) (v : Lists) : Prop where
  loop : LoopInv s.loop v
  stack : StackInv s.loop
  books : EchoBooks p s
  yielded : ∀ c, s.loop.stage c = .yielded ↔ c ∈ s.g_readwrite
  unstarted : s.unstarted <:+ p.workers ++ [p.acceptor]
  fresh : ∀ c ∈ p.workers ++ [p.acceptor], s.loop.stage c = .fresh ↔ c ∈ s.unstarted
  alive : ∀ c, s.loop.stage c ≠ .ended
  polling : ∀ c x, s.loop.stage c = .blocked x ∨ s.loop.stage c = .back x →
    ∃ k q, x = .poll k ∧ s.loop.polls k = some q ∧ s.Awaits p c q.fds

variable {v w : Lists}

theorem EchoInv.init (hinit : EchoServer.init p = some s) :
    EchoInv p s ⟨fun _ => [], fun _ => []⟩ := by
  have hbooks := EchoBooks.init hinit
  obtain ⟨table, -, heq⟩ := Option.map_eq_some_iff.mp hinit
  have hstage : ∀ c, s.loop.stage c = if c = mainCo then Stage.running else .fresh := by
    intro c
    rw [← heq]
    rfl
  constructor
  case loop => rw [← heq]; exact LoopInv.init
  case stack => rw [← heq]; exact StackInv.init
  case books => exact hbooks
  case yielded =>
    intro c
    have hidle : s.g_readwrite = [] := by rw [← heq]
    rw [hstage, hidle]
    by_cases hc : c = mainCo <;> simp [hc]
  case unstarted => rw [← heq]
  case fresh =>
    intro c hc
    have hne : c ≠ mainCo := fun h => p.others (h ▸ hc)
    have hun : s.unstarted = p.workers ++ [p.acceptor] := by rw [← heq]
    rw [hstage, hun, if_neg hne]
    exact ⟨fun _ => hc, fun _ => rfl⟩
  case alive =>
    intro c
    rw [hstage]
    by_cases hc : c = mainCo <;> simp [hc]
  case polling =>
    intro c x hx
    rw [hstage] at hx
    by_cases hc : c = mainCo <;> simp [hc] at hx

/-- **Nobody moves**, and the calls in progress go on. -/
theorem EchoInv.quiet (h : EchoInv p s v) {loop : Loop} (hloop : LoopInv loop w)
    (hstack : StackInv loop) (hstage : loop.stage = s.loop.stage)
    (hpolls : ∀ k q, s.loop.polls k = some q → ∃ q', loop.polls k = some q' ∧ q'.fds = q.fds) :
    EchoInv p { s with loop } w := by
  constructor
  case loop => exact hloop
  case stack => exact hstack
  case books => exact h.books.reheld (fun _ => rfl) rfl rfl rfl rfl h.books.apart
  case yielded =>
    show ∀ c, loop.stage c = .yielded ↔ c ∈ s.g_readwrite
    rw [hstage]
    exact h.yielded
  case unstarted => exact h.unstarted
  case fresh =>
    show ∀ c ∈ p.workers ++ [p.acceptor], loop.stage c = .fresh ↔ c ∈ s.unstarted
    rw [hstage]
    exact h.fresh
  case alive =>
    show ∀ c, loop.stage c ≠ .ended
    rw [hstage]
    exact h.alive
  case polling =>
    intro c x hx
    have hx' : loop.stage c = .blocked x ∨ loop.stage c = .back x := hx
    rw [hstage] at hx'
    obtain ⟨k, q, hk, hq, hawaits⟩ := h.polling c x hx'
    obtain ⟨q', hq', hfds⟩ := hpolls k q hq
    refine ⟨k, q', hk, hq', ?_⟩
    rw [hfds]
    exact hawaits

/-- Who stands in a call is not concerned by what `c` does. -/
theorem EchoServer.Awaits.congr {fds : List PollFd} (h : s.Awaits p c fds)
    (hline : t.line c = s.line c) : t.Awaits p c fds := by
  unfold EchoServer.Awaits
  rw [hline]
  exact h

/-- **One coroutine changes its stage**, and is in no call before and behind it. -/
theorem EchoInv.restage (h : EchoInv p s v) {st : Stage} (hloop : LoopInv t.loop w)
    (hstack : StackInv t.loop) (hbooks : EchoBooks p t)
    (hstage : t.loop.stage = Function.update s.loop.stage c st)
    (hst : st = .running ∨ st = .yielded)
    (hpolls : ∀ d k, d ≠ c → s.loop.stage d = .blocked (.poll k) ∨ s.loop.stage d = .back (.poll k) →
      t.loop.polls k = s.loop.polls k)
    (hline : ∀ d, d ≠ c → t.line d = s.line d)
    (hyielded : ∀ d, t.loop.stage d = .yielded ↔ d ∈ t.g_readwrite)
    (hunstarted : t.unstarted <:+ p.workers ++ [p.acceptor])
    (hfresh : ∀ d, d ≠ c → (d ∈ t.unstarted ↔ d ∈ s.unstarted)) (hstarted : c ∉ t.unstarted) :
    EchoInv p t w := by
  -- `c` neither polls nor ends nor starts anew by this
  have hnew : st ≠ .fresh ∧ st ≠ .ended ∧ ∀ x, st ≠ .blocked x ∧ st ≠ .back x := by
    cases hst with
    | inl hrun => rw [hrun]; simp
    | inr hyield => rw [hyield]; simp
  constructor
  case loop => exact hloop
  case stack => exact hstack
  case books => exact hbooks
  case yielded => exact hyielded
  case unstarted => exact hunstarted
  case fresh =>
    intro d hd
    rw [hstage]
    by_cases hdc : d = c
    · rw [hdc, Function.update_self]
      exact ⟨fun heq => absurd heq hnew.1, fun hin => absurd hin hstarted⟩
    · rw [Function.update_of_ne hdc, hfresh d hdc]
      exact h.fresh d hd
  case alive =>
    intro d
    rw [hstage]
    by_cases hdc : d = c
    · rw [hdc, Function.update_self]
      exact hnew.2.1
    · rw [Function.update_of_ne hdc]
      exact h.alive d
  case polling =>
    intro d x hx
    rw [hstage] at hx
    by_cases hdc : d = c
    · rw [hdc, Function.update_self] at hx
      cases hx with
      | inl hx => exact absurd hx (hnew.2.2 x).1
      | inr hx => exact absurd hx (hnew.2.2 x).2
    · rw [Function.update_of_ne hdc] at hx
      obtain ⟨k, q, hk, hq, hawaits⟩ := h.polling d x hx
      rw [hk] at hx
      refine ⟨k, q, hk, ?_, hawaits.congr (hline d hdc)⟩
      rw [hpolls d k hdc hx]
      exact hq

/-- Who runs, of the coroutines of the program, has been started. -/
theorem EchoInv.started (h : EchoInv p s v) (hc : c ∈ p.workers ++ [p.acceptor])
    (hstage : s.loop.stage c ≠ .fresh) : c ∉ s.unstarted :=
  fun hin => hstage ((h.fresh c hc).mpr hin)

/-- **The running coroutine moves on in its own code.** -/
theorem EchoInv.own (h : EchoInv p s v) (hc : c ∈ p.workers ++ [p.acceptor])
    (hrun : s.loop.stage c = .running) (hloop : LoopInv t.loop w) (hstack : StackInv t.loop)
    (hbooks : EchoBooks p t) (hstage : t.loop.stage = s.loop.stage)
    (hpolls : t.loop.polls = s.loop.polls) (hline : ∀ d, d ≠ c → t.line d = s.line d)
    (hidle : t.g_readwrite = s.g_readwrite) (hunstarted : t.unstarted = s.unstarted) :
    EchoInv p t w := by
  have hupdate : t.loop.stage = Function.update s.loop.stage c .running := by
    rw [hstage, ← hrun, Function.update_eq_self]
  refine h.restage hloop hstack hbooks hupdate (Or.inl rfl) (fun d k _ _ => by rw [hpolls]) hline
    ?_ ?_ ?_ ?_
  · rw [hstage, hidle]
    exact h.yielded
  · rw [hunstarted]
    exact h.unstarted
  · exact fun d _ => by rw [hunstarted]
  · rw [hunstarted]
    exact h.started hc (by rw [hrun]; simp)

/-- **A coroutine calls `Co_poll_inner`.** -/
theorem EchoInv.poll (h : EchoInv p s v) (hc : c ∈ p.workers ++ [p.acceptor])
    (hturn : s.loop.CoTurn) (hcur : getCurrCo s.loop = some c) {line : EchoLine}
    {fds : List PollFd} {timeout : Int} {now : Nat} {loop : Loop}
    (heff : Effect s.loop v (.poll fds timeout now) loop w) (hloop : LoopInv loop w)
    (hstack : StackInv loop)
    (hbooks : EchoBooks p { s with loop, line := Function.update s.line c line })
    (hawaits : EchoServer.Awaits p { s with loop, line := Function.update s.line c line } c fds) :
    EchoInv p { s with loop, line := Function.update s.line c line } w := by
  obtain ⟨rest, hs⟩ := List.head?_eq_some_iff.mp hcur
  have hrun := UserTurn_running hturn.1 hs
  have hline : ∀ d, d ≠ c → Function.update s.line c line d = s.line d :=
    fun d hd => Function.update_of_ne hd _ _
  cases heff with
  | pollRefused links hrefused =>
      exact h.own hc hrun hloop hstack hbooks rfl rfl hline rfl rfl
  | @pollBlocked d rest' _ _ _ links hs' haccepted =>
      have hdc : d = c := Option.some.inj ((getCurrCo_eq hs').symm.trans hcur)
      rw [hdc] at hloop hstack hbooks hawaits ⊢
      -- the address is that of no call in progress
      have hnew : ∀ e k, s.loop.stage e = .blocked (.poll k) ∨ s.loop.stage e = .back (.poll k) →
          k ≠ s.loop.next := by
        intro e k hk heq
        have hlive := h.loop.owner e _ hk
        rw [h.loop.next_fresh (x := .poll k) heq] at hlive
        cases hlive
      constructor
      case loop => exact hloop
      case stack => exact hstack
      case books => exact hbooks
      case yielded =>
        intro e
        show Function.update s.loop.stage c _ e = .yielded ↔ e ∈ s.g_readwrite
        by_cases he : e = c
        · rw [he, Function.update_self, ← h.yielded c, hrun]
          simp
        · rw [Function.update_of_ne he]
          exact h.yielded e
      case unstarted => exact h.unstarted
      case fresh =>
        intro e he
        show Function.update s.loop.stage c _ e = .fresh ↔ e ∈ s.unstarted
        by_cases hec : e = c
        · rw [hec, Function.update_self, ← h.fresh c hc, hrun]
          simp
        · rw [Function.update_of_ne hec]
          exact h.fresh e he
      case alive =>
        intro e
        show Function.update s.loop.stage c _ e ≠ .ended
        by_cases hec : e = c
        · rw [hec, Function.update_self]
          simp
        · rw [Function.update_of_ne hec]
          exact h.alive e
      case polling =>
        intro e x hx
        have hx' : Function.update s.loop.stage c (.blocked (.poll s.loop.next)) e = .blocked x ∨
          Function.update s.loop.stage c (.blocked (.poll s.loop.next)) e = .back x := hx
        by_cases hec : e = c
        · rw [hec, Function.update_self] at hx'
          cases hx' with
          | inl hx' =>
              rw [hec]
              exact ⟨s.loop.next, _, (Stage.blocked.inj hx').symm, Function.update_self _ _ _,
                hawaits⟩
          | inr hx' => cases hx'
        · rw [Function.update_of_ne hec] at hx'
          obtain ⟨k, q, hk, hq, hold⟩ := h.polling e x hx'
          rw [hk] at hx'
          refine ⟨k, q, hk, ?_, hold.congr (hline e hec)⟩
          show Function.update s.loop.polls s.loop.next _ k = some q
          rw [Function.update_of_ne (hnew e k hx')]
          exact hq

/-- **The call that was resumed returns.** -/
theorem EchoInv.back (h : EchoInv p s v) {loop : Loop} (heff : Effect s.loop v .back loop w)
    (hloop : LoopInv loop w) (hstack : StackInv loop) : EchoInv p { s with loop } w := by
  have hbooks : EchoBooks p { s with loop } :=
    h.books.reheld (fun _ => rfl) rfl rfl rfl rfl h.books.apart
  cases heff with
  | @pollBack c rest k q links hs hstage hp =>
      have hin : c ∈ p.workers ++ [p.acceptor] := by
        obtain ⟨j, r, -, -, hawaits⟩ := h.polling c _ (Or.inr hstage)
        cases hawaits with
        | inl hacc => rw [hacc.1]; simp
        | inr hwork => simp [hwork.1]
      refine h.restage hloop hstack hbooks rfl (Or.inl rfl) ?_ (fun _ _ => rfl) ?_ h.unstarted
        (fun _ _ => Iff.rfl) (h.started hin (by rw [hstage]; simp))
      · intro d j hd hj
        show Function.update s.loop.polls k none j = _
        have hne : j ≠ k := by
          intro heq
          rw [heq] at hj
          exact hd (h.loop.owner_unique hj (Or.inr hstage))
        rw [Function.update_of_ne hne]
      · intro d
        show Function.update s.loop.stage c .running d = .yielded ↔ d ∈ s.g_readwrite
        rw [← h.yielded d]
        by_cases hd : d = c
        · rw [hd, Function.update_self, hstage]
          simp
        · rw [Function.update_of_ne hd]
  | @waitBack c rest k conds hs hstage =>
      -- the program waits for no condition
      obtain ⟨j, r, hj, -, -⟩ := h.polling c _ (Or.inr hstage)
      cases hj

/-- **One turn of the drain.** -/
theorem EchoInv.drain (h : EchoInv p s v) {loop : Loop} (heff : Effect s.loop v .drain loop w)
    (hloop : LoopInv loop w) (hstack : StackInv loop) : EchoInv p { s with loop } w := by
  cases heff with
  | drainOver hempty => exact h.quiet hloop hstack rfl fun k q hq => ⟨q, hq, rfl⟩
  | @drain n ns co links hactive hco =>
      obtain ⟨c, hc⟩ := h.loop.linked n ⟨activeLink, by rw [hactive]; exact List.mem_cons_self⟩
      have hown := h.loop.owner c _ (Or.inl hc)
      rw [hco] at hown
      rw [← Option.some.inj hown] at hc
      have hstage : ∀ d st, (∀ x, st ≠ .blocked x ∧ st ≠ .back x) →
          (Function.update s.loop.stage co (.back n.call) d = st ↔ s.loop.stage d = st) := by
        intro d st hst
        by_cases hd : d = co
        · rw [hd, Function.update_self, hc]
          exact ⟨fun heq => absurd heq.symm (hst _).2, fun heq => absurd heq.symm (hst _).1⟩
        · rw [Function.update_of_ne hd]
      constructor
      case loop => exact hloop
      case stack => exact hstack
      case books => exact h.books.reheld (fun _ => rfl) rfl rfl rfl rfl h.books.apart
      case yielded => exact fun d => (hstage d .yielded (by simp)).trans (h.yielded d)
      case unstarted => exact h.unstarted
      case fresh => exact fun d hd => (hstage d .fresh (by simp)).trans (h.fresh d hd)
      case alive => exact fun d hd => h.alive d ((hstage d .ended (by simp)).mp hd)
      case polling =>
        intro d x hx
        have hx' : Function.update s.loop.stage co (.back n.call) d = .blocked x ∨
          Function.update s.loop.stage co (.back n.call) d = .back x := hx
        by_cases hd : d = co
        · rw [hd, Function.update_self] at hx'
          cases hx' with
          | inl hx' => cases hx'
          | inr hx' =>
              rw [hd, ← Stage.back.inj hx']
              exact h.polling co _ (Or.inl hc)
        · rw [Function.update_of_ne hd] at hx'
          exact h.polling d x hx'

/-! ## §6. Every step. -/

/-- **Descriptors stay where they are** until they are closed. -/
structure EchoServer.Keeps (s t : EchoServer) : Prop where
  closed : s.closed <+: t.closed
  held : ∀ c f, s.held c = some f → t.held c = some f ∨ f ∈ t.closed.drop s.closed.length

theorem EchoServer.Keeps.same (hclosed : t.closed = s.closed) (hheld : ∀ d, t.held d = s.held d) :
    s.Keeps t := by
  constructor
  case closed => rw [hclosed]
  case held => exact fun d f hd => Or.inl (by rw [hheld d]; exact hd)

theorem EchoServer.Keeps.trans {u : EchoServer} (h : s.Keeps t) (h' : t.Keeps u) : s.Keeps u := by
  constructor
  case closed => exact h.closed.trans h'.closed
  case held =>
    intro d f hd
    obtain ⟨more, hmore⟩ := h.closed
    obtain ⟨more', hmore'⟩ := h'.closed
    cases h.held d f hd with
    | inl hd' =>
        cases h'.held d f hd' with
        | inl hd'' => exact Or.inl hd''
        | inr hin =>
            apply Or.inr
            rw [← hmore', List.drop_left] at hin
            rw [← hmore', ← hmore, List.append_assoc, List.drop_left]
            exact List.mem_append_right _ hin
    | inr hin =>
        apply Or.inr
        rw [← hmore, List.drop_left] at hin
        rw [← hmore', ← hmore, List.append_assoc, List.drop_left]
        exact List.mem_append_left _ hin

/-- **The action returns**, the invariant holds behind it, descriptors stay where they are, and what it
does to the loop are allowed steps of the loop. -/
def EchoServer.Goes (p : EchoProgram) (s : EchoServer) (a : EchoAction) : Prop :=
  ∃ t w, s.step p a = some t ∧ EchoInv p t w ∧ s.Keeps t ∧ ∃ bs, Run Loop.Step s.loop bs t.loop

/-- An allowed step of the loop. -/
theorem EchoInv.call (h : EchoInv p s v) {b : Action} (hb : s.loop.Allowed b) :
    ∃ loop w, s.loop.step b = some loop ∧ Effect s.loop v b loop w ∧ LoopInv loop w ∧
      StackInv loop ∧ Run Loop.Step s.loop [b] loop := by
  obtain ⟨loop, w, hloop, heff, hinv⟩ := h.loop.run_step hb
  exact ⟨loop, w, hloop, heff, hinv, h.stack.step h.loop hb heff, .snoc (.nil _) ⟨hb, hloop⟩⟩

/-- Who is fresh or idle may be resumed. -/
theorem EchoInv.resumable (h : EchoInv p s v) (hturn : s.loop.UserTurn)
    (hstage : s.loop.stage c = .fresh ∨ s.loop.stage c = .yielded) :
    s.loop.Allowed (.resume c) := by
  refine ⟨hturn, ?_, hstage⟩
  intro hin
  have hon := (h.stack.on c).mp hin
  cases hstage with
  | inl hfresh => rw [hfresh] at hon; simp at hon
  | inr hyield => rw [hyield] at hon; simp at hon

/-- `c` is resumed. -/
theorem EchoInv.resume (h : EchoInv p s v)
    (hloop : LoopInv t.loop w) (hstack : StackInv t.loop) (hbooks : EchoBooks p t)
    (heff : Effect s.loop v (.resume c) t.loop w) (hline : t.line = s.line)
    (hidle : ∀ d, d ∈ t.g_readwrite ↔ d ∈ s.g_readwrite ∧ d ≠ c)
    (hunstarted : t.unstarted <:+ p.workers ++ [p.acceptor])
    (hfresh : ∀ d, d ∈ t.unstarted ↔ d ∈ s.unstarted ∧ d ≠ c) : EchoInv p t w := by
  obtain ⟨loop, table, g, fd, line, unstarted, accepted, closed⟩ := t
  cases heff with
  | resume =>
      refine h.restage hloop hstack hbooks rfl (Or.inl rfl) (fun _ _ _ _ => rfl)
        (fun d _ => congrFun hline d) ?_ hunstarted ?_ ?_
      · intro d
        rw [hidle d, ← h.yielded d]
        show Function.update s.loop.stage c .running d = .yielded ↔ _
        by_cases hd : d = c
        · rw [hd, Function.update_self]
          simp
        · rw [Function.update_of_ne hd]
          simp [hd]
      · exact fun d hd => (hfresh d).trans (and_iff_left hd)
      · exact fun hin => ((hfresh c).mp hin).2 rfl

/-- `main` starts the next coroutine. -/
theorem EchoInv.start (h : EchoInv p s v) (hok : s.Allowed p .start) : s.Goes p .start := by
  obtain ⟨hturn, -, hne⟩ := hok
  obtain ⟨co, rest, hun⟩ := List.exists_cons_of_ne_nil hne
  have hsuffix := h.unstarted
  rw [hun] at hsuffix
  have hc : co ∈ p.workers ++ [p.acceptor] := hsuffix.subset List.mem_cons_self
  have hnd : (co :: rest).Nodup := p.distinct.sublist hsuffix.sublist
  have hstage : s.loop.stage co = .fresh := by
    rw [h.fresh co hc, hun]
    exact List.mem_cons_self
  obtain ⟨loop, w, hloop, heff, hinv, hstack, hrun⟩ := h.call (h.resumable hturn (Or.inl hstage))
  refine ⟨{ s with loop, unstarted := rest }, w, ?_, ?_, .same rfl fun _ => rfl, _, hrun⟩
  · show (match s.unstarted with
      | [] => none
      | co :: rest => EchoServer.call { s with unstarted := rest } (.resume co)) = _
    rw [hun]
    show (s.loop.step (.resume co)).map _ = _
    rw [hloop]
    rfl
  · refine h.resume hinv hstack ?_ heff rfl ?_ ?_ ?_
    · exact h.books.reheld (fun _ => rfl) rfl rfl rfl rfl h.books.apart
    · intro d
      refine ⟨fun hin => ⟨hin, ?_⟩, fun hand => hand.1⟩
      intro heq
      rw [heq] at hin
      have hy := (h.yielded co).mpr hin
      rw [hstage] at hy
      cases hy
    · exact (List.suffix_cons co rest).trans hsuffix
    · intro d
      show d ∈ rest ↔ d ∈ s.unstarted ∧ d ≠ co
      rw [hun, List.mem_cons]
      have hnot := (List.nodup_cons.mp hnd).1
      constructor
      · exact fun hin => ⟨Or.inr hin, fun heq => hnot (heq ▸ hin)⟩
      · exact fun hand => hand.1.resolve_left hand.2

/-- The coroutine whose turn it is runs. -/
theorem turn_running (hturn : s.loop.CoTurn) (hcur : getCurrCo s.loop = some c) :
    s.loop.stage c = .running := by
  obtain ⟨rest, hs⟩ := List.head?_eq_some_iff.mp hcur
  exact UserTurn_running hturn.1 hs

theorem mem_created (hc : c ∈ p.workers) : c ∈ p.workers ++ [p.acceptor] :=
  List.mem_append_left _ hc

/-- A worker without a descriptor becomes idle. -/
theorem EchoInv.idle (h : EchoInv p s v) (hok : s.Allowed p .idle) : s.Goes p .idle := by
  obtain ⟨c, hcur, ⟨hturn, -, hc⟩, hline, hfd⟩ := hok
  have hcur' : getCurrCo s.loop = some c := hcur
  have hrunning := turn_running hturn hcur'
  have hnone : s.held c = none := by
    unfold EchoServer.held
    rw [if_pos hfd, hline]
    rfl
  have hnew : c ∉ s.g_readwrite := by
    intro hin
    have hy := (h.yielded c).mpr hin
    rw [hrunning] at hy
    cases hy
  obtain ⟨loop, w, hloop, heff, hinv, hstack, hrun⟩ := h.call (b := .yeild) hturn
  refine ⟨{ s with loop, g_readwrite := c :: s.g_readwrite }, w, ?_, ?_, .same rfl fun _ => rfl, _,
    hrun⟩
  · show (getCurrCo s.loop).bind _ = _
    rw [hcur']
    show (s.loop.step .yeild).map _ = _
    rw [hloop]
    rfl
  · have hbooks := h.books.push hc hnone hnew loop
    cases heff with
    | @yeild d rest hs =>
        have hdc : d = c := Option.some.inj ((getCurrCo_eq hs).symm.trans hcur')
        rw [hdc] at hinv hstack hbooks ⊢
        refine h.restage hinv hstack hbooks rfl (Or.inr rfl) (fun _ _ _ _ => rfl) (fun _ _ => rfl)
          ?_ h.unstarted (fun _ _ => Iff.rfl)
          (h.started (mem_created hc) (by rw [hrunning]; simp))
        intro e
        show Function.update s.loop.stage c .yielded e = .yielded ↔ e ∈ c :: s.g_readwrite
        rw [List.mem_cons]
        by_cases he : e = c
        · rw [he, Function.update_self]
          simp
        · rw [Function.update_of_ne he, or_iff_right he]
          exact h.yielded e

/-- A worker takes what it was handed. -/
theorem EchoInv.take (h : EchoInv p s v) (hok : s.Allowed p .take) : s.Goes p .take := by
  obtain ⟨c, hcur, ⟨hturn, -, hc⟩, hline, hfd⟩ := hok
  have hcur' : getCurrCo s.loop = some c := hcur
  refine ⟨{ s with
      fd := Function.update s.fd c (-1), line := Function.update s.line c (.poll (s.fd c)) },
    v, ?_, ?_, .same rfl (held_take hfd), [], .nil _⟩
  · show (getCurrCo s.loop).map _ = _
    rw [hcur']
    rfl
  · refine h.own (mem_created hc) (turn_running hturn hcur') h.loop h.stack ?_ rfl rfl
      (fun d hd => Function.update_of_ne hd _ _) rfl rfl
    refine h.books.reheld (held_take hfd) rfl rfl rfl rfl ?_
    intro d hd
    have hdc : d ≠ c := by
      intro heq
      have hd' : Function.update s.fd c (-1) d ≠ -1 := hd
      rw [heq, Function.update_self] at hd'
      exact hd' rfl
    have hd' : Function.update s.fd c (-1) d ≠ -1 := hd
    rw [Function.update_of_ne hdc] at hd'
    show Function.update s.line c _ d = .top
    rw [Function.update_of_ne hdc]
    exact h.books.apart d hd'

/-- A worker waits for its descriptor. -/
theorem EchoInv.workerPoll (h : EchoInv p s v) {now : Nat} (hok : s.Allowed p (.poll now)) :
    s.Goes p (.poll now) := by
  obtain ⟨c, hcur, ⟨hturn, -, hc⟩, hpoll⟩ := hok
  have hcur' : getCurrCo s.loop = some c := hcur
  cases hline : s.line c with
  | top => rw [hline] at hpoll; cases hpoll
  | read f => rw [hline] at hpoll; cases hpoll
  | poll f =>
      have hfd : s.fd c = -1 := h.books.inner (by rw [hline]; simp)
      obtain ⟨loop, w, hloop, heff, hinv, hstack, hrun⟩ :=
        h.call (b := .poll (echoFds f) 1000 now) hturn
      refine ⟨{ s with loop, line := Function.update s.line c (.read f) }, w, ?_, ?_,
        .same rfl (held_line hfd (by rw [hline]; rfl) loop), _, hrun⟩
      · show (getCurrCo s.loop).bind _ = _
        rw [hcur']
        show (match s.line c with
          | .poll fd =>
              EchoServer.call { s with line := Function.update s.line c (.read fd) }
                (.poll (echoFds fd) 1000 now)
          | _ => none) = _
        rw [hline]
        show (s.loop.step (.poll (echoFds f) 1000 now)).map _ = _
        rw [hloop]
        rfl
      · refine h.poll (mem_created hc) hturn hcur' heff hinv hstack ?_ ?_
        · exact h.books.move (by rw [hline]; simp) (by rw [hline]; rfl) loop
        · refine Or.inr ⟨hc, f, ?_, rfl⟩
          exact Function.update_self _ _ _

/-- A worker reads, writes back, and goes on or closes. -/
theorem EchoInv.echo (h : EchoInv p s v) {ret written : Int} {errno : Errno}
    (hok : s.Allowed p (.echo ret written errno)) : s.Goes p (.echo ret written errno) := by
  obtain ⟨c, hcur, ⟨hturn, -, hc⟩, hread⟩ := hok
  have hcur' : getCurrCo s.loop = some c := hcur
  have hrunning := turn_running hturn hcur'
  cases hline : s.line c with
  | top => rw [hline] at hread; cases hread
  | poll f => rw [hline] at hread; cases hread
  | read f =>
      have hfd : s.fd c = -1 := h.books.inner (by rw [hline]; simp)
      have hheld : s.held c = some f := by
        unfold EchoServer.held
        rw [if_pos hfd, hline]
        rfl
      have hdirect := h.books.direct c f hheld
      have hstep : s.step p (.echo ret written errno) = s.echo c f ret written errno := by
        show (getCurrCo s.loop).bind _ = _
        rw [hcur']
        show (match s.line c with
          | .read fd => s.echo c fd ret written errno
          | _ => none) = _
        rw [hline]
      -- the descriptor has its entry, with the flag
      have htable : (if 0 < ret then s.table.write true f else some s.table) = some s.table := by
        by_cases hret : 0 < ret
        · rw [if_pos hret]
          exact hdirect.write
        · rw [if_neg hret]
      unfold EchoServer.Goes
      rw [hstep]
      unfold EchoServer.echo
      rw [if_neg hdirect.not_emulates]
      dsimp only
      rw [htable]
      dsimp only [Option.bind_some]
      by_cases hgo : 0 < (if 0 < ret then written else ret) ∨
          (-1 = (if 0 < ret then written else ret) ∧ errno = EAGAIN)
      · rw [if_pos hgo]
        refine ⟨_, v, rfl, ?_, .same rfl (held_line hfd (by rw [hline]; rfl) s.loop), [], .nil _⟩
        refine h.own (mem_created hc) hrunning h.loop h.stack ?_ rfl rfl
          (fun d hd => Function.update_of_ne hd _ _) rfl rfl
        exact h.books.move (by rw [hline]; simp) (by rw [hline]; rfl) s.loop
      · rw [if_neg hgo]
        obtain ⟨table, hclose, hgone, hother⟩ := hdirect.close
        rw [hclose]
        refine ⟨_, v, rfl, ?_, ?_, [], .nil _⟩
        · exact h.own (mem_created hc) hrunning h.loop h.stack
            (h.books.close hfd hheld hgone hother) rfl rfl
            (fun d hd => Function.update_of_ne hd _ _) rfl rfl
        · constructor
          case closed => exact List.prefix_append _ _
          case held =>
            intro d g hd
            by_cases hdc : d = c
            · rw [hdc, hheld] at hd
              apply Or.inr
              show g ∈ (s.closed ++ [f]).drop s.closed.length
              rw [List.drop_left, ← Option.some.inj hd]
              exact List.mem_singleton_self f
            · apply Or.inl
              rw [← hd]
              unfold EchoServer.held
              simp only [Function.update_of_ne hdc]

theorem acceptor_created (p : EchoProgram) : p.acceptor ∈ p.workers ++ [p.acceptor] :=
  List.mem_append_right _ (List.mem_singleton_self _)

/-- `accept_routine` waits, and stays at the start of its loop. -/
theorem EchoInv.acceptorPoll (h : EchoInv p s v) {fds : List PollFd} {now : Nat}
    (hturn : s.AcceptorTurn p) (hfds : fds = [⟨-1, 0⟩] ∨ fds = echoFds p.ServerFd) :
    ∃ t w, s.call (.poll fds 1000 now) = some t ∧ EchoInv p t w ∧ s.Keeps t ∧
      ∃ bs, Run Loop.Step s.loop bs t.loop := by
  obtain ⟨hco, hcur⟩ := hturn
  obtain ⟨loop, w, hloop, heff, hinv, hstack, hrun⟩ := h.call (b := .poll fds 1000 now) hco
  refine ⟨{ s with loop }, w, ?_, ?_, .same rfl fun _ => rfl, _, hrun⟩
  · show (s.loop.step (.poll fds 1000 now)).map _ = _
    rw [hloop]
    rfl
  · -- its line is not used
    have hsame : { s with loop } =
        { s with loop, line := Function.update s.line p.acceptor (s.line p.acceptor) } := by
      rw [Function.update_eq_self]
    have hbooks : EchoBooks p { s with loop } :=
      h.books.reheld (fun _ => rfl) rfl rfl rfl rfl h.books.apart
    rw [hsame] at hbooks ⊢
    exact h.poll (acceptor_created p) hco hcur heff hinv hstack hbooks (Or.inl ⟨rfl, hfds⟩)

/-- `accept_routine` gets a connection, or none. -/
theorem EchoInv.accept (h : EchoInv p s v) {fd : Int} {now : Nat}
    (hok : s.Allowed p (.accept fd now)) (harray : fd < AttributesLength) :
    s.Goes p (.accept fd now) := by
  obtain ⟨hturn, hidle, hfree⟩ := hok
  obtain ⟨co, rest, hg⟩ := List.exists_cons_of_ne_nil hidle
  unfold EchoServer.Goes
  show ∃ t w, s.accept p fd now = some t ∧ _
  unfold EchoServer.accept
  by_cases h0 : fd < 0
  · rw [accept_refused h0]
    dsimp only [Option.bind_some]
    rw [if_pos h0]
    exact h.acceptorPoll hturn (Or.inr rfl)
  · have hin : InArray fd := ⟨by omega, harray⟩
    have hclosed := hfree (by omega)
    obtain ⟨table, haccept⟩ := accept_exists (s := s.table) hin
    obtain ⟨hother, hopen⟩ := accept_other (by omega) hclosed haccept
    obtain ⟨table', hset⟩ := setNonBlock_exists (s := table) true hin
    have hdirect := setNonBlock_direct (by omega) hopen hset
    have hother' := hother.trans (setNonBlock_other hset)
    rw [haccept]
    dsimp only [Option.bind_some]
    rw [if_neg h0, hg]
    dsimp only
    rw [hset]
    dsimp only [Option.bind_some]
    -- the worker on top is idle, so it may be resumed
    have hmem : co ∈ s.g_readwrite := by
      rw [hg]
      exact List.mem_cons_self
    have hyield := (h.yielded co).mpr hmem
    have hc := mem_created (h.books.idle co hmem).1
    obtain ⟨loop, w, hloop, heff, hinv, hstack, hrun⟩ :=
      h.call (h.resumable hturn.1.1 (Or.inr hyield))
    have hbooks := h.books.hand (by omega) hg hclosed hdirect hother' loop
    refine ⟨{ s with
        loop
        table := table'
        fd := Function.update s.fd co fd
        g_readwrite := rest
        accepted := s.accepted ++ [fd] }, w, ?_, ?_, ⟨List.prefix_refl _, ?_⟩, _, hrun⟩
    · show (s.loop.step (.resume co)).map _ = _
      rw [hloop]
      rfl
    · have hnd := h.books.nodup
      rw [hg, List.nodup_cons] at hnd
      refine h.resume hinv hstack hbooks heff rfl ?_ h.unstarted ?_
      · intro d
        show d ∈ rest ↔ d ∈ s.g_readwrite ∧ d ≠ co
        rw [hg, List.mem_cons]
        constructor
        · exact fun hin => ⟨Or.inr hin, fun heq => hnd.1 (heq ▸ hin)⟩
        · exact fun hand => hand.1.resolve_left hand.2
      · intro d
        refine ⟨fun hin => ⟨hin, ?_⟩, fun hand => hand.1⟩
        intro heq
        rw [heq] at hin
        exact h.started hc (by rw [hyield]; simp) hin
    · -- the worker that is handed the descriptor had none
      intro d f hd
      have hdc : d ≠ co := by
        intro heq
        rw [heq, (h.books.idle co hmem).2] at hd
        cases hd
      apply Or.inl
      rw [← hd]
      unfold EchoServer.held
      simp only [Function.update_of_ne hdc]

/-- A step of `EventLoop`, or the return of a blocking call. -/
theorem EchoInv.loopStep (h : EchoInv p s v) {b : Action} (hok : s.Allowed p (.loop b)) :
    s.Goes p (.loop b) := by
  obtain ⟨hof, hb, -⟩ := hok
  obtain ⟨loop, w, hloop, heff, hinv, hstack, hrun⟩ := h.call hb
  refine ⟨{ s with loop }, w, ?_, ?_, .same rfl fun _ => rfl, _, hrun⟩
  · show (s.loop.step b).map _ = _
    rw [hloop]
    rfl
  · have hsame : ∀ k q, s.loop.polls k = some q → ∃ q', s.loop.polls k = some q' ∧
        q'.fds = q.fds := fun k q hq => ⟨q, hq, rfl⟩
    -- an event is counted, and the descriptors stay
    have hcounted : ∀ {k : Nat} {r r' : Stpoll}, s.loop.polls k = some r → r'.fds = r.fds →
        ∀ j q, s.loop.polls j = some q →
          ∃ q', Function.update s.loop.polls k (some r') j = some q' ∧ q'.fds = q.fds := by
      intro k r r' hr hfds j q hq
      by_cases hj : j = k
      · rw [hj] at hq ⊢
        rw [hr] at hq
        exact ⟨r', Function.update_self _ _ _, by rw [hfds, Option.some.inj hq]⟩
      · exact ⟨q, by rw [Function.update_of_ne hj]; exact hq, rfl⟩
    cases b with
    | back => exact h.back heff hinv hstack
    | epollWait batch =>
        cases heff
        exact h.quiet hinv hstack rfl hsame
    | prepare =>
        cases heff with
        | prepareAgain hphase hp hhandled => exact h.quiet hinv hstack rfl (hcounted hp rfl)
        | prepare links hphase hp hhandled => exact h.quiet hinv hstack rfl (hcounted hp rfl)
    | takeOut now =>
        cases heff
        exact h.quiet hinv hstack rfl hsame
    | drain => exact h.drain heff hinv hstack
    | _ => cases hof

/-- **Every action goes well**, as long as the number of an accepted descriptor is below the length of
`Fd2Attributes`, which nobody checks. -/
theorem EchoInv.act (h : EchoInv p s v) {a : EchoAction} (hok : s.Allowed p a)
    (harray : ∀ fd now, a = .accept fd now → fd < AttributesLength) : s.Goes p a := by
  cases a with
  | start => exact h.start hok
  | idle => exact h.idle hok
  | take => exact h.take hok
  | poll now => exact h.workerPoll hok
  | echo ret written errno => exact h.echo hok
  | sleep now => exact h.acceptorPoll hok.1 (Or.inl rfl)
  | accept fd now => exact h.accept hok (harray fd now rfl)
  | loop b => exact h.loopStep hok

/-- An action that returned went well. -/
theorem EchoInv.step (h : EchoInv p s v) {a : EchoAction} (hstep : s.Step p a t) :
    (∃ w, EchoInv p t w) ∧ s.Keeps t ∧ ∃ bs, Run Loop.Step s.loop bs t.loop := by
  obtain ⟨hok, hstep⟩ := hstep
  have harray : ∀ fd now, a = .accept fd now → fd < AttributesLength := by
    intro fd now heq
    rw [heq] at hstep
    obtain ⟨table, haccept, -⟩ := Option.bind_eq_some_iff.mp hstep
    by_cases h0 : fd < 0
    · exact Int.lt_trans h0 (by decide)
    · unfold FdTable.acceptFd2Attributes at haccept
      rw [if_neg h0] at haccept
      obtain ⟨r, hr, -⟩ := Option.map_eq_some_iff.mp haccept
      exact (Hook.create_inArray (A := r.1) (t := r.2) hr).2
  obtain ⟨u, w, hu, hinv, hkeeps, hrun⟩ := h.act hok harray
  have heq : u = t := Option.some.inj (hu.symm.trans hstep)
  rw [heq] at hinv hkeeps hrun
  exact ⟨⟨w, hinv⟩, hkeeps, hrun⟩

variable {s₀ : EchoServer} {as : List EchoAction}

theorem EchoInv.along (h : EchoInv p s v) (hrun : Run (EchoServer.Step p) s as t) :
    (∃ w, EchoInv p t w) ∧ s.Keeps t ∧ ∃ bs, Run Loop.Step s.loop bs t.loop := by
  induction hrun with
  | nil => exact ⟨⟨v, h⟩, .same rfl fun _ => rfl, [], .nil _⟩
  | snoc _ hstep ih =>
      obtain ⟨⟨w, h'⟩, hkeeps, bs, hrun'⟩ := ih
      obtain ⟨hinv, hkeeps', cs, hrun''⟩ := h'.step hstep
      exact ⟨hinv, hkeeps.trans hkeeps', _, hrun'.trans hrun''⟩

theorem EchoInv.of_run (hinit : EchoServer.init p = some s₀)
    (hrun : Run (EchoServer.Step p) s₀ as s) :
    (∃ v, EchoInv p s v) ∧ ∃ bs, Run Loop.Step Loop.init bs s.loop := by
  obtain ⟨hinv, -, hloop⟩ := (EchoInv.init hinit).along hrun
  obtain ⟨table, -, heq⟩ := Option.map_eq_some_iff.mp hinit
  have hstart : s₀.loop = Loop.init := by rw [← heq]
  rw [hstart] at hloop
  exact ⟨hinv, hloop⟩

/-! ## §7. The workers. -/

/-- `EventLoop` is about to call `Epoll_Wait`. -/
def EchoServer.BeforeEpollWait (s : EchoServer) : Prop :=
  s.loop.stack = [mainCo] ∧ s.loop.phase = .user ∧ s.unstarted = []

theorem acceptor_not_worker (p : EchoProgram) : p.acceptor ∉ p.workers := by
  intro hin
  have hnd := List.nodup_append.mp p.distinct
  exact hnd.2.2 _ hin _ (List.mem_singleton_self _) rfl

/-- Who of the program is not on the call stack, and has been started, is idle or in `Co_poll_inner`. -/
theorem EchoInv.offStack (h : EchoInv p s v) (hc : c ∈ p.workers ++ [p.acceptor])
    (hoff : c ∉ s.loop.stack) (hstarted : c ∉ s.unstarted) :
    c ∈ s.g_readwrite ∨ ∃ k q, s.loop.stage c = .blocked (.poll k) ∧ s.loop.polls k = some q ∧
      s.Awaits p c q.fds := by
  rw [h.stack.on] at hoff
  cases hstage : s.loop.stage c with
  | fresh => exact absurd ((h.fresh c hc).mp hstage) hstarted
  | running => exact absurd (Or.inl hstage) hoff
  | yielded => exact Or.inl ((h.yielded c).mp hstage)
  | blocked x =>
      obtain ⟨k, q, hk, hq, hawaits⟩ := h.polling c x (Or.inl hstage)
      exact Or.inr ⟨k, q, by rw [hk], hq, hawaits⟩
  | back x => exact absurd (Or.inr ⟨x, hstage⟩) hoff
  | ended => exact absurd hstage (h.alive c)

/-- **A worker in `Co_poll_inner`** waits for the descriptor it has. -/
theorem EchoInv.awaits_held (h : EchoInv p s v) (hc : c ∈ p.workers) {fds : List PollFd}
    (hawaits : s.Awaits p c fds) : ∃ f, s.held c = some f ∧ fds = echoFds f := by
  cases hawaits with
  | inl hacc => exact absurd (hacc.1 ▸ hc) (acceptor_not_worker p)
  | inr hwork =>
      obtain ⟨-, f, hline, hfds⟩ := hwork
      refine ⟨f, ?_, hfds⟩
      unfold EchoServer.held
      rw [if_pos (h.books.inner (by rw [hline]; simp)), hline]
      rfl

/-- **The echo server never gets stuck and never resumes a coroutine it may not.**  In every state of every
run, every action that the program's text allows returns, as long as the numbers `accept` returns stay
below the length of `Fd2Attributes`; all that the program does to the event loop are allowed steps of the
loop; the stack `g_readwrite` holds exactly the workers that have yielded, once each.  And whenever
`EventLoop` is about to call `Epoll_Wait`, `accept_routine` is suspended in `Co_poll_inner`, and every
worker is idle or suspended there with its descriptor. -/
theorem echo_workers (hinit : EchoServer.init p = some s₀)
    (hrun : Run (EchoServer.Step p) s₀ as s) :
    (∀ a, s.Allowed p a → (∀ fd now, a = .accept fd now → fd < AttributesLength) →
      ∃ t, s.step p a = some t) ∧
    (∃ bs, Run Loop.Step Loop.init bs s.loop) ∧
    s.g_readwrite.Nodup ∧
    (∀ c, c ∈ s.g_readwrite ↔ c ∈ p.workers ∧ s.loop.stage c = .yielded) ∧
    (s.BeforeEpollWait →
      (∃ k q, s.loop.stage p.acceptor = .blocked (.poll k) ∧ s.loop.polls k = some q ∧
        (q.fds = [⟨-1, 0⟩] ∨ q.fds = echoFds p.ServerFd)) ∧
      ∀ c ∈ p.workers, c ∈ s.g_readwrite ∨ ∃ k q f, s.loop.stage c = .blocked (.poll k) ∧
        s.loop.polls k = some q ∧ s.held c = some f ∧ q.fds = echoFds f) := by
  obtain ⟨⟨v, h⟩, hloop⟩ := EchoInv.of_run hinit hrun
  refine ⟨?_, hloop, h.books.nodup, ?_, ?_⟩
  · intro a hok harray
    obtain ⟨t, w, ht, -⟩ := h.act hok harray
    exact ⟨t, ht⟩
  · intro c
    rw [h.yielded c]
    exact ⟨fun hin => ⟨(h.books.idle c hin).1, hin⟩, fun hand => hand.2⟩
  · intro hbefore
    obtain ⟨hstack, -, hall⟩ := hbefore
    -- before `Epoll_Wait` only the main coroutine is on the call stack
    have hoff : ∀ c ∈ p.workers ++ [p.acceptor], c ∉ s.loop.stack := by
      intro c hc hin
      rw [hstack, List.mem_singleton] at hin
      exact p.others (hin ▸ hc)
    -- and there is nobody left to be started
    have hstarted : ∀ c, c ∉ s.unstarted := by
      intro c
      rw [hall]
      exact List.not_mem_nil
    constructor
    · have hacc := acceptor_created p
      cases h.offStack hacc (hoff _ hacc) (hstarted _) with
      | inl hidle => exact absurd (h.books.idle _ hidle).1 (acceptor_not_worker p)
      | inr hblocked =>
          obtain ⟨k, q, hstage, hq, hawaits⟩ := hblocked
          cases hawaits with
          | inl hfds => exact ⟨k, q, hstage, hq, hfds.2⟩
          | inr hwork => exact absurd hwork.1 (acceptor_not_worker p)
    · intro c hc
      have hin := mem_created hc
      cases h.offStack hin (hoff _ hin) (hstarted _) with
      | inl hidle => exact Or.inl hidle
      | inr hblocked =>
          obtain ⟨k, q, hstage, hq, hawaits⟩ := hblocked
          obtain ⟨f, hheld, hfds⟩ := h.awaits_held hc hawaits
          exact Or.inr ⟨k, q, f, hstage, hq, hheld, hfds⟩

/-- Workers 1 and 2, acceptor 3, and a listening socket with number 5. -/
def EchoProgram.two : EchoProgram where
  workers := [1, 2]
  acceptor := 3
  ServerFd := 5
  distinct := by decide
  others := by decide

def EchoServer.two : EchoServer := (EchoServer.init .two).get (by decide +kernel)

theorem two_init : EchoServer.init .two = some EchoServer.two := (Option.some_get _).symm

/-- One connection is accepted, and the worker that became idle last waits for it. -/
def EchoProgram.served : List EchoAction :=
  [.start, .idle, .start, .idle, .start, .accept 7 0, .take, .poll 0, .accept (-1) 0]

theorem two_run : ∃ s, Run (EchoServer.Step .two) .two EchoProgram.served s ∧
    s.loop.stack = [mainCo] ∧ s.loop.phase = .user ∧ s.unstarted = [] ∧ s.g_readwrite = [1] ∧
    s.held 2 = some 7 := by
  have hcheck : checkRun (EchoServer.step .two) (fun s a => decide (s.Allowed .two a)) .two
      EchoProgram.served
      (fun s => decide (s.loop.stack = [mainCo] ∧ s.loop.phase = .user ∧ s.unstarted = [] ∧
        s.g_readwrite = [1] ∧ s.held 2 = some 7)) = true := by
    decide +kernel
  have hof : ∀ (s : EchoServer) a t, decide (s.Allowed .two a) = true → s.step .two a = some t →
      s.Step .two a t := fun s a t hok hstep => ⟨of_decide_eq_true hok, hstep⟩
  obtain ⟨s, hrun, hs⟩ := Run.of_check hof hcheck
  exact ⟨s, hrun, of_decide_eq_true hs⟩

theorem echo_workers_two : ∃ s, Run (EchoServer.Step .two) .two EchoProgram.served s ∧
    s.g_readwrite = [1] ∧ ∃ k q, s.loop.stage 3 = .blocked (.poll k) ∧ s.loop.polls k = some q ∧
      (q.fds = [⟨-1, 0⟩] ∨ q.fds = echoFds 5) := by
  obtain ⟨s, hrun, hstack, hphase, hall, hidle, -⟩ := two_run
  obtain ⟨-, -, -, -, hbefore⟩ := echo_workers two_init hrun
  exact ⟨s, hrun, hidle, (hbefore ⟨hstack, hphase, hall⟩).1⟩

/-! ## §8. The descriptors. -/

/-- **Who waits is one coroutine**: a `Stpoll_t` is that of `accept_routine`, or of a worker and the
descriptor it has. -/
theorem EchoInv.owned (h : EchoInv p s v) {k : Nat} {q : Stpoll} (hq : s.loop.polls k = some q) :
    (q.ItemCo = p.acceptor ∧ (q.fds = [⟨-1, 0⟩] ∨ q.fds = echoFds p.ServerFd)) ∨
      ∃ f, s.held q.ItemCo = some f ∧ q.fds = echoFds f := by
  obtain ⟨j, r, hj, hr, hawaits⟩ := h.polling q.ItemCo (.poll k) (h.stack.live k q hq)
  rw [← Call.poll.inj hj, hq] at hr
  rw [← Option.some.inj hr] at hawaits
  cases hawaits with
  | inl hacc => exact Or.inl hacc
  | inr hwork => exact Or.inr (h.awaits_held hwork.1 (Or.inr hwork))

/-- A coroutine is in one call. -/
theorem StackInv.one_call {s : Loop} (h : StackInv s) {j k : Nat} {q r : Stpoll}
    (hq : s.polls j = some q) (hr : s.polls k = some r) (howner : q.ItemCo = r.ItemCo) : j = k := by
  have hj := h.live j q hq
  have hk := h.live k r hr
  rw [howner] at hj
  cases hj with
  | inl hj =>
      cases hk with
      | inl hk => rw [hj] at hk; exact Call.poll.inj (Stage.blocked.inj hk)
      | inr hk => rw [hj] at hk; cases hk
  | inr hj =>
      cases hk with
      | inl hk => rw [hj] at hk; cases hk
      | inr hk => rw [hj] at hk; exact Call.poll.inj (Stage.back.inj hk)

/-- What `accept_routine` waits for is nobody's. -/
theorem EchoInv.acceptor_apart (h : EchoInv p s v) {f : Int} (hf : s.held c = some f)
    {fds : List PollFd} (hfds : fds = [⟨-1, 0⟩] ∨ fds = echoFds p.ServerFd) {x : PollFd}
    (hx : x ∈ fds) : x.fd ≠ f := by
  have hnonneg := (h.books.direct c f hf).1.1
  have hserver := (h.books.holder c f hf).2
  intro heq
  cases hfds with
  | inl hsleep =>
      rw [hsleep, List.mem_singleton] at hx
      rw [hx] at heq
      have hneg : (-1 : Int) = f := heq
      omega
  | inr hlisten =>
      rw [hlisten] at hx
      have hx' := List.mem_singleton.mp hx
      rw [hx'] at heq
      exact hserver heq.symm

/-- **No two calls wait for one descriptor.** -/
theorem EchoInv.one_waiter (h : EchoInv p s v) {j k : Nat} {q r : Stpoll} {x y : PollFd}
    (hq : s.loop.polls j = some q) (hr : s.loop.polls k = some r) (hx : x ∈ q.fds)
    (hy : y ∈ r.fds) (hxy : x.fd = y.fd) : j = k := by
  have hfd : ∀ {f : Int} {fds : List PollFd} {x : PollFd}, fds = echoFds f → x ∈ fds → x.fd = f := by
    intro f fds x hfds hx
    rw [hfds] at hx
    have hx' := List.mem_singleton.mp hx
    rw [hx']
  apply h.stack.one_call hq hr
  cases h.owned hq with
  | inl hacc =>
      cases h.owned hr with
      | inl hacc' => rw [hacc.1, hacc'.1]
      | inr hwork' =>
          obtain ⟨f, hf, hfds⟩ := hwork'
          exact absurd (hxy.trans (hfd hfds hy)) (h.acceptor_apart hf hacc.2 hx)
  | inr hwork =>
      obtain ⟨f, hf, hfds⟩ := hwork
      cases h.owned hr with
      | inl hacc' => exact absurd (hxy.symm.trans (hfd hfds hx)) (h.acceptor_apart hf hacc'.2 hy)
      | inr hwork' =>
          obtain ⟨g, hg, hfds'⟩ := hwork'
          have hfg : f = g := by
            rw [← hfd hfds hx, hxy]
            exact hfd hfds' hy
          rw [← hfg] at hg
          exact h.books.unique _ _ f hf hg

/-- **Every connection is served by one worker.**  In every state of every run each open descriptor, the
listening one apart, is held by exactly one worker, which is not idle; neither the kernel nor the hooks
block on it; no two calls of `Co_poll_inner` wait for one descriptor; every number has been closed as often
as it was accepted, but for one time while it is open.  And in all that follows the worker has the
descriptor until it is closed. -/
theorem echo_descriptors (hinit : EchoServer.init p = some s₀)
    (hrun : Run (EchoServer.Step p) s₀ as s) :
    (∀ f, f ≠ p.ServerFd → s.table.kernel f ≠ none → ∃! c, s.held c = some f) ∧
    (∀ c f, s.held c = some f → c ∈ p.workers ∧ c ∉ s.g_readwrite ∧ Direct s.table f) ∧
    (∀ j k q r, s.loop.polls j = some q → s.loop.polls k = some r →
      ∀ x ∈ q.fds, ∀ y ∈ r.fds, x.fd = y.fd → j = k) ∧
    (∀ f, s.accepted.count f =
      s.closed.count f + if f = p.ServerFd ∨ s.table.kernel f = none then 0 else 1) ∧
    ∀ bs t, Run (EchoServer.Step p) s bs t → ∀ c f, s.held c = some f →
      t.held c = some f ∨ f ∈ t.closed.drop s.closed.length := by
  obtain ⟨⟨v, h⟩, -⟩ := EchoInv.of_run hinit hrun
  refine ⟨?_, ?_, ?_, h.books.count, ?_⟩
  · intro f hf hopen
    obtain ⟨c, hc⟩ := h.books.served f hf hopen
    exact ⟨c, hc, fun d hd => h.books.unique d c f hd hc⟩
  · intro c f hf
    refine ⟨(h.books.holder c f hf).1, ?_, h.books.direct c f hf⟩
    intro hin
    rw [(h.books.idle c hin).2] at hf
    cases hf
  · exact fun j k q r hq hr x hx y hy hxy => h.one_waiter hq hr hx hy hxy
  · intro bs t hrun' c f hf
    obtain ⟨-, hkeeps, -⟩ := h.along hrun'
    exact hkeeps.held c f hf

/-- The connection 7 is with worker 2 alone. -/
theorem echo_descriptors_two : ∃ s, Run (EchoServer.Step .two) .two EchoProgram.served s ∧
    s.held 2 = some 7 ∧ (2 : Co) ∉ s.g_readwrite ∧ Direct s.table 7 ∧
    (s.held 2 = some 7 ∨ 7 ∈ s.closed.drop s.closed.length) := by
  obtain ⟨s, hrun, -, -, -, -, hheld⟩ := two_run
  obtain ⟨-, hholder, -, -, hstays⟩ := echo_descriptors two_init hrun
  obtain ⟨-, hbusy, hdirect⟩ := hholder 2 7 hheld
  exact ⟨s, hrun, hheld, hbusy, hdirect, hstays [] s (.nil s) 2 7 hheld⟩

end RocketCo.CoRoutine
