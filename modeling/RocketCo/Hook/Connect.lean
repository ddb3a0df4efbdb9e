/-
  RocketCo.Hook.Connect — the hooked `connect`.

  On a socket that its user wants to block the system's `connect` fails with `EINPROGRESS`.  The hook then
  waits until the handshake is decided: in up to five `poll`s, each with twice the timeout of the one
  before, and behind them `SO_ERROR` says how it went.

  Main results:
    • `connect_retransmits` — the calls that are made and what is returned, whatever is answered,
    • `connect_blocks` — on a network that decides the handshake, the hook is a `connect` that blocks for
      62 seconds at most.
-/
import RocketCo.Hook.Transfer
import RocketCo.Hook.TableIndex

namespace RocketCo.Hook

open RocketCo.Lib
open RocketCo.CoRoutine (Errno)

/-! ## §1. The function of the source. -/

def EINPROGRESS : Errno := 115

def ETIMEDOUT : Errno := 110

/-- The calls `connect` makes. -/
inductive ConnectCall where
  | connect (fd : Int)
  | poll (event : Pollfd) (timeout : Int)
  | getsockopt (fd : Int)

/-- What comes back: the value, `errno` afterwards, the `revents` of a `poll` and the `err` of a
`getsockopt`. -/
structure ConnectAnswer where
  value : Int
  errno : Errno
  revents : BitVec 16
  err : Errno

/-- What `connect` leaves its caller: the value, `errno`, and the attributes of the descriptor. -/
structure Connected where
  ret : Int
  errno : Errno
  Attributes : Option FdAttributes

abbrev Connecting (α : Type) := Prog ConnectCall ConnectAnswer α

/-- The variables of the loop, and `errno`. -/
structure Retry where
  RetransmissionInterval : Int
  revents : BitVec 16
  errno : Errno

/-- `1 == res && pollEvent.revents & POLLOUT` -/
def ConnectAnswer.Writable (res : ConnectAnswer) : Prop :=
  1 = res.value ∧ res.revents &&& POLLOUT ≠ 0

instance (res : ConnectAnswer) : Decidable res.Writable := inferInstanceAs (Decidable (_ ∧ _))

/-- `pollEvent`, as every turn sets it. -/
def pollEvent (fd : Int) : Pollfd := ⟨fd, POLLOUT ||| POLLERR ||| POLLHUP, 0⟩

/-- The loop of `connect`, with the turns that are left. -/
def connectLoop (fd : Int) : Nat → Retry → Connecting Retry
  | 0, x => .done x
  | turns + 1, x =>
      .call (.poll (pollEvent fd) x.RetransmissionInterval) fun res =>
        if res.Writable then .done ⟨x.RetransmissionInterval, res.revents, res.errno⟩
        else connectLoop fd turns ⟨x.RetransmissionInterval * 2, res.revents, res.errno⟩

/-- What follows the loop; `ret` is what the system's `connect` returned. -/
def connectEnd (fd ret : Int) (A : FdAttributes) (x : Retry) : Connecting Connected :=
  if x.revents &&& POLLOUT ≠ 0 then
    .call (.getsockopt fd) fun a =>
      if a.value < 0 then .done ⟨a.value, a.errno, some A⟩
      else if a.err ≠ 0 then .done ⟨-1, a.err, some A⟩
      else .done ⟨0, 0, some A⟩
  else if x.RetransmissionInterval ≠ 2000 then .done ⟨ret, ETIMEDOUT, some A⟩
  else .done ⟨ret, x.errno, some A⟩

/-- The address is copied if it is no longer than a `sockaddr_in`. -/
def FdAttributes.withAddr (A : FdAttributes) (address : BitVec 128) (addressLen : Nat) : FdAttributes :=
  if addressLen ≤ 16 then { A with addr := Table.copyAddr A.addr address addressLen } else A

/-- `connect`. -/
def connect (isHook : Bool) (Attributes : Option FdAttributes) (fd : Int) (address : BitVec 128)
    (addressLen : Nat) : Connecting Connected :=
  .call (.connect fd) fun a =>
    if isHook then
      match Attributes with
      | none => .done ⟨a.value, a.errno, none⟩
      | some A =>
          if NonBlock A.fdFlag then .done ⟨a.value, a.errno, some A⟩
          else if ¬ (a.value < 0 ∧ a.errno = EINPROGRESS) then .done ⟨a.value, a.errno, some A⟩
          else
            (connectLoop fd 5 ⟨2000, 0, a.errno⟩).bind
              (connectEnd fd a.value (A.withAddr address addressLen))
    else .done ⟨a.value, a.errno, Attributes⟩

/-! ## §2. Whatever is answered. -/

variable {σ : Type} {handle : σ → ConnectCall → ConnectAnswer × σ} {fd : Int}

/-- The `poll`s that were answered so, from the timeout `t` on. -/
def polled (fd : Int) : Int → List ConnectAnswer → List (ConnectCall × ConnectAnswer)
  | _, [] => []
  | t, a :: as => (.poll (pollEvent fd) t, a) :: polled fd (t * 2) as

/-- The answers to the `poll`s of a loop with `turns` turns: the first that says the socket is writable is
the last one. -/
structure Answered (turns : Nat) (as : List ConnectAnswer) (last : ConnectAnswer) : Prop where
  within : as.length < turns
  waits : ∀ a ∈ as, ¬ a.Writable
  ends : last.Writable ∨ as.length + 1 = turns

theorem Answered.cons {turns : Nat} {as : List ConnectAnswer} {a last : ConnectAnswer}
    (h : Answered turns as last) (ha : ¬ a.Writable) : Answered (turns + 1) (a :: as) last where
  within := by
    show as.length + 1 < turns + 1
    have := h.within
    omega
  waits := by
    intro b hb
    rcases List.mem_cons.mp hb with heq | hin
    · rw [heq]
      exact ha
    · exact h.waits b hin
  ends := by
    rcases h.ends with hlast | hlen
    · exact Or.inl hlast
    · right
      show as.length + 1 + 1 = turns + 1
      omega

/-- A turn that ends the loop. -/
theorem connectLoop_stop {s s' : σ} {res : ConnectAnswer} (turns : Nat) (x : Retry)
    (h : handle s (.poll (pollEvent fd) x.RetransmissionInterval) = (res, s')) (hw : res.Writable) :
    (connectLoop fd (turns + 1) x).exec handle s =
      ⟨⟨x.RetransmissionInterval, res.revents, res.errno⟩,
        [(.poll (pollEvent fd) x.RetransmissionInterval, res)], s'⟩ := by
  unfold connectLoop
  rw [Prog.exec_call h, if_pos hw]
  rfl

/-- A turn behind which it goes on. -/
theorem connectLoop_go {s s' : σ} {res : ConnectAnswer} (turns : Nat) (x : Retry)
    (h : handle s (.poll (pollEvent fd) x.RetransmissionInterval) = (res, s'))
    (hw : ¬ res.Writable) :
    let o := (connectLoop fd turns ⟨x.RetransmissionInterval * 2, res.revents, res.errno⟩).exec handle s'
    (connectLoop fd (turns + 1) x).exec handle s =
      ⟨o.result, (.poll (pollEvent fd) x.RetransmissionInterval, res) :: o.calls, o.final⟩ := by
  intro o
  show (Prog.call _ _).exec handle s = _
  rw [Prog.exec_call h, if_neg hw]

/-- **The loop.** -/
theorem connectLoop_spec (handle : σ → ConnectCall → ConnectAnswer × σ) (fd : Int) :
    ∀ (turns : Nat) (x : Retry) (s : σ),
      ∃ as last, Answered (turns + 1) as last ∧
        ((connectLoop fd (turns + 1) x).exec handle s).calls =
          polled fd x.RetransmissionInterval (as ++ [last]) ∧
        ((connectLoop fd (turns + 1) x).exec handle s).result.revents = last.revents ∧
        (¬ last.Writable → ((connectLoop fd (turns + 1) x).exec handle s).result.RetransmissionInterval =
          x.RetransmissionInterval * 2 ^ (turns + 1)) := by
  intro turns
  induction turns with
  | zero =>
      intro x s
      obtain ⟨res, s', h⟩ : ∃ res s',
          handle s (.poll (pollEvent fd) x.RetransmissionInterval) = (res, s') := ⟨_, _, rfl⟩
      refine ⟨[], res, ⟨Nat.zero_lt_one, fun _ ha => absurd ha List.not_mem_nil, Or.inr rfl⟩, ?_⟩
      by_cases hw : res.Writable
      · rw [connectLoop_stop 0 x h hw]
        exact ⟨rfl, rfl, fun hnot => absurd hw hnot⟩
      · rw [connectLoop_go 0 x h hw]
        exact ⟨rfl, rfl, fun _ => rfl⟩
  | succ turns ih =>
      intro x s
      obtain ⟨res, s', h⟩ : ∃ res s',
          handle s (.poll (pollEvent fd) x.RetransmissionInterval) = (res, s') := ⟨_, _, rfl⟩
      by_cases hw : res.Writable
      · refine ⟨[], res, ⟨Nat.succ_pos _, fun _ ha => absurd ha List.not_mem_nil, Or.inl hw⟩, ?_⟩
        rw [connectLoop_stop (turns + 1) x h hw]
        exact ⟨rfl, rfl, fun hnot => absurd hw hnot⟩
      · obtain ⟨as, last, hanswered, hcalls, hrevents, hinterval⟩ :=
          ih ⟨x.RetransmissionInterval * 2, res.revents, res.errno⟩ s'
        rw [connectLoop_go (turns + 1) x h hw]
        refine ⟨res :: as, last, hanswered.cons hw, ?_, hrevents, ?_⟩
        · show (ConnectCall.poll (pollEvent fd) x.RetransmissionInterval, res) :: _ = _
          rw [hcalls]
          rfl
        · intro hnot
          show ((connectLoop fd (turns + 1) _).exec handle s').result.RetransmissionInterval = _
          rw [hinterval hnot]
          show x.RetransmissionInterval * 2 * 2 ^ (turns + 1) = _
          rw [Int.mul_assoc, ← Int.pow_succ']

/-- What `getsockopt` says, as `connect` returns it. -/
def ConnectAnswer.verdict (v : ConnectAnswer) (A : FdAttributes) : Connected :=
  if v.value < 0 then ⟨v.value, v.errno, some A⟩
  else if v.err ≠ 0 then ⟨-1, v.err, some A⟩
  else ⟨0, 0, some A⟩

/-- The hook waits for the handshake. -/
def Awaits (isHook : Bool) (A : FdAttributes) (first : ConnectAnswer) : Prop :=
  isHook = true ∧ ¬ NonBlock A.fdFlag ∧ first.value < 0 ∧ first.errno = EINPROGRESS

/-- The socket is writable: `getsockopt` is asked. -/
theorem connectEnd_asks {s s' : σ} {v : ConnectAnswer} {x : Retry} (ret : Int) (A : FdAttributes)
    (h : handle s (.getsockopt fd) = (v, s')) (hout : x.revents &&& POLLOUT ≠ 0) :
    (connectEnd fd ret A x).exec handle s = ⟨v.verdict A, [(.getsockopt fd, v)], s'⟩ := by
  unfold connectEnd
  rw [if_pos hout, Prog.exec_call h]
  unfold ConnectAnswer.verdict
  by_cases hfail : v.value < 0
  · rw [if_pos hfail, if_pos hfail]
    rfl
  · rw [if_neg hfail, if_neg hfail]
    by_cases herr : v.err ≠ 0
    · rw [if_pos herr, if_pos herr]
      rfl
    · rw [if_neg herr, if_neg herr]
      rfl

/-- It is not, and the interval has been doubled. -/
theorem connectEnd_timeout {s : σ} {x : Retry} (ret : Int) (A : FdAttributes)
    (hout : x.revents &&& POLLOUT = 0) (hmore : x.RetransmissionInterval ≠ 2000) :
    (connectEnd fd ret A x).exec handle s = ⟨⟨ret, ETIMEDOUT, some A⟩, [], s⟩ := by
  unfold connectEnd
  rw [if_neg (not_not.mpr hout), if_pos hmore]
  rfl

/-- The attributes are those from before the loop. -/
theorem connectEnd_attributes {s : σ} {x : Retry} (ret : Int) (A : FdAttributes) :
    ((connectEnd fd ret A x).exec handle s).result.Attributes = some A := by
  by_cases hout : x.revents &&& POLLOUT = 0
  · unfold connectEnd
    rw [if_neg (not_not.mpr hout)]
    split
    · rfl
    · rfl
  · rw [connectEnd_asks ret A rfl hout]
    show ((handle s (.getsockopt fd)).1.verdict A).Attributes = some A
    unfold ConnectAnswer.verdict
    split
    · rfl
    · split
      · rfl
      · rfl

/-- A `connect` that does not wait. -/
theorem connect_plain {isHook : Bool} {Attributes : Option FdAttributes} {s s' : σ}
    {first : ConnectAnswer} (address : BitVec 128) (addressLen : Nat)
    (h : handle s (.connect fd) = (first, s'))
    (hnot : ∀ A, Attributes = some A → ¬ Awaits isHook A first) :
    (connect isHook Attributes fd address addressLen).exec handle s =
      ⟨⟨first.value, first.errno, Attributes⟩, [(.connect fd, first)], s'⟩ := by
  unfold connect
  rw [Prog.exec_call h]
  cases isHook with
  | false => rfl
  | true =>
      cases Attributes with
      | none => rfl
      | some A =>
          rw [if_pos rfl]
          by_cases hflag : NonBlock A.fdFlag
          · simp only [if_pos hflag]
            rfl
          · have hdone : ¬ (first.value < 0 ∧ first.errno = EINPROGRESS) :=
              fun hprogress => hnot A rfl ⟨rfl, hflag, hprogress⟩
            simp only [if_neg hflag, if_pos hdone]
            rfl

/-- A `connect` that waits. -/
theorem connect_awaits {isHook : Bool} {A : FdAttributes} {s s' : σ} {first : ConnectAnswer}
    {loop : Outcome ConnectCall ConnectAnswer Retry σ}
    {last : Outcome ConnectCall ConnectAnswer Connected σ} (address : BitVec 128) (addressLen : Nat)
    (h : handle s (.connect fd) = (first, s')) (hawaits : Awaits isHook A first)
    (hloop : (connectLoop fd 5 ⟨2000, 0, first.errno⟩).exec handle s' = loop)
    (hlast : (connectEnd fd first.value (A.withAddr address addressLen) loop.result).exec handle
      loop.final = last) :
    (connect isHook (some A) fd address addressLen).exec handle s =
      ⟨last.result, (.connect fd, first) :: (loop.calls ++ last.calls), last.final⟩ := by
  obtain ⟨hhook, hflag, hprogress⟩ := hawaits
  unfold connect
  rw [Prog.exec_call h, if_pos hhook]
  simp only [if_neg hflag, if_neg (not_not.mpr hprogress)]
  rw [Prog.exec_bind, hloop, hlast]

/-- **The calls of `connect` and what it returns, whatever is answered.**  Where it does not wait, it is
the system's `connect`.  Where it waits, it polls with the timeouts 2000, 4000, ... until one poll says
that the socket is writable, five times at most; then `getsockopt` decides, or else the connection timed
out, and only after five polls. -/
theorem connect_retransmits (handle : σ → ConnectCall → ConnectAnswer × σ) (isHook : Bool)
    (Attributes : Option FdAttributes) (fd : Int) (address : BitVec 128) (addressLen : Nat) (s : σ) :
    let o := (connect isHook Attributes fd address addressLen).exec handle s
    ∃ first,
      ((∀ A, Attributes = some A → ¬ Awaits isHook A first) →
        o.calls = [(.connect fd, first)] ∧ o.result = ⟨first.value, first.errno, Attributes⟩) ∧
      ∀ A, Attributes = some A → Awaits isHook A first →
        ∃ as last, Answered 5 as last ∧
          ((last.revents &&& POLLOUT ≠ 0 ∧ ∃ v,
              o.calls = (.connect fd, first) :: polled fd 2000 (as ++ [last]) ++ [(.getsockopt fd, v)] ∧
              o.result = v.verdict (A.withAddr address addressLen)) ∨
            (last.revents &&& POLLOUT = 0 ∧ as.length = 4 ∧
              o.calls = (.connect fd, first) :: polled fd 2000 (as ++ [last]) ∧
              o.result = ⟨first.value, ETIMEDOUT, some (A.withAddr address addressLen)⟩)) := by
  intro o
  obtain ⟨first, s', h⟩ : ∃ first s', handle s (.connect fd) = (first, s') := ⟨_, _, rfl⟩
  refine ⟨first, ?_, ?_⟩
  · intro hnot
    have ho : o = _ := connect_plain address addressLen h hnot
    rw [ho]
    exact ⟨rfl, rfl⟩
  · intro A hA hawaits
    obtain ⟨as, last, hanswered, hcalls, hrevents, hinterval⟩ :=
      connectLoop_spec handle fd 4 ⟨2000, 0, first.errno⟩ s'
    refine ⟨as, last, hanswered, ?_⟩
    generalize hloop : (connectLoop fd (4 + 1) ⟨2000, 0, first.errno⟩).exec handle s' = loop
      at hcalls hrevents hinterval
    by_cases hout : last.revents &&& POLLOUT = 0
    · -- no poll has said that the socket is writable, so there were five
      have hquiet : ¬ last.Writable := fun hw => hw.2 hout
      have hall : as.length = 4 := by
        rcases hanswered.ends with hw | hlen
        · exact absurd hw hquiet
        · omega
      have hmore : loop.result.RetransmissionInterval ≠ 2000 := by
        rw [hinterval hquiet]
        show (2000 : Int) * 2 ^ 5 ≠ 2000
        decide
      have hnone : loop.result.revents &&& POLLOUT = 0 := by
        rw [hrevents]
        exact hout
      have ho := connect_awaits address addressLen h hawaits hloop
        (connectEnd_timeout first.value _ hnone hmore)
      rw [← hA, hcalls, List.append_nil] at ho
      right
      refine ⟨hout, hall, ?_⟩
      rw [show o = _ from ho]
      exact ⟨rfl, rfl⟩
    -- the last poll has: the verdict is that of getsockopt
    · have hsome : loop.result.revents &&& POLLOUT ≠ 0 := by
        rw [hrevents]
        exact hout
      have ho := connect_awaits address addressLen h hawaits hloop
        (connectEnd_asks first.value _ rfl hsome)
      rw [← hA, hcalls] at ho
      left
      refine ⟨hout, (handle loop.final (.getsockopt fd)).1, ?_⟩
      rw [show o = _ from ho]
      exact ⟨rfl, rfl⟩

/-- **The table** afterwards has the attributes that `connect` leaves. -/
theorem connect_entries {isHook : Bool} {E : Entries} {s s' : σ} {first : ConnectAnswer}
    (address : BitVec 128) (addressLen : Nat) (ready : Nat → Bool)
    (h : handle s (.connect fd) = (first, s')) (hfd : -1 ≤ fd ∧ fd < AttributesLength) :
    ((Table.mk E []).connect isHook fd address addressLen
        (decide (first.value < 0 ∧ first.errno = EINPROGRESS)) ready).entries fd =
      ((connect isHook (E fd) fd address addressLen).exec handle s).result.Attributes := by
  have hlooked : (((Table.mk E []).note [.system]).getFdAttributesByFd fd) =
      (⟨E, [.system, .index fd]⟩, E fd) := by
    unfold Table.getFdAttributesByFd
    rw [if_pos hfd]
    rfl
  unfold Table.connect
  rw [hlooked]
  by_cases hawaits : ∃ A, E fd = some A ∧ Awaits isHook A first
  · obtain ⟨A, hA, hwaits⟩ := hawaits
    rw [hA, connect_awaits address addressLen h hwaits rfl rfl]
    show _ = ((connectEnd fd first.value _ _).exec handle _).result.Attributes
    rw [connectEnd_attributes, if_pos hwaits.1]
    simp only [if_neg hwaits.2.1, decide_eq_true hwaits.2.2]
    unfold FdAttributes.withAddr
    by_cases hfits : addressLen ≤ 16
    · rw [if_pos hfits, if_pos hfits]
      exact Function.update_self fd _ _
    · rw [if_neg hfits, if_neg hfits]
      exact hA
  · have hnot : ∀ A, E fd = some A → ¬ Awaits isHook A first :=
      fun A hA hwaits => hawaits ⟨A, hA, hwaits⟩
    rw [connect_plain address addressLen h hnot]
    show _ = E fd
    by_cases hhook : isHook = true
    · rw [if_pos hhook]
      cases hA : E fd with
      | none => exact hA
      | some A =>
          by_cases hflag : NonBlock A.fdFlag
          · simp only [if_pos hflag]
            exact hA
          · have hdone : ¬ (first.value < 0 ∧ first.errno = EINPROGRESS) :=
              fun hprogress => hnot A hA ⟨hhook, hflag, hprogress⟩
            simp only [if_neg hflag, decide_eq_false hdone]
            exact hA
    · rw [if_neg hhook]
      rfl

/-! ## §3. On a network that decides the handshake. -/

/-- A network with a clock in milliseconds: the handshake is decided at some time, if ever, with an error
or with 0.  A hooked `poll` ends when it is, or else behind its timeout, and up to `late` too late. -/
structure Network (σ : Type) where
  handle : σ → ConnectCall → ConnectAnswer × σ
  clock : σ → Nat
  decided : Option (Nat × Errno)
  late : Nat
  /-- The handshake is not decided when the `poll` ends. -/
  quiet : ∀ s fd (t : Nat) r, handle s (.poll (pollEvent fd) t) = r →
    (∀ T e, decided = some (T, e) → clock r.2 < T) →
    r.1.value = 0 ∧ r.1.revents = 0 ∧ clock s + t ≤ clock r.2 ∧ clock r.2 ≤ clock s + t + late
  /-- It is: the socket is writable. -/
  settled : ∀ s fd (t : Nat) r T e, handle s (.poll (pollEvent fd) t) = r → decided = some (T, e) →
    T ≤ clock r.2 →
    r.1.value = 1 ∧ r.1.revents &&& POLLOUT ≠ 0 ∧ clock r.2 ≤ max T (clock s) + late ∧
      clock r.2 ≤ clock s + t + late
  /-- `SO_ERROR`. -/
  asked : ∀ s fd T e, decided = some (T, e) → T ≤ clock s →
    (handle s (.getsockopt fd)).1.value = 0 ∧ (handle s (.getsockopt fd)).1.err = e ∧
      clock (handle s (.getsockopt fd)).2 = clock s

namespace Network

variable (N : Network σ)

/-- The handshake is not decided yet. -/
def Open (s : σ) : Prop := ∀ T e, N.decided = some (T, e) → N.clock s < T

/-- Behind `turns` turns, from the interval `t` on: the handshake was decided in one of them, or in none and
all of them have passed. -/
def Looped (turns t : Nat) (s : σ) (x : Retry) (s' : σ) : Prop :=
  (∃ T e, N.decided = some (T, e) ∧ T ≤ N.clock s' ∧ x.revents &&& POLLOUT ≠ 0 ∧
    N.clock s' ≤ max T (N.clock s) + N.late) ∨
  (N.Open s' ∧ x.revents &&& POLLOUT = 0 ∧ x.RetransmissionInterval = (t * 2 ^ turns : Nat) ∧
    N.clock s + t * (2 ^ turns - 1) ≤ N.clock s')

/-- A `poll` of the loop. -/
theorem poll_cases {s s' : σ} {res : ConnectAnswer} {t : Nat}
    (h : N.handle s (.poll (pollEvent fd) t) = (res, s')) :
    (res.Writable ∧ ∃ T e, N.decided = some (T, e) ∧ T ≤ N.clock s' ∧
      N.clock s' ≤ max T (N.clock s) + N.late ∧ N.clock s' ≤ N.clock s + t + N.late) ∨
    (¬ res.Writable ∧ res.revents = 0 ∧ N.Open s' ∧ N.clock s + t ≤ N.clock s' ∧
      N.clock s' ≤ N.clock s + t + N.late) := by
  by_cases hopen : N.Open s'
  · right
    obtain ⟨hvalue, hrevents, hlo, hhi⟩ := N.quiet s fd t (res, s') h hopen
    refine ⟨?_, hrevents, hopen, hlo, hhi⟩
    rintro ⟨hone, -⟩
    rw [hvalue] at hone
    cases hone
  · left
    unfold Open at hopen
    push Not at hopen
    obtain ⟨T, e, hdecided, hT⟩ := hopen
    obtain ⟨hvalue, hrevents, hsoon, hhi⟩ := N.settled s fd t (res, s') T e h hdecided hT
    exact ⟨⟨hvalue.symm, hrevents⟩, T, e, hdecided, hT, hsoon, hhi⟩

/-- All the timeouts together. -/
theorem timeouts_succ (t turns : Nat) :
    t * (2 ^ (turns + 1) - 1) = t + t * 2 * (2 ^ turns - 1) := by
  obtain ⟨k, hk⟩ : ∃ k, 2 ^ turns = k + 1 := ⟨2 ^ turns - 1, by have := Nat.two_pow_pos turns; omega⟩
  have hdouble : 2 ^ (turns + 1) - 1 = 2 * k + 1 := by
    rw [Nat.pow_succ, hk]
    omega
  rw [hdouble, hk, Nat.add_sub_cancel]
  ring

/-- **The loop** passes all its turns, or ends soon behind the decision. -/
theorem loop_spec (fd : Int) : ∀ (turns t : Nat) (x : Retry) (s : σ),
    x.RetransmissionInterval = t → (turns = 0 → N.Open s ∧ x.revents &&& POLLOUT = 0) →
    N.Looped turns t s ((connectLoop fd turns x).exec N.handle s).result
        ((connectLoop fd turns x).exec N.handle s).final ∧
      N.clock ((connectLoop fd turns x).exec N.handle s).final ≤
        N.clock s + t * (2 ^ turns - 1) + turns * N.late := by
  intro turns
  induction turns with
  -- no turns left: still undecided, and the interval is what it was
  | zero =>
      intro t x s hx hstart
      obtain ⟨hopen, hnone⟩ := hstart rfl
      refine ⟨Or.inr ⟨hopen, hnone, ?_, ?_⟩, ?_⟩
      · show x.RetransmissionInterval = (t * 1 : Nat)
        rw [hx, Nat.mul_one]
      · show N.clock s + t * 0 ≤ N.clock s
        omega
      · show N.clock s ≤ _
        omega
  | succ turns ih =>
      intro t x s hx _
      obtain ⟨res, s', h⟩ : ∃ res s', N.handle s (.poll (pollEvent fd) t) = (res, s') := ⟨_, _, rfl⟩
      have hcall := h
      rw [← hx] at hcall
      rw [timeouts_succ, Nat.succ_mul]
      rcases N.poll_cases h with ⟨hw, T, e, hdecided, hT, hsoon, hhi⟩ | ⟨hw, hnone, hopen, hlo, hhi⟩
      · rw [connectLoop_stop turns x hcall hw]
        refine ⟨Or.inl ⟨T, e, hdecided, hT, hw.2, hsoon⟩, ?_⟩
        show N.clock s' ≤ _
        omega
      · rw [connectLoop_go turns x hcall hw]
        have hnext : x.RetransmissionInterval * 2 = (t * 2 : Nat) := by
          rw [hx]
          omega
        have hquiet : res.revents &&& POLLOUT = 0 := by
          rw [hnone]
          rfl
        obtain ⟨hlooped, hclock⟩ := ih (t * 2) ⟨x.RetransmissionInterval * 2, res.revents, res.errno⟩ s'
          hnext fun _ => ⟨hopen, hquiet⟩
        generalize (connectLoop fd turns
          ⟨x.RetransmissionInterval * 2, res.revents, res.errno⟩).exec N.handle s' = o at hlooped hclock
        refine ⟨?_, ?_⟩
        · rcases hlooped with ⟨T, e, hdecided, hT, hout, hsoon⟩ | ⟨hopen', hout, hinterval, hpast⟩
          · -- the decision came behind this turn
            have hlater := hopen T e hdecided
            refine Or.inl ⟨T, e, hdecided, hT, hout, ?_⟩
            show N.clock o.final ≤ max T (N.clock s) + N.late
            omega
          · refine Or.inr ⟨hopen', hout, ?_, ?_⟩
            · show o.result.RetransmissionInterval = _
              rw [hinterval, Nat.mul_assoc, ← Nat.pow_succ']
            · rw [timeouts_succ]
              show _ ≤ N.clock o.final
              omega
        · show N.clock o.final ≤ _
          omega

end Network

/-- The verdict on a decided handshake. -/
theorem verdict_decided {v : ConnectAnswer} (A : FdAttributes) (hvalue : v.value = 0) :
    (v.verdict A).ret = (if v.err = 0 then 0 else -1) ∧ (v.verdict A).errno = v.err := by
  unfold ConnectAnswer.verdict
  rw [if_neg (by omega : ¬ v.value < 0)]
  by_cases herr : v.err = 0
  · rw [if_neg (not_not.mpr herr), if_pos herr]
    exact ⟨rfl, herr.symm⟩
  · rw [if_pos herr, if_neg herr]
    exact ⟨rfl, rfl⟩

/-- **The hooked `connect` is one that blocks for 62 seconds at most**, as long as the network's polls are
punctual up to `late`: of a handshake that is decided within 62 seconds it returns how it went, at most `late`
behind the decision; and if it is decided later than 62 seconds and five times `late`, or never, it fails
with `ETIMEDOUT`, and not before.  Between the two it depends on how late the polls are. -/
theorem connect_blocks (N : Network σ) {A : FdAttributes} {first : ConnectAnswer} {s s' : σ}
    (address : BitVec 128) (addressLen : Nat) (h : N.handle s (.connect fd) = (first, s'))
    (hawaits : Awaits true A first) :
    let o := (connect true (some A) fd address addressLen).exec N.handle s
    (∀ T e, N.decided = some (T, e) → T ≤ N.clock s' + 62000 →
      o.result.ret = (if e = 0 then 0 else -1) ∧ o.result.errno = e ∧
        N.clock o.final ≤ max T (N.clock s') + N.late) ∧
    ((∀ T e, N.decided = some (T, e) → N.clock s' + 62000 + 5 * N.late < T) →
      o.result.ret = first.value ∧ o.result.errno = ETIMEDOUT ∧
        N.clock s' + 62000 ≤ N.clock o.final ∧
        N.clock o.final ≤ N.clock s' + 62000 + 5 * N.late) := by
  intro o
  obtain ⟨hlooped, hclock⟩ := N.loop_spec fd 5 2000 ⟨2000, 0, first.errno⟩ s' rfl
    fun h0 => absurd h0 (by decide)
  generalize hloop : (connectLoop fd 5 ⟨2000, 0, first.errno⟩).exec N.handle s' = loop
    at hlooped hclock
  have hlatest : N.clock loop.final ≤ N.clock s' + 62000 + 5 * N.late := hclock
  rcases hlooped with ⟨T, e, hdecided, hT, hout, hsoon⟩ | ⟨hopen, hout, hinterval, hpast⟩
  -- a poll has seen the decision
  · obtain ⟨hvalue, herr, hnow⟩ := N.asked loop.final fd T e hdecided hT
    have ho : o = _ := connect_awaits address addressLen h hawaits hloop
      (connectEnd_asks first.value _ rfl hout)
    obtain ⟨hret, herrno⟩ := verdict_decided (A.withAddr address addressLen) hvalue
    rw [herr] at hret herrno
    rw [ho]
    refine ⟨?_, ?_⟩
    · intro T' e' hdecided' _
      rw [hdecided] at hdecided'
      obtain ⟨hTeq, heeq⟩ := Prod.mk.inj (Option.some.inj hdecided')
      rw [← hTeq, ← heeq]
      refine ⟨hret, herrno, ?_⟩
      show N.clock (N.handle loop.final (.getsockopt fd)).2 ≤ _
      rw [hnow]
      exact hsoon
    · intro hnever
      have hlater := hnever T e hdecided
      omega
  · have hpast' : N.clock s' + 62000 ≤ N.clock loop.final := hpast
    have hmore : loop.result.RetransmissionInterval ≠ 2000 := by
      rw [hinterval]
      decide
    have ho : o = _ := connect_awaits address addressLen h hawaits hloop
      (connectEnd_timeout first.value _ hout hmore)
    rw [ho]
    refine ⟨?_, fun _ => ⟨rfl, rfl, hpast', hlatest⟩⟩
    intro T e hdecided hT
    -- five polls have timed out, so the decision is behind the last of them
    have hlater := hopen T e hdecided
    omega

/-! ### A handshake of seven seconds. -/

/-- The state of the network is the time. -/
def punctual (decided : Option (Nat × Errno)) : Nat → ConnectCall → ConnectAnswer × Nat
  | now, .connect _ => (⟨-1, EINPROGRESS, 0, 0⟩, now)
  | now, .poll _ timeout =>
      match decided with
      | none => (⟨0, 0, 0, 0⟩, now + timeout.toNat)
      | some (T, _) =>
          if T ≤ now + timeout.toNat then (⟨1, 0, POLLOUT, 0⟩, max T now)
          else (⟨0, 0, 0, 0⟩, now + timeout.toNat)
  | now, .getsockopt _ => (⟨0, 0, 0, (decided.map Prod.snd).getD 0⟩, now)

theorem punctual_poll (T : Nat) (e : Errno) (now : Nat) (event : Pollfd) (t : Nat) :
    punctual (some (T, e)) now (.poll event t) =
      if T ≤ now + t then (⟨1, 0, POLLOUT, 0⟩, max T now) else (⟨0, 0, 0, 0⟩, now + t) := rfl

def punctualNetwork (decided : Option (Nat × Errno)) : Network Nat where
  handle := punctual decided
  clock := id
  decided := decided
  late := 0
  quiet := by
    intro s fd t r hr hopen
    cases decided with
    | none =>
        rw [← hr]
        exact ⟨rfl, rfl, Nat.le_refl _, Nat.le_refl _⟩
    | some d =>
        have hlater := hopen d.1 d.2 rfl
        rw [punctual_poll d.1 d.2] at hr
        by_cases hin : d.1 ≤ s + t
        · rw [if_pos hin] at hr
          rw [← hr] at hlater
          exact absurd (Nat.le_max_left d.1 s) (Nat.not_le.mpr hlater)
        · rw [if_neg hin] at hr
          rw [← hr]
          exact ⟨rfl, rfl, Nat.le_refl _, Nat.le_refl _⟩
  settled := by
    intro s fd t r T e hr hdecided hT
    rw [hdecided, punctual_poll] at hr
    by_cases hin : T ≤ s + t
    · rw [if_pos hin] at hr
      rw [← hr]
      refine ⟨rfl, by show POLLOUT &&& POLLOUT ≠ 0; decide, Nat.le_refl _, ?_⟩
      show max T s ≤ s + t + 0
      omega
    · rw [if_neg hin] at hr
      rw [← hr] at hT
      exact absurd hT hin
  asked := by
    intro s fd T e hdecided _
    rw [hdecided]
    exact ⟨rfl, rfl, rfl⟩

/-- It is decided in the third `poll`, and `connect` returns then. -/
theorem connect_blocks_third :
    let o := (connect true (some .fresh) 5 0 16).exec (punctual (some (7000, 0))) 0
    o.result.ret = 0 ∧ o.result.errno = 0 ∧ o.final ≤ 7000 :=
  (connect_blocks (punctualNetwork (some (7000, 0))) 0 16 rfl
    ⟨rfl, by decide, by decide, rfl⟩).1 7000 0 rfl (by decide)

end RocketCo.Hook
