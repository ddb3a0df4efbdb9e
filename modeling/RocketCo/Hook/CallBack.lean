/-
  RocketCo.Hook.CallBack — the indices used on `Co_CallBack`.

  `Co_CallBack` has 256 entries and no function that indexes it looks at `Co_ESP` first:

      GetCurrCo   — entry `Co_ESP - 1`
      Co_yeild    — entries `Co_ESP - 2` and `Co_ESP - 1`, then one less
      Co_resume   — entries `Co_ESP - 1` and `Co_ESP`, then one more

  The main coroutine stands at entry 0.  `GetCurrentCoEntity` was written so that the main thread may
  call hooked functions, but it only helps as long as there is no environment: afterwards a hooked
  `poll` of the main coroutine goes the way of any other and ends in `Co_yeild` with `Co_ESP = 1`.

  A run is any sequence of resumes, yields and hooked calls; what the kernel and the time wheel answer
  is arbitrary.

  Main result: `callBack_in_range_iff`.
-/
import RocketCo.CoRoutine.Interest
import RocketCo.CoSwap.Switch
import RocketCo.Hook.Attributes
import RocketCo.Hook.PollMerge

namespace RocketCo.CallBack

open RocketCo.Lib
open RocketCo.CoRoutine (PollFd mergeFds toInt32)
open RocketCo.CoSwap (MaximumNumberOfCoroutinesAllowed ShortItemOptimization)
open RocketCo.Hook (FdAttributes NonBlock POLLIN POLLOUT POLLERR POLLHUP)

/-! ## §1. The environment of a thread. -/

abbrev Co := Nat

/-- The coroutine `init_thisThread_Env` puts at entry 0. -/
def mainCo : Co := 0

/-- A use of `Co_CallBack`, with `Co_ESP` at that moment. -/
inductive Access where
  | current (esp : Int)
  | yeild (esp : Int)
  | resume (esp : Int)
  deriving DecidableEq

def Access.indices : Access → List Int
  | .current esp => [esp - 1]
  | .yeild esp => [esp - 2, esp - 1]
  | .resume esp => [esp - 1, esp]

/-- The indices are those of entries; a yield has a coroutine to go back to, and a resume room. -/
def Access.InRange (x : Access) : Prop :=
  (∀ i ∈ x.indices, 0 ≤ i ∧ i < (MaximumNumberOfCoroutinesAllowed : Int)) ∧
    match x with
    | .current _ => True
    | .yeild esp => 2 ≤ esp
    | .resume esp => 1 ≤ esp ∧ esp ≤ 255

/-- A `write` in its loop, behind a `poll`. -/
structure Write where
  fd : Int
  nbyte : Nat
  wrotelen : Nat
  timeout : Int

/-- `Co_Rountinue_Env` as far as the call stack goes, the hook flags of the coroutines, and which of
them are inside `write`; `log` has the uses of `Co_CallBack` so far. -/
structure Env where
  Co_CallBack : Int → Co
  Co_ESP : Int
  IsHook : Co → Bool
  writing : Co → Option Write
  log : List Access

/-- What `Co_poll_inner` is told: whether `epoll_ctl` fails for an entry, and not with `EAGAIN`, and
what `AddTimeOut` returns. -/
structure Answers where
  refused : Nat → Bool
  ret : Int

/-! ## §2. The functions of the source. -/

namespace Env

/-- `init_thisThread_Env`. -/
def init : Env where
  Co_CallBack := fun _ => mainCo
  Co_ESP := 1
  IsHook := fun _ => false
  writing := fun _ => none
  log := []

/-- `GetCurrCo`. -/
def running (s : Env) : Co := s.Co_CallBack (s.Co_ESP - 1)

def note (s : Env) (xs : List Access) : Env := { s with log := s.log ++ xs }

def setWriting (s : Env) (w : Option Write) : Env :=
  { s with writing := Function.update s.writing s.running w }

def coYeild (s : Env) : Env := { s.note [.yeild s.Co_ESP] with Co_ESP := s.Co_ESP - 1 }

def coResume (s : Env) (co : Co) : Env :=
  { s.note [.resume s.Co_ESP] with
    Co_CallBack := Function.update s.Co_CallBack s.Co_ESP co
    Co_ESP := s.Co_ESP + 1 }

/-- `GetCurrentCoIsHook` looks the coroutine up twice. -/
def currentCoIsHook (s : Env) : Env × Bool :=
  (s.note [.current s.Co_ESP, .current s.Co_ESP], s.IsHook s.running)

/-- `co_enable_hook_sys`. -/
def enableHookSys (s : Env) : Env :=
  { s.note [.current s.Co_ESP] with IsHook := Function.update s.IsHook s.running true }

/-- The registration loop of `Co_poll_inner` from entry `i` on: how many turns it takes, and whether it
ends in `pollfunc`.  What it does to the interest set is in `CoRoutine.registerFds`. -/
def registerFds (nfds : Nat) (refused : Nat → Bool) : Nat → List PollFd → Nat × Bool
  | _, [] => (0, false)
  | i, p :: fds =>
      -- `pollfunc` is the system's `poll`, which is not null
      if -1 < p.fd ∧ refused i = true ∧ nfds ≤ ShortItemOptimization then (1, true)
      else
        let r := registerFds nfds refused (i + 1) fds
        (r.1 + 1, r.2)

/-- `Co_poll_inner` looks the coroutine up twice, and once more for every entry it registers. -/
def coPollInner (s : Env) (fds : List PollFd) (e : Answers) : Env :=
  let r := registerFds fds.length e.refused 0 fds
  let s := s.note (List.replicate (r.1 + 2) (.current s.Co_ESP))
  if r.2 = true then s
  else if e.ret ≠ 0 then s
  else s.coYeild

/-- The hooked `poll`. -/
def poll (s : Env) (fds : List PollFd) (timeout : Int) (e : Answers) : Env :=
  let r := s.currentCoIsHook
  if r.2 = false ∨ timeout = 0 then r.1 else r.1.coPollInner (mergeFds fds) e

/-- The hooked `read`; `attributes` is what `GetFdAttributesByFd` returns. -/
def read (s : Env) (fd : Int) (attributes : Option FdAttributes) (e : Answers) : Env :=
  let r := s.currentCoIsHook
  if r.2 = false then r.1
  else
    match attributes with
    | none => r.1
    | some a =>
        -- one `poll`, whatever it returns, and then the system's `read`
        if NonBlock a.fdFlag then r.1
        else r.1.poll [⟨fd, POLLIN ||| POLLERR ||| POLLHUP⟩] (toInt32 a.read_timeout) e

/-- The loop of the hooked `write`, up to the end of its next `poll`. -/
def writeLoop (s : Env) (w : Write) (e : Answers) : Env :=
  if w.wrotelen < w.nbyte then
    (s.setWriting (some w)).poll [⟨w.fd, POLLOUT ||| POLLERR ||| POLLHUP⟩] w.timeout e
  else s.setWriting none

/-- The hooked `write` up to its first `poll`; `ret` is what the system's `write` returns. -/
def write (s : Env) (fd : Int) (nbyte : Nat) (attributes : Option FdAttributes) (ret : Int)
    (e : Answers) : Env :=
  let r := s.currentCoIsHook
  if r.2 = false then r.1
  else
    -- unlike `read`, it makes the attributes it does not find
    let a := attributes.getD .fresh
    if NonBlock a.fdFlag then r.1
    else if ret ≤ 0 then r.1
    else r.1.writeLoop ⟨fd, nbyte, ret.toNat, toInt32 a.wirte_timeout⟩ e

/-- ... and from one `poll` to the next. -/
def written (s : Env) (w : Write) (ret : Int) (e : Answers) : Env :=
  if ret ≤ 0 then s.setWriting none
  else s.writeLoop { w with wrotelen := w.wrotelen + ret.toNat } e

/-- `ConditionVariableWait`; `ret` is what `AddTimeOut` returns. -/
def conditionVariableWait (s : Env) (timeOut ret : Int) : Env :=
  let s := s.note [.current s.Co_ESP]
  if 0 < timeOut ∧ ret ≠ 0 then s else s.coYeild

end Env

/-! ## §3. Runs. -/

/-- What the running coroutine does next. -/
inductive Action where
  | enableHook
  | resume (co : Co)
  | yeild
  /-- The end of `Co_realRunningFun`. -/
  | finish
  | poll (fds : List PollFd) (timeout : Int) (e : Answers)
  | read (fd : Int) (attributes : Option FdAttributes) (e : Answers)
  | write (fd : Int) (nbyte : Nat) (attributes : Option FdAttributes) (ret : Int) (e : Answers)
  /-- The system's `write` behind a `poll` of the hooked one returns `ret`. -/
  | written (ret : Int) (e : Answers)
  | wait (timeOut ret : Int)

namespace Env

/-- A coroutine inside `write` stays there, and the main one never ends in `Co_realRunningFun`. -/
def Allowed (s : Env) : Action → Prop
  | .written _ _ => s.writing s.running ≠ none
  | .finish => s.writing s.running = none ∧ s.running ≠ mainCo
  | _ => s.writing s.running = none

def step (s : Env) : Action → Env
  | .enableHook => s.enableHookSys
  | .resume co => s.coResume co
  | .yeild => s.coYeild
  | .finish => s.coYeild
  | .poll fds timeout e => s.poll fds timeout e
  | .read fd attributes e => s.read fd attributes e
  | .write fd nbyte attributes ret e => s.write fd nbyte attributes ret e
  | .written ret e =>
      match s.writing s.running with
      | none => s
      | some w => s.written w ret e
  | .wait timeOut ret => s.conditionVariableWait timeOut ret

def Step (s : Env) (a : Action) (t : Env) : Prop := s.Allowed a ∧ t = s.step a

/-- Every use of `Co_CallBack` so far was in range. -/
def InRange (s : Env) : Prop := ∀ x ∈ s.log, x.InRange

end Env

/-! ## §4. Which calls suspend. -/

/-- A registration fails and the call is short enough to be left to the system's `poll`. -/
def FallsBack (fds : List PollFd) (refused : Nat → Bool) : Prop :=
  fds.length ≤ ShortItemOptimization ∧
    ∃ i p, fds[i]? = some p ∧ -1 < p.fd ∧ refused i = true

namespace Env

/-- The hooked `poll` gets to `Co_yeild`: the caller is hooked, the call is to block, it does not fall
back, and the time wheel takes the deadline. -/
def PollSuspends (s : Env) (fds : List PollFd) (timeout : Int) (e : Answers) : Prop :=
  s.IsHook s.running = true ∧ timeout ≠ 0 ∧ ¬ FallsBack (mergeFds fds) e.refused ∧ e.ret = 0

/-- `write` has bytes left and its `poll` suspends. -/
def WriteSuspends (s : Env) (w : Write) (e : Answers) : Prop :=
  w.wrotelen < w.nbyte ∧
    s.PollSuspends [⟨w.fd, POLLOUT ||| POLLERR ||| POLLHUP⟩] w.timeout e

/-- The call gets to `Co_yeild`. -/
def Suspends (s : Env) : Action → Prop
  | .enableHook => False
  | .resume _ => False
  | .yeild => True
  | .finish => True
  | .poll fds timeout e => s.PollSuspends fds timeout e
  | .read fd attributes e => ∃ a, attributes = some a ∧ ¬ NonBlock a.fdFlag ∧
      s.PollSuspends [⟨fd, POLLIN ||| POLLERR ||| POLLHUP⟩] (toInt32 a.read_timeout) e
  | .write fd nbyte attributes ret e =>
      ¬ NonBlock (attributes.getD .fresh).fdFlag ∧ 0 < ret ∧
        s.WriteSuspends ⟨fd, nbyte, ret.toNat,
          toInt32 (attributes.getD .fresh).wirte_timeout⟩ e
  | .written ret e => ∃ w, s.writing s.running = some w ∧ 0 < ret ∧
      s.WriteSuspends { w with wrotelen := w.wrotelen + ret.toNat } e
  | .wait timeOut ret => ¬ (0 < timeOut ∧ ret ≠ 0)

/-- A resume finds a free entry, and where the main coroutine is alone on the stack none of its calls
gets to `Co_yeild`. -/
def Fits (s : Env) : Action → Prop
  | .resume _ => s.Co_ESP < (MaximumNumberOfCoroutinesAllowed : Int)
  | .finish => True
  | a => s.Co_ESP = 1 → ¬ s.Suspends a

/-- The stack is as it was, and the coroutine on it was looked up a number of times. -/
def Looked (s t : Env) : Prop :=
  t.Co_CallBack = s.Co_CallBack ∧ t.Co_ESP = s.Co_ESP ∧ t.IsHook = s.IsHook ∧
    ∃ k, t.log = s.log ++ List.replicate k (.current s.Co_ESP)

variable {s t u : Env} {fds : List PollFd} {timeout : Int} {e : Answers} {a : Action}

theorem Looked.refl (s : Env) : Looked s s := ⟨rfl, rfl, rfl, 0, (List.append_nil _).symm⟩

/-- Looks add up. -/
theorem Looked.trans (h : Looked s t) (h' : Looked t u) : Looked s u := by
  obtain ⟨hcb, hesp, hhook, k, hlog⟩ := h
  obtain ⟨hcb', hesp', hhook', k', hlog'⟩ := h'
  refine ⟨hcb'.trans hcb, hesp'.trans hesp, hhook'.trans hhook, k + k', ?_⟩
  rw [hlog', hlog, hesp, List.append_assoc, List.replicate_append_replicate]

/-- The coroutine that runs is the same ... -/
theorem Looked.running (h : Looked s t) : t.running = s.running := by
  unfold Env.running
  rw [h.1, h.2.1]

/-- ... and its `poll` would suspend it or not as before. -/
theorem Looked.pollSuspends (h : Looked s t) :
    t.PollSuspends fds timeout e ↔ s.PollSuspends fds timeout e := by
  unfold PollSuspends
  rw [h.running, h.2.2.1]

theorem looked_currentCoIsHook (s : Env) : Looked s s.currentCoIsHook.1 := ⟨rfl, rfl, rfl, 2, rfl⟩

theorem looked_setWriting (s : Env) (w : Option Write) : Looked s (s.setWriting w) :=
  ⟨rfl, rfl, rfl, 0, (List.append_nil _).symm⟩

/-- The registration loop ends in `pollfunc` for a refused entry of a short call. -/
theorem registerFds_snd {nfds : Nat} {refused : Nat → Bool} : ∀ {fds : List PollFd} {i : Nat},
    (registerFds nfds refused i fds).2 = true ↔ nfds ≤ ShortItemOptimization ∧
      ∃ j p, fds[j]? = some p ∧ -1 < p.fd ∧ refused (i + j) = true := by
  intro fds
  induction fds with
  | nil =>
      intro i
      simp [registerFds]
  | cons p fds ih =>
      intro i
      unfold registerFds
      by_cases hp : -1 < p.fd ∧ refused i = true ∧ nfds ≤ ShortItemOptimization
      · rw [if_pos hp]
        exact iff_of_true rfl ⟨hp.2.2, 0, p, rfl, hp.1, hp.2.1⟩
      · rw [if_neg hp]
        show (registerFds nfds refused (i + 1) fds).2 = true ↔ _
        rw [ih]
        constructor
        · intro ⟨hn, j, q, hq, hfd, hr⟩
          refine ⟨hn, j + 1, q, hq, hfd, ?_⟩
          rw [show i + (j + 1) = i + 1 + j by omega]
          exact hr
        · intro ⟨hn, j, q, hq, hfd, hr⟩
          cases j with
          | zero =>
              have hpq : p = q := by simpa using hq
              rw [← hpq] at hfd
              exact absurd ⟨hfd, hr, hn⟩ hp
          | succ j =>
              refine ⟨hn, j, q, by simpa using hq, hfd, ?_⟩
              rw [show i + 1 + j = i + (j + 1) by omega]
              exact hr

/-- **The loop of `CoRoutine.registerFds`**, which has the interest set in it, ends in `pollfunc` exactly
where this one does, when an entry counts as refused if its ADD fails. -/
theorem registerFds_interest (P : CoRoutine.Polls) {fault : Nat → Option CoRoutine.Errno}
    {refused : Nat → Bool} (h : ∀ i, refused i = true ↔ P.AddFails fds fault i) :
    (registerFds fds.length refused 0 fds).2 =
      (CoRoutine.registerFds P.next fds.length true fault 0 fds P.interest).1 := by
  rw [Bool.eq_iff_iff, registerFds_snd, CoRoutine.fallsBack_iff, CoRoutine.exists_fallsBack_iff]
  constructor
  · rintro ⟨hlen, j, p, -, -, hr⟩
    rw [Nat.zero_add] at hr
    exact ⟨⟨hlen, rfl⟩, j, (h j).mp hr⟩
  · rintro ⟨⟨hlen, -⟩, j, hfails⟩
    have hr := (h j).mpr hfails
    obtain ⟨p, hp, hfd, -⟩ := hfails
    refine ⟨hlen, j, p, hp, hfd, ?_⟩
    rw [Nat.zero_add]
    exact hr

/-- What a call does to the stack: it looks the coroutine up, and suspends it when it gets that far. -/
def Leads (s t : Env) (suspends : Prop) : Prop :=
  (¬ suspends ∧ Looked s t) ∨ (suspends ∧ ∃ u, Looked s u ∧ t = u.coYeild)

/-- A look before does not matter. -/
theorem Leads.after {suspends : Prop} (h : Looked s u) (ht : Leads u t suspends) :
    Leads s t suspends := by
  rcases ht with ⟨hno, hlooked⟩ | ⟨hyes, v, hlooked, heq⟩
  · exact Or.inl ⟨hno, h.trans hlooked⟩
  · exact Or.inr ⟨hyes, v, h.trans hlooked, heq⟩

/-- The condition may be put in other words. -/
theorem Leads.iff {p q : Prop} (h : Leads s t p) (hpq : p ↔ q) : Leads s t q := by
  rw [← propext hpq]
  exact h

/-- Without a suspension there was only a look. -/
theorem Leads.not {suspends : Prop} (h : Looked s t) (hno : ¬ suspends) : Leads s t suspends :=
  Or.inl ⟨hno, h⟩

/-- A call that only suspends a hooked coroutine, made by another one. -/
theorem Leads.unhooked {suspends : Prop} (hhook : s.IsHook s.running = false)
    (hneeds : suspends → s.IsHook s.running = true) :
    Leads s s.currentCoIsHook.1 suspends := by
  apply Leads.not (looked_currentCoIsHook s)
  intro hyes
  have htrue := hneeds hyes
  rw [hhook] at htrue
  cases htrue

/-- **`Co_poll_inner`.** -/
theorem coPollInner_leads (s : Env) (fds : List PollFd) (e : Answers) :
    Leads s (s.coPollInner fds e) (¬ FallsBack fds e.refused ∧ e.ret = 0) := by
  have hback : (registerFds fds.length e.refused 0 fds).2 = true ↔ FallsBack fds e.refused := by
    rw [registerFds_snd]
    simp only [Nat.zero_add]
    rfl
  have hlooked : Looked s (s.note (List.replicate
      ((registerFds fds.length e.refused 0 fds).1 + 2) (.current s.Co_ESP))) :=
    ⟨rfl, rfl, rfl, _, rfl⟩
  unfold coPollInner
  by_cases hfall : FallsBack fds e.refused
  · -- `pollfunc`
    simp only [hback.mpr hfall, if_true]
    exact Leads.not hlooked fun hand => hand.1 hfall
  · have hgo : ¬ (registerFds fds.length e.refused 0 fds).2 = true := fun hh => hfall (hback.mp hh)
    dsimp only
    rw [if_neg hgo]
    by_cases hret : e.ret = 0
    · rw [if_neg (not_not.mpr hret)]
      exact Or.inr ⟨⟨hfall, hret⟩, _, hlooked, rfl⟩
    · -- the wheel turned the deadline down
      rw [if_pos hret]
      exact Leads.not hlooked fun hand => hret hand.2

/-- **The hooked `poll`.** -/
theorem poll_leads (s : Env) (fds : List PollFd) (timeout : Int) (e : Answers) :
    Leads s (s.poll fds timeout e) (s.PollSuspends fds timeout e) := by
  have hlooked := looked_currentCoIsHook s
  unfold poll
  by_cases hplain : s.IsHook s.running = false ∨ timeout = 0
  · have hfirst : s.currentCoIsHook.2 = false ∨ timeout = 0 := hplain
    simp only [hfirst, if_true]
    cases hplain with
    | inl hno => exact Leads.unhooked hno fun hand => hand.1
    | inr hzero => exact Leads.not hlooked fun hand => hand.2.1 hzero
  · have hfirst : ¬ (s.currentCoIsHook.2 = false ∨ timeout = 0) := hplain
    obtain ⟨hhook, htime⟩ := not_or.mp hplain
    simp only [hfirst, if_false]
    have hinner := coPollInner_leads s.currentCoIsHook.1 (mergeFds fds) e
    refine (Leads.after hlooked hinner).iff ?_
    constructor
    · intro ⟨hfall, hret⟩
      exact ⟨by simpa using hhook, htime, hfall, hret⟩
    · intro ⟨_, _, hfall, hret⟩
      exact ⟨hfall, hret⟩

/-- **The loop of `write`.** -/
theorem writeLoop_leads (s : Env) (w : Write) (e : Answers) :
    Leads s (s.writeLoop w e) (s.WriteSuspends w e) := by
  unfold writeLoop
  by_cases hleft : w.wrotelen < w.nbyte
  · rw [if_pos hleft]
    have hlooked := looked_setWriting s (some w)
    refine (Leads.after hlooked (poll_leads _ _ w.timeout e)).iff ?_
    rw [hlooked.pollSuspends]
    exact (and_iff_right hleft).symm
  · rw [if_neg hleft]
    exact Or.inl ⟨fun hand => hleft hand.1, looked_setWriting s none⟩

/-- `read` suspends when its `poll` does. -/
theorem read_leads (s : Env) (fd : Int) (attributes : Option FdAttributes) (e : Answers) :
    Leads s (s.read fd attributes e) (s.Suspends (.read fd attributes e)) := by
  have hlooked := looked_currentCoIsHook s
  unfold read
  by_cases hhook : s.IsHook s.running = false
  · have hfirst : s.currentCoIsHook.2 = false := hhook
    simp only [hfirst, if_true]
    apply Leads.unhooked hhook
    intro ⟨_, _, _, hyes, _⟩
    exact hyes
  · have hfirst : ¬ s.currentCoIsHook.2 = false := hhook
    simp only [hfirst]
    cases attributes with
    | none =>
        apply Leads.not hlooked
        intro ⟨a, hnone, _⟩
        cases hnone
    | some a =>
        simp only
        by_cases hnb : NonBlock a.fdFlag
        · rw [if_pos hnb]
          apply Leads.not hlooked
          intro ⟨b, hb, hblock, _⟩
          rw [← Option.some.inj hb] at hblock
          exact hblock hnb
        · rw [if_neg hnb]
          refine (Leads.after hlooked (poll_leads _ _ (toInt32 a.read_timeout) e)).iff ?_
          rw [hlooked.pollSuspends]
          constructor
          · exact fun hpoll => ⟨a, rfl, hnb, hpoll⟩
          · intro ⟨b, hb, _, hpoll⟩
            rw [Option.some.inj hb]
            exact hpoll

/-- `write` suspends when the first result leaves a rest and `poll` suspends ... -/
theorem write_leads (s : Env) (fd : Int) (nbyte : Nat) (attributes : Option FdAttributes)
    (ret : Int) (e : Answers) :
    Leads s (s.write fd nbyte attributes ret e)
      (s.Suspends (.write fd nbyte attributes ret e)) := by
  have hlooked := looked_currentCoIsHook s
  unfold write
  by_cases hhook : s.IsHook s.running = false
  · have hfirst : s.currentCoIsHook.2 = false := hhook
    simp only [hfirst, if_true]
    apply Leads.unhooked hhook
    intro ⟨_, _, _, hyes, _⟩
    exact hyes
  · have hfirst : ¬ s.currentCoIsHook.2 = false := hhook
    simp only [hfirst]
    by_cases hnb : NonBlock (attributes.getD .fresh).fdFlag
    · rw [if_pos hnb]
      exact Leads.not hlooked fun hand => hand.1 hnb
    · rw [if_neg hnb]
      by_cases hret : ret ≤ 0
      · rw [if_pos hret]
        apply Leads.not hlooked
        intro ⟨_, hpos, _⟩
        omega
      · rw [if_neg hret]
        refine (Leads.after hlooked (writeLoop_leads _ _ e)).iff ?_
        unfold WriteSuspends
        rw [hlooked.pollSuspends]
        constructor
        · exact fun hloop => ⟨hnb, by omega, hloop⟩
        · exact fun hand => hand.2.2

/-- ... and so does its loop behind a later `write`. -/
theorem written_leads {w : Write} (hw : s.writing s.running = some w) (ret : Int) (e : Answers) :
    Leads s (s.written w ret e) (s.Suspends (.written ret e)) := by
  unfold written
  by_cases hret : ret ≤ 0
  · rw [if_pos hret]
    apply Leads.not (looked_setWriting s none)
    intro ⟨_, _, hpos, _⟩
    omega
  · rw [if_neg hret]
    refine (writeLoop_leads s _ e).iff ?_
    constructor
    · exact fun hloop => ⟨w, hw, by omega, hloop⟩
    · intro ⟨v, hv, _, hloop⟩
      rw [hw] at hv
      rw [Option.some.inj hv]
      exact hloop

/-! ## §5. What a step does to the stack. -/

/-- A step leaves the stack as it is, goes one coroutine back, or is a resume; before that it looks the
running coroutine up `k` times. -/
inductive Moves (s : Env) (a : Action) (t : Env) : Prop
  | stays (k : Nat) (hno : ¬ s.Suspends a) (hcall : ∀ co, a ≠ .resume co)
      (hcb : t.Co_CallBack = s.Co_CallBack) (hesp : t.Co_ESP = s.Co_ESP)
      (hlog : t.log = s.log ++ List.replicate k (.current s.Co_ESP))
  | yeilds (k : Nat) (hyes : s.Suspends a)
      (hcb : t.Co_CallBack = s.Co_CallBack) (hesp : t.Co_ESP = s.Co_ESP - 1)
      (hlog : t.log = s.log ++ List.replicate k (.current s.Co_ESP) ++ [.yeild s.Co_ESP])
  | resumes (co : Co) (ha : a = .resume co) (ht : t = s.coResume co)

/-- Calls but `Co_resume` move along the array as `Moves` says. -/
theorem Leads.moves (h : Leads s t (s.Suspends a)) (hcall : ∀ co, a ≠ .resume co) :
    Moves s a t := by
  rcases h with ⟨hno, hcb, hesp, _, k, hlog⟩ | ⟨hyes, u, ⟨hcb, hesp, _, k, hlog⟩, ht⟩
  · exact .stays k hno hcall hcb hesp hlog
  · rw [ht]
    refine .yeilds k hyes hcb ?_ ?_
    · show u.Co_ESP - 1 = s.Co_ESP - 1
      rw [hesp]
    · show u.log ++ [.yeild u.Co_ESP] = _
      rw [hesp, hlog]

/-- **What a step can do.** -/
theorem Step.moves (h : s.Step a t) : Moves s a t := by
  obtain ⟨hok, ht⟩ := h
  rw [ht]
  have hsame := Looked.refl s
  cases a with
  | enableHook => exact .stays 1 id (by simp) rfl rfl rfl
  | resume co => exact .resumes co rfl rfl
  | yeild => exact Leads.moves (Or.inr ⟨trivial, s, hsame, rfl⟩) (by simp)
  | finish => exact Leads.moves (Or.inr ⟨trivial, s, hsame, rfl⟩) (by simp)
  | poll fds timeout e => exact (poll_leads s fds timeout e).moves (by simp)
  | read fd attributes e => exact (read_leads s fd attributes e).moves (by simp)
  | write fd nbyte attributes ret e =>
      exact (write_leads s fd nbyte attributes ret e).moves (by simp)
  | written ret e =>
      cases hw : s.writing s.running with
      | none => exact absurd hw hok
      | some w =>
          have hstep : s.step (.written ret e) = s.written w ret e := by
            simp only [step, hw]
          rw [hstep]
          exact (written_leads hw ret e).moves (by simp)
  | wait timeOut ret =>
      have hlooked : Looked s (s.note [.current s.Co_ESP]) := ⟨rfl, rfl, rfl, 1, rfl⟩
      show Moves s (.wait timeOut ret) (s.conditionVariableWait timeOut ret)
      unfold conditionVariableWait
      by_cases hdown : 0 < timeOut ∧ ret ≠ 0
      · simp only [hdown, ne_eq, not_false_eq_true, and_self, if_true]
        exact Leads.moves (Leads.not hlooked fun hand => hand hdown) (by simp)
      · simp only [hdown, if_false]
        exact Leads.moves (Or.inr ⟨hdown, _, hlooked, rfl⟩) (by simp)

/-! ## §6. The bounds. -/

/-- As long as every use was in range, the main coroutine is at entry 0 and `Co_ESP` within the array. -/
def Bounded (s : Env) : Prop :=
  s.InRange → s.Co_CallBack 0 = mainCo ∧ 1 ≤ s.Co_ESP ∧ s.Co_ESP ≤ 256

/-- The main coroutine is in the array. -/
theorem Bounded.init : Bounded init := by
  intro _
  exact ⟨rfl, by decide, by decide⟩

/-- The accesses of a call are tested by themselves. -/
theorem inRange_append {xs : List Access} (hlog : t.log = s.log ++ xs) :
    t.InRange ↔ s.InRange ∧ ∀ x ∈ xs, x.InRange := by
  unfold InRange
  rw [hlog]
  exact List.forall_mem_append

theorem current_inRange {esp : Int} (h : 1 ≤ esp ∧ esp ≤ 256) : (Access.current esp).InRange := by
  simp only [Access.InRange, Access.indices, List.forall_mem_singleton,
    MaximumNumberOfCoroutinesAllowed, and_true]
  omega

/-- `Co_yeild` leaves the array when the main coroutine calls it, ... -/
theorem yeild_inRange {esp : Int} (h : 1 ≤ esp ∧ esp ≤ 256) :
    (Access.yeild esp).InRange ↔ esp ≠ 1 := by
  simp only [Access.InRange, Access.indices, List.mem_cons, List.not_mem_nil, or_false,
    forall_eq_or_imp, forall_eq, MaximumNumberOfCoroutinesAllowed]
  omega

/-- ... and `Co_resume` when the array is full. -/
theorem resume_inRange {esp : Int} (h : 1 ≤ esp ∧ esp ≤ 256) :
    (Access.resume esp).InRange ↔ esp < 256 := by
  simp only [Access.InRange, Access.indices, List.mem_cons, List.not_mem_nil, or_false,
    forall_eq_or_imp, forall_eq, MaximumNumberOfCoroutinesAllowed]
  omega

/-- Looks at the current coroutine are in range, however many. -/
theorem replicate_inRange {k : Nat} {esp : Int} (h : 1 ≤ esp ∧ esp ≤ 256) :
    ∀ x ∈ List.replicate k (Access.current esp), x.InRange := by
  intro x hx
  rw [List.eq_of_mem_replicate hx]
  exact current_inRange h

/-- **One step keeps the bounds**, or its own use of the array is out of range. -/
theorem Step.bounded (h : s.Step a t) (hs : Bounded s) : Bounded t := by
  intro ht
  cases h.moves with
  | stays k hno hcall hcb hesp hlog =>
      rw [hcb, hesp]
      exact hs ((inRange_append hlog).mp ht).1
  | yeilds k hyes hcb hesp hlog =>
      rw [List.append_assoc] at hlog
      obtain ⟨hbefore, hnew⟩ := (inRange_append hlog).mp ht
      obtain ⟨hmain, hlow, hhigh⟩ := hs hbefore
      have hne := (yeild_inRange ⟨hlow, hhigh⟩).mp (hnew _ (by simp))
      rw [hcb, hesp]
      exact ⟨hmain, by omega, by omega⟩
  | resumes co ha heq =>
      have hlog : t.log = s.log ++ [.resume s.Co_ESP] := by
        rw [heq]
        rfl
      obtain ⟨hbefore, hnew⟩ := (inRange_append hlog).mp ht
      obtain ⟨hmain, hlow, hhigh⟩ := hs hbefore
      have hlt := (resume_inRange ⟨hlow, hhigh⟩).mp (hnew _ (by simp))
      have hentry : t.Co_CallBack 0 = s.Co_CallBack 0 := by
        rw [heq]
        exact Function.update_of_ne (by omega) _ _
      have hesp : t.Co_ESP = s.Co_ESP + 1 := by
        rw [heq]
        rfl
      rw [hentry, hesp]
      exact ⟨hmain, by omega, by omega⟩

/-- A coroutine that ends in `Co_realRunningFun` is not alone on the stack. -/
theorem Step.finish_ne (h : s.Step .finish t) (hs : Bounded s) (hin : s.InRange) :
    s.Co_ESP ≠ 1 := by
  intro hone
  have hrun : s.running = s.Co_CallBack 0 := by
    unfold Env.running
    rw [hone]
    rfl
  exact h.1.2 (hrun.trans (hs hin).1)

/-- **One step is in range** exactly if it fits. -/
theorem Step.fits_iff (h : s.Step a t) (hs : Bounded s) (hin : s.InRange) :
    s.Fits a ↔ t.InRange := by
  have hbound := (hs hin).2
  cases h.moves with
  | stays k hno hcall hcb hesp hlog =>
      have hfits : s.Fits a := by
        cases a with
        | resume co => exact absurd rfl (hcall co)
        | finish => trivial
        | _ => exact fun _ => hno
      exact iff_of_true hfits ((inRange_append hlog).mpr ⟨hin, replicate_inRange hbound⟩)
  | yeilds k hyes hcb hesp hlog =>
      have hfits : s.Fits a ↔ s.Co_ESP ≠ 1 := by
        cases a with
        | resume co => exact hyes.elim
        | finish => exact iff_of_true trivial (h.finish_ne hs hin)
        | _ => exact ⟨fun hf hone => hf hone hyes, fun hne hone => absurd hone hne⟩
      rw [hfits, ← yeild_inRange hbound]
      rw [List.append_assoc] at hlog
      rw [inRange_append hlog, List.forall_mem_append, List.forall_mem_singleton]
      exact ⟨fun hy => ⟨hin, replicate_inRange hbound, hy⟩, fun hand => hand.2.2⟩
  | resumes co ha heq =>
      have hlog : t.log = s.log ++ [.resume s.Co_ESP] := by
        rw [heq]
        rfl
      rw [ha, inRange_append hlog, List.forall_mem_singleton, resume_inRange hbound]
      exact (and_iff_right hin).symm

end Env

open Env

/-- **The runs that keep every index in `[0, 256)`** are those whose resumes all find a free entry and in
which the main coroutine, alone on the stack, makes no call that suspends. -/
theorem callBack_in_range_iff {as : List Action} {s : Env} :
    Run (fun s a t => s.Step a t ∧ s.Fits a) Env.init as s ↔
      Run (fun s a t => s.Step a t ∧ t.InRange) Env.init as s := by
  refine Run.guarded_iff_under (J := Bounded) ?_ ?_ Bounded.init ?_
  · intro s a t hs _ ha
    exact ha.bounded hs
  · intro s a t hs hin ha
    exact ha.fits_iff hs hin
  · intro x hx
    cases hx

/-- The main coroutine turns its hook on and polls one descriptor for a second: the yield goes back to
entry -1. -/
theorem not_callBack_in_range :
    ∃ s, Run Env.Step Env.init
      [.enableHook, .poll [⟨3, POLLIN⟩] 1000 ⟨fun _ => false, 0⟩] s ∧
      ∃ x ∈ s.log, -1 ∈ x.indices := by
  have hfirst : Env.init.Step .enableHook Env.init.enableHookSys := ⟨rfl, rfl⟩
  have hpoll : Env.init.enableHookSys.Step (.poll [⟨3, POLLIN⟩] 1000 ⟨fun _ => false, 0⟩)
      (Env.init.enableHookSys.poll [⟨3, POLLIN⟩] 1000 ⟨fun _ => false, 0⟩) := ⟨rfl, rfl⟩
  refine ⟨_, .snoc (.snoc (.nil _) hfirst) hpoll, .yeild 1, ?_, by decide⟩
  decide +kernel

end RocketCo.CallBack
