/-
  RocketCo.CoRoutine.Interest — what `Co_poll_inner` adds to the epoll instance, and takes out.

  `Co_poll_inner` registers descriptor by descriptor and has three ways out:

      pollfunc    — an ADD failed, the system's `poll` takes over; nothing is taken out
      AddTimeOut  — the wheel turned the call down; every descriptor of `fds` is taken out
      Co_yeild    — the same, after the coroutine has been resumed

  What is taken out goes by its number, whoever added it.

  The state is the interest set of one thread's epoll instance with the calls that are blocked.  How
  each ADD fails, the answer of the wheel and what other coroutines do in between is arbitrary.

  Main result: `interest_restored_iff`.
-/
import RocketCo.CoRoutine.EventLoop
import RocketCo.CoSwap.Switch

namespace RocketCo.CoRoutine

open RocketCo.Lib
open RocketCo.CoSwap (ShortItemOptimization)

/-! ## §1. The interest set. -/

abbrev Errno := Nat

def EAGAIN : Errno := 11

def EEXIST : Errno := 17

/-- `data.ptr`: item `item` of a call. -/
structure Registration where
  call : Nat
  item : Nat
  deriving DecidableEq

/-- What a descriptor is registered with. -/
abbrev Interest := Int → Option Registration

/-- `epoll_ctl` with `EPOLL_CTL_ADD`; `fault` is a failure for another reason than `EEXIST`. -/
def epollCtlAdd (s : Interest) (fd : Int) (r : Registration) (fault : Option Errno) :
    Option Errno × Interest :=
  match fault with
  | some e => (some e, s)
  | none => if s fd = none then (none, Function.update s fd (some r)) else (some EEXIST, s)

/-- `epoll_ctl` with `EPOLL_CTL_DEL`. -/
def epollCtlDel (s : Interest) (fd : Int) : Interest := Function.update s fd none

/-- The registration loop of call `k`, from descriptor `i` on: whether it ends in `pollfunc`, and the
interest set it leaves. -/
def registerFds (k nfds : Nat) (pollfunc : Bool) (fault : Nat → Option Errno) :
    Nat → List PollFd → Interest → Bool × Interest
  | _, [], s => (false, s)
  | i, p :: fds, s =>
      if -1 < p.fd then
        let r := epollCtlAdd s p.fd ⟨k, i⟩ (fault i)
        -- earlier registrations stay behind: the clean-up loop is not reached
        if r.1 ≠ none ∧ r.1 ≠ some EAGAIN ∧ nfds ≤ ShortItemOptimization ∧ pollfunc = true then
          (true, r.2)
        else registerFds k nfds pollfunc fault (i + 1) fds r.2
      else registerFds k nfds pollfunc fault (i + 1) fds s

/-- The clean-up loop. -/
def removeFds (fds : List PollFd) (s : Interest) : Interest :=
  fds.foldl (fun s p => epollCtlDel s p.fd) s

/-! ## §2. Calls. -/

/-- The epoll instance of a thread, and the descriptors of each blocked call. -/
structure Polls where
  interest : Interest
  blocked : Nat → Option (List PollFd)
  next : Nat

def Polls.init : Polls where
  interest := fun _ => none
  blocked := fun _ => none
  next := 0

inductive PollAction where
  /-- `Co_poll_inner` up to its `Co_yeild` or its return; `ret` is what `AddTimeOut` returns. -/
  | poll (fds : List PollFd) (pollfunc : Bool) (fault : Nat → Option Errno) (ret : Int)
  /-- `Co_poll_inner` from `Co_yeild` on. -/
  | back (k : Nat)
  /-- The descriptor is closed, and has no duplicate: the kernel takes it out. -/
  | close (fd : Int)

namespace Polls

def coPollInner (s : Polls) (fds : List PollFd) (pollfunc : Bool) (fault : Nat → Option Errno)
    (ret : Int) : Polls :=
  let k := s.next
  let r := registerFds k fds.length pollfunc fault 0 fds s.interest
  if r.1 = true then { s with interest := r.2, next := k + 1 }
  else if ret ≠ 0 then { s with interest := removeFds fds r.2, next := k + 1 }
  else
    { interest := r.2, blocked := Function.update s.blocked k (some fds), next := k + 1 }

def coPollInnerBack (s : Polls) (k : Nat) : Option Polls :=
  (s.blocked k).map fun fds =>
    { s with
      interest := removeFds fds s.interest
      blocked := Function.update s.blocked k none }

def step (s : Polls) : PollAction → Option Polls
  | .poll fds pollfunc fault ret => some (s.coPollInner fds pollfunc fault ret)
  | .back k => s.coPollInnerBack k
  | .close fd => some { s with interest := epollCtlDel s.interest fd }

def Step (s : Polls) (a : PollAction) (t : Polls) : Prop := s.step a = some t

/-- The registration of this descriptor is one of the call's. -/
def Owns (s : Polls) (k : Nat) (fd : Int) : Prop := ∃ i, s.interest fd = some ⟨k, i⟩

open Classical in
/-- **The interest set is left as it was found.**  A call that returns at once has changed nothing; one
that blocks has added registrations of its own; when it returns after that, exactly these are gone. -/
def Restores (s : Polls) : PollAction → Polls → Prop
  | .poll _ _ _ _, t =>
      if t.blocked s.next = none then t.interest = s.interest
      else ∀ fd, t.interest fd = s.interest fd ∨
        s.interest fd = none ∧ ∃ i, t.interest fd = some ⟨s.next, i⟩
  | .back k, t => ∀ fd, t.interest fd = if s.Owns k fd then none else s.interest fd
  | .close _, _ => True

/-- When descriptor `i` of a call gets its turn, the number is in the interest set already. -/
def Present (s : Polls) (fds : List PollFd) (fault : Nat → Option Errno) (i : Nat) (fd : Int) :
    Prop :=
  s.interest fd ≠ none ∨ ∃ j < i, ∃ p, fds[j]? = some p ∧ p.fd = fd ∧ fault j = none

/-- ADD of descriptor `i` fails, and not with `EAGAIN`. -/
def AddFails (s : Polls) (fds : List PollFd) (fault : Nat → Option Errno) (i : Nat) : Prop :=
  ∃ p, fds[i]? = some p ∧ -1 < p.fd ∧
    ((∃ e, fault i = some e ∧ e ≠ EAGAIN) ∨ fault i = none ∧ s.Present fds fault i p.fd)

/-- ADD of descriptor `i` succeeds. -/
def Adds (s : Polls) (fds : List PollFd) (fault : Nat → Option Errno) (i : Nat) : Prop :=
  ∃ p, fds[i]? = some p ∧ -1 < p.fd ∧ fault i = none ∧ ¬ s.Present fds fault i p.fd

/-- ADD of descriptor `f` is the first one from `i` on that fails. -/
def FirstFails (s : Polls) (fds : List PollFd) (fault : Nat → Option Errno) (i f : Nat) : Prop :=
  i ≤ f ∧ s.AddFails fds fault f ∧ ∀ j, i ≤ j → j < f → ¬ s.AddFails fds fault j

/-- The call ends in `pollfunc` at descriptor `f`. -/
def FallsBack (s : Polls) (fds : List PollFd) (pollfunc : Bool) (fault : Nat → Option Errno)
    (f : Nat) : Prop :=
  (fds.length ≤ ShortItemOptimization ∧ pollfunc = true) ∧ s.FirstFails fds fault 0 f

/-- **When a call leaves the interest set as it was**: it ends in `pollfunc` before it has added
anything, or it cleans up and no descriptor of `fds` is registered by another call. -/
def Restorable (s : Polls) : PollAction → Prop
  | .poll fds pollfunc fault ret =>
      (∀ f, s.FallsBack fds pollfunc fault f → ∀ j < f, ¬ s.Adds fds fault j) ∧
      ((∀ f, ¬ s.FallsBack fds pollfunc fault f) → ret ≠ 0 → ∀ p ∈ fds, s.interest p.fd = none)
  | .back k => ∀ fds, s.blocked k = some fds →
      ∀ p ∈ fds, s.interest p.fd = none ∨ s.Owns k p.fd
  | .close _ => True

end Polls

variable {s t : Polls} {a : PollAction}

/-! ## §3. The two loops. -/

theorem removeFds_apply (fds : List PollFd) (s : Interest) (fd : Int) :
    removeFds fds s fd = if fd ∈ fds.map PollFd.fd then none else s fd := by
  induction fds generalizing s with
  | nil => simp [removeFds]
  | cons p fds ih =>
      have hcons : removeFds (p :: fds) s = removeFds fds (epollCtlDel s p.fd) := rfl
      rw [hcons, ih]
      by_cases hin : fd ∈ fds.map PollFd.fd
      · have hcin : fd ∈ (p :: fds).map PollFd.fd := List.mem_cons_of_mem _ hin
        rw [if_pos hin, if_pos hcin]
      · rw [if_neg hin]
        by_cases hfd : fd = p.fd
        · simp [epollCtlDel, hfd]
        · have hout : fd ∉ (p :: fds).map PollFd.fd := by
            simp only [List.map_cons, List.mem_cons, not_or]
            exact ⟨hfd, hin⟩
          rw [if_neg hout]
          exact Function.update_of_ne hfd _ _

/-- An ADD changes a free descriptor only. -/
theorem epollCtlAdd_apply (s : Interest) (fd : Int) (r : Registration) (fault : Option Errno)
    (x : Int) : (epollCtlAdd s fd r fault).2 x = s x ∨
      s x = none ∧ x = fd ∧ (epollCtlAdd s fd r fault).2 x = some r := by
  unfold epollCtlAdd
  cases fault with
  | some e => exact Or.inl rfl
  | none =>
      by_cases hfree : s fd = none
      · dsimp only
        rw [if_pos hfree]
        by_cases hx : x = fd
        · rw [hx]
          exact Or.inr ⟨hfree, rfl, Function.update_self _ _ _⟩
        · exact Or.inl (Function.update_of_ne hx _ _)
      · dsimp only
        rw [if_neg hfree]
        exact Or.inl rfl

/-- **The registration loop** adds registrations of its own call, for free descriptors of `fds`. -/
theorem registerFds_apply (k nfds : Nat) (pollfunc : Bool) (fault : Nat → Option Errno)
    (fds : List PollFd) (i : Nat) (s : Interest) (x : Int) :
    (registerFds k nfds pollfunc fault i fds s).2 x = s x ∨
      s x = none ∧ x ∈ fds.map PollFd.fd ∧
        ∃ j, (registerFds k nfds pollfunc fault i fds s).2 x = some ⟨k, j⟩ := by
  induction fds generalizing i s with
  | nil => exact Or.inl rfl
  | cons p fds ih =>
      have hmem : ∀ {x}, x ∈ fds.map PollFd.fd → x ∈ (p :: fds).map PollFd.fd :=
        fun hx => List.mem_cons_of_mem _ hx
      unfold registerFds
      by_cases hfd : -1 < p.fd
      · rw [if_pos hfd]
        dsimp only
        have hadd := epollCtlAdd_apply s p.fd ⟨k, i⟩ (fault i) x
        split
        · cases hadd with
          | inl hsame => exact Or.inl hsame
          | inr hnew => exact Or.inr ⟨hnew.1, by rw [hnew.2.1]; exact List.mem_cons_self, i, hnew.2.2⟩
        · -- the rest of the loop starts from what this ADD leaves
          cases ih (i + 1) (epollCtlAdd s p.fd ⟨k, i⟩ (fault i)).2 with
          | inl hrest =>
              rw [hrest]
              cases hadd with
              | inl hsame => exact Or.inl hsame
              | inr hnew =>
                  exact Or.inr ⟨hnew.1, by rw [hnew.2.1]; exact List.mem_cons_self, i, hnew.2.2⟩
          | inr hrest =>
              obtain ⟨hnone, hin, hj⟩ := hrest
              cases hadd with
              | inl hsame => exact Or.inr ⟨hsame ▸ hnone, hmem hin, hj⟩
              | inr hnew =>
                  rw [hnew.2.2] at hnone
                  cases hnone
      · rw [if_neg hfd]
        cases ih (i + 1) s with
        | inl hsame => exact Or.inl hsame
        | inr hnew => exact Or.inr ⟨hnew.1, hmem hnew.2.1, hnew.2.2⟩

/-- The number of the next descriptor counts as present from then on. -/
theorem present_succ {fds : List PollFd} {fault : Nat → Option Errno} {i : Nat} {p : PollFd}
    (hp : fds[i]? = some p) (x : Int) : s.Present fds fault (i + 1) x ↔
      s.Present fds fault i x ∨ p.fd = x ∧ fault i = none := by
  unfold Polls.Present
  constructor
  · intro hpre
    cases hpre with
    | inl hin => exact Or.inl (Or.inl hin)
    | inr hadded =>
        obtain ⟨j, hj, q, hq, hfd, hfault⟩ := hadded
        by_cases hji : j = i
        · rw [hji, hp] at hq
          rw [hji] at hfault
          exact Or.inr ⟨by rw [Option.some.inj hq]; exact hfd, hfault⟩
        · exact Or.inl (Or.inr ⟨j, by omega, q, hq, hfd, hfault⟩)
  · intro hpre
    cases hpre with
    | inl hpre =>
        cases hpre with
        | inl hin => exact Or.inl hin
        | inr hadded =>
            obtain ⟨j, hj, hrest⟩ := hadded
            exact Or.inr ⟨j, by omega, hrest⟩
    | inr hnew => exact Or.inr ⟨i, by omega, p, hp, hnew.1, hnew.2⟩

theorem firstFails_self {fds : List PollFd} {fault : Nat → Option Errno} {i f : Nat}
    (h : s.AddFails fds fault i) : s.FirstFails fds fault i f ↔ f = i := by
  constructor
  · intro hfirst
    by_contra hne
    exact hfirst.2.2 i (Nat.le_refl i) (by have := hfirst.1; omega) h
  · intro heq
    rw [heq]
    exact ⟨Nat.le_refl i, h, fun j hlow hhigh => by omega⟩

theorem firstFails_succ {fds : List PollFd} {fault : Nat → Option Errno} {i f : Nat}
    (h : ¬ s.AddFails fds fault i) :
    s.FirstFails fds fault i f ↔ s.FirstFails fds fault (i + 1) f := by
  constructor
  · intro hfirst
    obtain ⟨hlow, hfails, hbefore⟩ := hfirst
    have hne : f ≠ i := fun heq => h (heq ▸ hfails)
    exact ⟨by omega, hfails, fun j hj hjf => hbefore j (by omega) hjf⟩
  · intro hfirst
    obtain ⟨hlow, hfails, hbefore⟩ := hfirst
    refine ⟨by omega, hfails, fun j hj hjf => ?_⟩
    by_cases hji : j = i
    · rw [hji]
      exact h
    · exact hbefore j (by omega) hjf

/-- Nothing is added from `i` up to `f`. -/
theorem none_added_succ {fds : List PollFd} {fault : Nat → Option Errno} {i f : Nat}
    (h : ¬ s.Adds fds fault i) : (∀ j, i ≤ j → j < f → ¬ s.Adds fds fault j) ↔
      ∀ j, i + 1 ≤ j → j < f → ¬ s.Adds fds fault j := by
  constructor
  · exact fun hall j hj hjf => hall j (by omega) hjf
  · intro hall j hj hjf
    by_cases hji : j = i
    · rw [hji]
      exact h
    · exact hall j (by omega) hjf

/-- What a result of the loop from descriptor `i` on says: whether an ADD fails, and whether anything was
added before the first that does. -/
def Polls.Settles (s : Polls) (all : List PollFd) (fault : Nat → Option Errno) (i : Nat)
    (cur : Interest) (r : Bool × Interest) : Prop :=
  (r.1 = true ↔ ∃ f, s.FirstFails all fault i f) ∧
    ∀ f, s.FirstFails all fault i f → (r.2 = cur ↔ ∀ j, i ≤ j → j < f → ¬ s.Adds all fault j)

section Turn

variable {all fds : List PollFd} {fault : Nat → Option Errno} {i k nfds : Nat} {cur cur' : Interest}
  {r : Bool × Interest} {p : PollFd} {pollfunc : Bool}

/-- The loop is through. -/
theorem Polls.Settles.done (hlen : all.length ≤ i) : s.Settles all fault i cur (false, cur) := by
  have hnone : ∀ f, ¬ s.FirstFails all fault i f := by
    intro f hfirst
    obtain ⟨hlow, ⟨p, hp, -⟩, -⟩ := hfirst
    rw [List.getElem?_eq_none (by omega)] at hp
    cases hp
  refine ⟨?_, fun f hfirst => absurd hfirst (hnone f)⟩
  constructor
  · intro hfalse
    cases hfalse
  · intro hex
    obtain ⟨f, hfirst⟩ := hex
    exact absurd hfirst (hnone f)

/-- A failing ADD ends the loop, with nothing changed. -/
theorem Polls.Settles.stop (hfail : s.AddFails all fault i) :
    s.Settles all fault i cur (true, cur) := by
  constructor
  · exact ⟨fun _ => ⟨i, (firstFails_self hfail).mpr rfl⟩, fun _ => rfl⟩
  · intro f hfirst
    have hf := (firstFails_self hfail).mp hfirst
    exact ⟨fun _ j hlow hhigh => by omega, fun _ => rfl⟩

/-- A descriptor that is passed over leaves the question to the rest of the loop. -/
theorem Polls.Settles.pass (hnofail : ¬ s.AddFails all fault i) (hnoadd : ¬ s.Adds all fault i)
    (h : s.Settles all fault (i + 1) cur r) : s.Settles all fault i cur r := by
  obtain ⟨hback, hsame⟩ := h
  constructor
  · rw [hback]
    exact exists_congr fun f => (firstFails_succ hnofail).symm
  · intro f hfirst
    rw [none_added_succ hnoadd]
    exact hsame f ((firstFails_succ hnofail).mp hfirst)

/-- A descriptor that is added stays so, whatever follows. -/
theorem Polls.Settles.add (hnofail : ¬ s.AddFails all fault i) (hadds : s.Adds all fault i)
    (h : s.Settles all fault (i + 1) cur' r) (hne : r.2 ≠ cur) : s.Settles all fault i cur r := by
  constructor
  · rw [h.1]
    exact exists_congr fun f => (firstFails_succ hnofail).symm
  · intro f hfirst
    have hlow := ((firstFails_succ hnofail).mp hfirst).1
    constructor
    · intro hsame
      exact absurd hsame hne
    · intro hall
      exact absurd hadds (hall i (Nat.le_refl i) hlow)

/-- One turn of the loop, when the interest set is `cur`. -/
inductive Turn (s : Polls) (all : List PollFd) (fault : Nat → Option Errno) (k nfds : Nat)
    (pollfunc : Bool) (i : Nat) (p : PollFd) (fds : List PollFd) (cur : Interest) : Prop
  | pass (hnofail : ¬ s.AddFails all fault i) (hnoadd : ¬ s.Adds all fault i)
      (heq : registerFds k nfds pollfunc fault i (p :: fds) cur =
        registerFds k nfds pollfunc fault (i + 1) fds cur)
      (hnone : ¬ (-1 < p.fd ∧ fault i = none))
  | stop (hfail : s.AddFails all fault i)
      (heq : registerFds k nfds pollfunc fault i (p :: fds) cur = (true, cur))
  | add (hnofail : ¬ s.AddFails all fault i) (hadds : s.Adds all fault i) (hfd : cur p.fd = none)
      (hnone : fault i = none)
      (heq : registerFds k nfds pollfunc fault i (p :: fds) cur =
        registerFds k nfds pollfunc fault (i + 1) fds (Function.update cur p.fd (some ⟨k, i⟩)))

/-- **What a turn of the loop can do**, where it may end in `pollfunc`. -/
theorem registerFds_turn (hmay : nfds ≤ ShortItemOptimization ∧ pollfunc = true)
    (hp : all[i]? = some p)
    (hcur : ∀ x, -1 < x → (cur x ≠ none ↔ s.Present all fault i x)) :
    Turn s all fault k nfds pollfunc i p fds cur := by
  -- what this descriptor can do, in terms of `p`
  have hfails : s.AddFails all fault i ↔ -1 < p.fd ∧
      ((∃ e, fault i = some e ∧ e ≠ EAGAIN) ∨ fault i = none ∧ s.Present all fault i p.fd) := by
    unfold Polls.AddFails
    rw [hp]
    simp
  have hadds : s.Adds all fault i ↔
      -1 < p.fd ∧ fault i = none ∧ ¬ s.Present all fault i p.fd := by
    unfold Polls.Adds
    rw [hp]
    simp
  by_cases hfd : -1 < p.fd
  · cases hfault : fault i with
    | some e =>
        have hadd : epollCtlAdd cur p.fd ⟨k, i⟩ (fault i) = (some e, cur) := by
          rw [hfault]
          rfl
        by_cases he : e = EAGAIN
        · refine .pass ?_ ?_ ?_ ?_
          · rw [hfails, hfault, he]
            simp
          · rw [hadds, hfault]
            simp
          · show (if -1 < p.fd then _ else _) = _
            rw [if_pos hfd]
            simp [hadd, he]
          · rw [hfault]
            simp
        · refine .stop ?_ ?_
          · rw [hfails]
            exact ⟨hfd, Or.inl ⟨e, hfault, he⟩⟩
          · show (if -1 < p.fd then _ else _) = _
            rw [if_pos hfd]
            simp [hadd, he, hmay.1, hmay.2]
    | none =>
        by_cases hin : cur p.fd = none
        · have hnotpres : ¬ s.Present all fault i p.fd := by
            rw [← hcur p.fd hfd]
            exact fun hne => hne hin
          have hadd : epollCtlAdd cur p.fd ⟨k, i⟩ (fault i) =
              (none, Function.update cur p.fd (some ⟨k, i⟩)) := by
            rw [hfault]
            unfold epollCtlAdd
            exact if_pos hin
          refine .add ?_ ?_ hin hfault ?_
          · rw [hfails, hfault]
            simp [hnotpres]
          · exact hadds.mpr ⟨hfd, hfault, hnotpres⟩
          · show (if -1 < p.fd then _ else _) = _
            rw [if_pos hfd]
            simp [hadd]
        · have hadd : epollCtlAdd cur p.fd ⟨k, i⟩ (fault i) = (some EEXIST, cur) := by
            rw [hfault]
            unfold epollCtlAdd
            exact if_neg hin
          refine .stop ?_ ?_
          · rw [hfails]
            exact ⟨hfd, Or.inr ⟨hfault, (hcur p.fd hfd).mp hin⟩⟩
          · show (if -1 < p.fd then _ else _) = _
            rw [if_pos hfd]
            simp [hadd, EEXIST, EAGAIN, hmay.1, hmay.2]
  · refine .pass ?_ ?_ ?_ ?_
    · rw [hfails]
      exact fun hand => hfd hand.1
    · rw [hadds]
      exact fun hand => hfd hand.1
    · show (if -1 < p.fd then _ else _) = _
      rw [if_neg hfd]
    · exact fun hand => hfd hand.1

end Turn

/-- **Where the registration loop ends in `pollfunc`**, and when it has changed nothing then. -/
theorem registerFds_fallsBack (k : Nat) {nfds : Nat} {pollfunc : Bool} (all : List PollFd)
    (fault : Nat → Option Errno) (hmay : nfds ≤ ShortItemOptimization ∧ pollfunc = true) :
    ∀ (fds : List PollFd) (i : Nat) (cur : Interest), all.drop i = fds →
      (∀ x, -1 < x → (cur x ≠ none ↔ s.Present all fault i x)) →
      s.Settles all fault i cur (registerFds k nfds pollfunc fault i fds cur) := by
  intro fds
  induction fds with
  | nil =>
      intro i cur hdrop _
      exact Polls.Settles.done (List.drop_eq_nil_iff.mp hdrop)
  | cons p fds ih =>
      intro i cur hdrop hcur
      have hp : all[i]? = some p := by
        have hhead := congrArg List.head? hdrop
        rwa [List.head?_drop] at hhead
      have hrest : all.drop (i + 1) = fds := by
        have htail := congrArg List.tail hdrop
        rwa [List.tail_drop] at htail
      have hpres : ∀ x, s.Present all fault (i + 1) x ↔
          s.Present all fault i x ∨ p.fd = x ∧ fault i = none := present_succ hp
      have hturn : Turn s all fault k nfds pollfunc i p fds cur := registerFds_turn hmay hp hcur
      cases hturn with
      | pass hnofail hnoadd heq hnone =>
          rw [heq]
          refine (ih (i + 1) cur hrest ?_).pass hnofail hnoadd
          intro x hx
          rw [hcur x hx, hpres]
          constructor
          · exact Or.inl
          · intro hor
            exact hor.resolve_right fun hnew => hnone ⟨hnew.1 ▸ hx, hnew.2⟩
      -- a failing `epoll_ctl` ends the loop, and the call falls back to pollfunc
      | stop hfail heq =>
          rw [heq]
          exact Polls.Settles.stop hfail
      | add hnofail hadds hfree hnone heq =>
          rw [heq]
          refine (ih (i + 1) _ hrest ?_).add hnofail hadds ?_
          · intro x hx
            rw [hpres]
            by_cases hxp : x = p.fd
            · simp [hxp, hnone]
            · rw [Function.update_of_ne hxp, hcur x hx]
              simp [Ne.symm hxp]
          -- a descriptor that has been added is never taken off by the loop itself
          · intro hsame
            have hkept := registerFds_apply k nfds pollfunc fault fds (i + 1)
              (Function.update cur p.fd (some ⟨k, i⟩)) p.fd
            rw [hsame, Function.update_self, hfree] at hkept
            simp at hkept

/-- Without `pollfunc`, or with more descriptors, the loop goes through. -/
theorem registerFds_through (k : Nat) {nfds : Nat} {pollfunc : Bool} (fault : Nat → Option Errno)
    (hnot : ¬ (nfds ≤ ShortItemOptimization ∧ pollfunc = true)) (fds : List PollFd) (i : Nat)
    (cur : Interest) : (registerFds k nfds pollfunc fault i fds cur).1 = false := by
  induction fds generalizing i cur with
  | nil => rfl
  | cons p fds ih =>
      unfold registerFds
      by_cases hfd : -1 < p.fd
      · rw [if_pos hfd]
        dsimp only
        have hno : ¬ ((epollCtlAdd cur p.fd ⟨k, i⟩ (fault i)).1 ≠ none ∧
            (epollCtlAdd cur p.fd ⟨k, i⟩ (fault i)).1 ≠ some EAGAIN ∧
            nfds ≤ ShortItemOptimization ∧ pollfunc = true) := fun hand => hnot hand.2.2
        rw [if_neg hno]
        exact ih _ _
      · rw [if_neg hfd]
        exact ih _ _

/-! ## §4. Calls and their registrations. -/

/-- **Whose registrations there are**: none of a call that is still to come, and those of a blocked
call are for its own descriptors. -/
structure OwnInv (s : Polls) : Prop where
  past : ∀ fd r, s.interest fd = some r → r.call < s.next
  known : ∀ k fds, s.blocked k = some fds → k < s.next
  own : ∀ fd r fds, s.interest fd = some r → s.blocked r.call = some fds → fd ∈ fds.map PollFd.fd

theorem OwnInv.init : OwnInv .init := by
  constructor
  case past => exact fun fd r hr => by cases hr
  case known => exact fun k fds hk => by cases hk
  case own => exact fun fd r fds hr => by cases hr

/-- Registrations go, and calls with them. -/
theorem OwnInv.shrink (h : OwnInv s)
    (hinterest : ∀ fd r, t.interest fd = some r → s.interest fd = some r)
    (hblocked : ∀ k fds, t.blocked k = some fds → s.blocked k = some fds) (hnext : s.next ≤ t.next) :
    OwnInv t := by
  constructor
  case past => exact fun fd r hr => Nat.lt_of_lt_of_le (h.past fd r (hinterest fd r hr)) hnext
  case known => exact fun k fds hk => Nat.lt_of_lt_of_le (h.known k fds (hblocked k fds hk)) hnext
  case own => exact fun fd r fds hr hk => h.own fd r fds (hinterest fd r hr) (hblocked _ fds hk)

theorem removeFds_some {fds : List PollFd} {i : Interest} {fd : Int} {r : Registration}
    (h : removeFds fds i fd = some r) : i fd = some r := by
  rw [removeFds_apply] at h
  split at h
  · cases h
  · exact h

/-- After the registration loop each registration is an old one or one of the new call. -/
theorem OwnInv.registered (h : OwnInv s) {fds : List PollFd} {pollfunc : Bool}
    {fault : Nat → Option Errno} {blocked : Nat → Option (List PollFd)}
    (hblocked : blocked = s.blocked ∨ blocked = Function.update s.blocked s.next (some fds)) :
    OwnInv ⟨(registerFds s.next fds.length pollfunc fault 0 fds s.interest).2, blocked,
      s.next + 1⟩ := by
  have hreg := registerFds_apply s.next fds.length pollfunc fault fds 0 s.interest
  -- earlier calls are not touched by a new one
  have hold : ∀ k, k < s.next → blocked k = s.blocked k := by
    intro k hk
    cases hblocked with
    | inl heq => rw [heq]
    | inr heq => rw [heq, Function.update_of_ne (by omega)]
  constructor
  case past =>
    intro fd r hr
    have hr' : (registerFds s.next fds.length pollfunc fault 0 fds s.interest).2 fd = some r := hr
    show r.call < s.next + 1
    cases hreg fd with
    | inl hsame =>
        rw [hsame] at hr'
        exact Nat.lt_succ_of_lt (h.past fd r hr')
    | inr hnew =>
        obtain ⟨-, -, j, hj⟩ := hnew
        rw [hj] at hr'
        rw [← Option.some.inj hr']
        exact Nat.lt_succ_self _
  case known =>
    intro k fds' hk
    have hk' : blocked k = some fds' := hk
    show k < s.next + 1
    by_contra hge
    have hnone : s.blocked k = none := by
      cases hb : s.blocked k with
      | none => rfl
      | some fds'' =>
          have := h.known k fds'' hb
          omega
    cases hblocked with
    | inl heq =>
        rw [heq, hnone] at hk'
        cases hk'
    | inr heq =>
        rw [heq, Function.update_of_ne (by omega), hnone] at hk'
        cases hk'
  case own =>
    intro fd r fds' hr hk
    have hr' : (registerFds s.next fds.length pollfunc fault 0 fds s.interest).2 fd = some r := hr
    have hk' : blocked r.call = some fds' := hk
    cases hreg fd with
    | inl hsame =>
        rw [hsame] at hr'
        rw [hold _ (h.past fd r hr')] at hk'
        exact h.own fd r fds' hr' hk'
    | inr hnew =>
        obtain ⟨-, hin, j, hj⟩ := hnew
        rw [hj] at hr'
        rw [← Option.some.inj hr'] at hk'
        cases hblocked with
        | inl heq =>
            rw [heq] at hk'
            exact absurd (h.known _ _ hk') (Nat.lt_irrefl _)
        | inr heq =>
            rw [heq, Function.update_self] at hk'
            rw [← Option.some.inj hk']
            exact hin

theorem OwnInv.step (h : OwnInv s) (hstep : s.Step a t) : OwnInv t := by
  cases a with
  | poll fds pollfunc fault ret =>
      have heq : s.coPollInner fds pollfunc fault ret = t := Option.some.inj hstep
      rw [← heq]
      unfold Polls.coPollInner
      dsimp only
      split
      · exact h.registered (Or.inl rfl)
      · split
        · have hreg : OwnInv ⟨(registerFds s.next fds.length pollfunc fault 0 fds s.interest).2,
            s.blocked, s.next + 1⟩ := h.registered (Or.inl rfl)
          exact hreg.shrink (fun fd r hr => removeFds_some hr) (fun _ _ hk => hk) (Nat.le_refl _)
        · exact h.registered (Or.inr rfl)
  | back k =>
      obtain ⟨fds, hk, heq⟩ := Option.map_eq_some_iff.mp hstep
      rw [← heq]
      apply h.shrink
      · exact fun fd r hr => removeFds_some hr
      · intro j fds' hj
        have hj' : Function.update s.blocked k none j = some fds' := hj
        by_cases hjk : j = k
        · rw [hjk, Function.update_self] at hj'
          cases hj'
        · rwa [Function.update_of_ne hjk] at hj'
      · exact Nat.le_refl _
  | close fd =>
      have heq : { s with interest := epollCtlDel s.interest fd } = t := Option.some.inj hstep
      rw [← heq]
      apply h.shrink
      · intro x r hr
        have hr' : Function.update s.interest fd none x = some r := hr
        by_cases hx : x = fd
        · rw [hx, Function.update_self] at hr'
          cases hr'
        · rwa [Function.update_of_ne hx] at hr'
      · exact fun _ _ hk => hk
      · exact Nat.le_refl _

theorem OwnInv.of_run {as : List PollAction} (hrun : Run Polls.Step .init as s) : OwnInv s :=
  Run.invariant (fun _ _ _ h hstep => h.step hstep) hrun OwnInv.init

/-! ## §5. The three ways out. -/

/-- The call ends in `pollfunc` exactly where its first ADD fails. -/
theorem fallsBack_iff (s : Polls) (fds : List PollFd) (pollfunc : Bool)
    (fault : Nat → Option Errno) :
    (registerFds s.next fds.length pollfunc fault 0 fds s.interest).1 = true ↔
      ∃ f, s.FallsBack fds pollfunc fault f := by
  by_cases hmay : fds.length ≤ ShortItemOptimization ∧ pollfunc = true
  · have hback := (registerFds_fallsBack (s := s) s.next fds fault hmay fds 0 s.interest rfl
      (fun x _ => by simp [Polls.Present])).1
    rw [hback]
    exact exists_congr fun f => ⟨fun hfirst => ⟨hmay, hfirst⟩, fun hfall => hfall.2⟩
  · rw [registerFds_through _ _ hmay]
    constructor
    · intro hfalse
      cases hfalse
    · intro hex
      obtain ⟨f, hfall⟩ := hex
      exact absurd hfall.1 hmay

/-- With few descriptors and a `pollfunc`, that is when some ADD fails. -/
theorem exists_fallsBack_iff (s : Polls) (fds : List PollFd) (pollfunc : Bool)
    (fault : Nat → Option Errno) : (∃ f, s.FallsBack fds pollfunc fault f) ↔
      (fds.length ≤ ShortItemOptimization ∧ pollfunc = true) ∧ ∃ i, s.AddFails fds fault i := by
  classical
  constructor
  · rintro ⟨f, hmay, -, hfails, -⟩
    exact ⟨hmay, f, hfails⟩
  · rintro ⟨hmay, hex⟩
    -- the first one that fails
    refine ⟨Nat.find hex, hmay, Nat.zero_le _, Nat.find_spec hex, ?_⟩
    exact fun j _ hlt => Nat.find_min hex hlt

/-- A call that ends in `pollfunc` has changed nothing if nothing was added before. -/
theorem pollfunc_restores {fds : List PollFd} {pollfunc : Bool} {fault : Nat → Option Errno}
    {f : Nat} (hfall : s.FallsBack fds pollfunc fault f) :
    (registerFds s.next fds.length pollfunc fault 0 fds s.interest).2 = s.interest ↔
      ∀ j < f, ¬ s.Adds fds fault j := by
  have hsame := (registerFds_fallsBack (s := s) s.next fds fault hfall.1 fds 0 s.interest rfl
    (fun x _ => by simp [Polls.Present])).2 f hfall.2
  rw [hsame]
  exact ⟨fun hall j hj => hall j (Nat.zero_le j) hj, fun hall j _ hj => hall j hj⟩

/-- A clean-up right after the registration loop. -/
theorem refused_restores (s : Polls) (fds : List PollFd) (pollfunc : Bool)
    (fault : Nat → Option Errno) :
    removeFds fds (registerFds s.next fds.length pollfunc fault 0 fds s.interest).2 = s.interest ↔
      ∀ p ∈ fds, s.interest p.fd = none := by
  constructor
  · intro hsame p hp
    rw [← hsame, removeFds_apply, if_pos (List.mem_map_of_mem hp)]
  · intro hfree
    funext fd
    rw [removeFds_apply]
    by_cases hin : fd ∈ fds.map PollFd.fd
    · rw [if_pos hin]
      obtain ⟨p, hp, hfd⟩ := List.mem_map.mp hin
      rw [← hfd, hfree p hp]
    · rw [if_neg hin]
      have hreg := registerFds_apply s.next fds.length pollfunc fault fds 0 s.interest fd
      exact hreg.resolve_right fun hnew => hin hnew.2.1

open Classical in
/-- The clean-up of a call that was blocked. -/
theorem back_restores (h : OwnInv s) {k : Nat} {fds : List PollFd} (hk : s.blocked k = some fds) :
    (∀ fd, removeFds fds s.interest fd = if s.Owns k fd then none else s.interest fd) ↔
      ∀ p ∈ fds, s.interest p.fd = none ∨ s.Owns k p.fd := by
  constructor
  · intro hall p hp
    have hone := hall p.fd
    rw [removeFds_apply, if_pos (List.mem_map_of_mem hp)] at hone
    by_cases hown : s.Owns k p.fd
    · exact Or.inr hown
    · rw [if_neg hown] at hone
      exact Or.inl hone.symm
  · intro hall fd
    rw [removeFds_apply]
    by_cases hin : fd ∈ fds.map PollFd.fd
    · rw [if_pos hin]
      obtain ⟨p, hp, hfd⟩ := List.mem_map.mp hin
      rw [← hfd]
      by_cases hown : s.Owns k p.fd
      · rw [if_pos hown]
      · rw [if_neg hown]
        exact ((hall p hp).resolve_right hown).symm
    · have hown : ¬ s.Owns k fd := by
        intro hown
        obtain ⟨i, hi⟩ := hown
        exact hin (h.own fd ⟨k, i⟩ fds hi hk)
      rw [if_neg hin, if_neg hown]

theorem OwnInv.next_free (h : OwnInv s) : s.blocked s.next = none := by
  cases hb : s.blocked s.next with
  | none => rfl
  | some fds => exact absurd (h.known _ _ hb) (Nat.lt_irrefl _)

/-- **One step restores the interest set exactly under the condition.** -/
theorem OwnInv.restores_iff (h : OwnInv s) (hstep : s.Step a t) :
    s.Restores a t ↔ s.Restorable a := by
  cases a with
  | poll fds pollfunc fault ret =>
      have heq : s.coPollInner fds pollfunc fault ret = t := Option.some.inj hstep
      have hiff := fallsBack_iff s fds pollfunc fault
      rw [← heq]
      unfold Polls.coPollInner Polls.Restores Polls.Restorable
      dsimp only
      by_cases hfall :
          (registerFds s.next fds.length pollfunc fault 0 fds s.interest).1 = true
      · obtain ⟨f, hf⟩ := hiff.mp hfall
        rw [if_pos hfall, if_pos h.next_free]
        constructor
        · intro hsame
          refine ⟨fun f' hf' => (pollfunc_restores hf').mp hsame, ?_⟩
          exact fun hnone => absurd hf (hnone f)
        · exact fun hcond => (pollfunc_restores hf).mpr (hcond.1 f hf)
      · have hnone : ∀ f, ¬ s.FallsBack fds pollfunc fault f :=
          fun f hf => hfall (hiff.mpr ⟨f, hf⟩)
        rw [if_neg hfall]
        by_cases hret : ret ≠ 0
        · rw [if_pos hret, if_pos h.next_free, refused_restores]
          constructor
          · exact fun hfree => ⟨fun f hf => absurd hf (hnone f), fun _ _ => hfree⟩
          · exact fun hcond => hcond.2 hnone hret
        · have hblocked : Function.update s.blocked s.next (some fds) s.next ≠ none := by
            simp
          rw [if_neg hret, if_neg hblocked]
          constructor
          · exact fun _ => ⟨fun f hf => absurd hf (hnone f), fun _ hne => absurd hne hret⟩
          · intro _ fd
            cases registerFds_apply s.next fds.length pollfunc fault fds 0 s.interest fd with
            | inl hsame => exact Or.inl hsame
            | inr hnew => exact Or.inr ⟨hnew.1, hnew.2.2⟩
  | back k =>
      obtain ⟨fds, hk, heq⟩ := Option.map_eq_some_iff.mp hstep
      have hback := back_restores h hk
      rw [← heq]
      constructor
      · intro hall fds' hfds'
        rw [hk] at hfds'
        rw [← Option.some.inj hfds']
        exact hback.mp hall
      · exact fun hcond => hback.mpr (hcond fds hk)
  | close fd => exact Iff.rfl

/-- Every registration is one of a call that is still blocked. -/
def Polls.AllLive (s : Polls) : Prop :=
  ∀ fd r, s.interest fd = some r → s.blocked r.call ≠ none

/-- A call that restores the interest set leaves nothing of its own behind. -/
theorem Polls.AllLive.step (h : s.AllLive) (hinv : OwnInv s) (hstep : s.Step a t)
    (hrestores : s.Restores a t) : t.AllLive := by
  cases a with
  | poll fds pollfunc fault ret =>
      have heq : s.coPollInner fds pollfunc fault ret = t := Option.some.inj hstep
      -- a new call ends no other
      have hblocked : ∀ k, s.blocked k ≠ none → t.blocked k ≠ none := by
        intro k hk
        have hne : k ≠ s.next := fun heq => hk (heq ▸ hinv.next_free)
        rw [← heq]
        unfold Polls.coPollInner
        dsimp only
        split
        · exact hk
        · split
          · exact hk
          · dsimp only
            rwa [Function.update_of_ne hne]
      intro fd r hr
      simp only [Polls.Restores] at hrestores
      by_cases hret : t.blocked s.next = none
      · rw [if_pos hret] at hrestores
        rw [hrestores] at hr
        exact hblocked _ (h fd r hr)
      · rw [if_neg hret] at hrestores
        cases hrestores fd with
        | inl hsame =>
            rw [hsame] at hr
            exact hblocked _ (h fd r hr)
        | inr hnew =>
            obtain ⟨-, i, hi⟩ := hnew
            rw [hi] at hr
            rw [← Option.some.inj hr]
            exact hret
  | back k =>
      obtain ⟨fds, hk, heq⟩ := Option.map_eq_some_iff.mp hstep
      intro fd r hr
      rw [hrestores fd] at hr
      by_cases hown : s.Owns k fd
      · rw [if_pos hown] at hr
        cases hr
      · rw [if_neg hown] at hr
        -- what is left belongs to another call, which is still blocked
        have hne : r.call ≠ k := fun hrk => hown ⟨r.item, by rw [hr, ← hrk]⟩
        rw [← heq]
        show Function.update s.blocked k none r.call ≠ none
        rw [Function.update_of_ne hne]
        exact h fd r hr
  | close fd =>
      have heq : { s with interest := epollCtlDel s.interest fd } = t := Option.some.inj hstep
      intro x r hr
      rw [← heq] at hr ⊢
      have hr' : Function.update s.interest fd none x = some r := hr
      by_cases hx : x = fd
      · rw [hx, Function.update_self] at hr'
        cases hr'
      · rw [Function.update_of_ne hx] at hr'
        exact h x r hr'

/-! ## §6. Every run. -/

/-- A step that meets the condition. -/
def Polls.RestorableStep (s : Polls) (a : PollAction) (t : Polls) : Prop :=
  s.Step a t ∧ s.Restorable a

/-- **When `Co_poll_inner` cleans up after itself.**  After any run a step leaves the interest set as it
was found exactly when it meets the condition; and after a run of such steps every registration
belongs to a call that is still blocked, so none refers to memory that has been freed. -/
theorem interest_restored_iff {as : List PollAction} (hrun : Run Polls.Step .init as s) :
    (∀ a t, s.Step a t → (s.Restores a t ↔ s.Restorable a)) ∧
    (Run Polls.RestorableStep .init as s → s.AllLive) := by
  refine ⟨fun a t hstep => (OwnInv.of_run hrun).restores_iff hstep, ?_⟩
  intro hall
  have hboth : OwnInv s ∧ s.AllLive := by
    apply Run.invariant (I := fun s => OwnInv s ∧ s.AllLive) _ hall
    · exact ⟨OwnInv.init, fun fd r hr => by cases hr⟩
    · intro s a t hinv hstep
      have hrestores := (hinv.1.restores_iff hstep.1).mpr hstep.2
      exact ⟨hinv.1.step hstep.1, hinv.2.step hinv.1 hstep.1 hrestores⟩
  exact hboth.2

/-- A call on descriptors 5 and 6 that blocks. -/
def PollAction.two : PollAction := .poll [⟨5, 1⟩, ⟨6, 1⟩] true (fun _ => none) 0

theorem interest_restored_two : ∃ s t, Run Polls.Step .init [.two] s ∧
    s.Step (.back 0) t ∧ s.Restores (.back 0) t := by
  have hcheck : checkRun Polls.step (fun _ _ => true) .init [.two]
      (fun s => decide ((s.blocked 0).map (fun fds => fds.map PollFd.fd) = some [5, 6] ∧
        s.interest 5 = some ⟨0, 0⟩ ∧ s.interest 6 = some ⟨0, 1⟩)) = true := by
    decide +kernel
  obtain ⟨s, hrun, hs⟩ := Run.of_check (fun s a t _ h => (show Polls.Step s a t from h)) hcheck
  obtain ⟨hblocked, h5, h6⟩ := of_decide_eq_true hs
  obtain ⟨fds, hk, hfds⟩ := Option.map_eq_some_iff.mp hblocked
  have hstep : s.Step (.back 0) { s with
      interest := removeFds fds s.interest
      blocked := Function.update s.blocked 0 none } := by
    show (s.blocked 0).map _ = _
    rw [hk]
    rfl
  refine ⟨s, _, hrun, hstep, ((interest_restored_iff hrun).1 _ _ hstep).mpr ?_⟩
  intro fds' hk' p hp
  rw [hk] at hk'
  have hfd : p.fd ∈ [(5 : Int), 6] := by
    rw [← hfds, Option.some.inj hk']
    exact List.mem_map_of_mem hp
  simp only [List.mem_cons, List.not_mem_nil, or_false] at hfd
  cases hfd with
  | inl heq => exact Or.inr ⟨0, by rw [heq]; exact h5⟩
  | inr heq => exact Or.inr ⟨1, by rw [heq]; exact h6⟩

/-- ADD of descriptor 6 fails after 5 has been added: 5 stays registered with an item that is gone. -/
theorem not_interest_restored : ¬ ∀ (as : List PollAction) (s : Polls), Run Polls.Step .init as s →
    (∀ a t, s.Step a t → s.Restores a t) ∧ s.AllLive := by
  intro hclaim
  have hcheck : checkRun Polls.step (fun _ _ => true) .init
      [.poll [⟨5, 1⟩, ⟨6, 1⟩] true (fun i => if i = 1 then some 1 else none) 0]
      (fun s => decide ((s.blocked 0).isNone = true ∧ s.interest 5 = some ⟨0, 0⟩)) = true := by
    decide +kernel
  obtain ⟨s, hrun, hs⟩ := Run.of_check (fun s a t _ h => (show Polls.Step s a t from h)) hcheck
  obtain ⟨hgone, h5⟩ := of_decide_eq_true hs
  exact (hclaim _ s hrun).2 5 ⟨0, 0⟩ h5 (Option.isNone_iff_eq_none.mp hgone)

end RocketCo.CoRoutine
