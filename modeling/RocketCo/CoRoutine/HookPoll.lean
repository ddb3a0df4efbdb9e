/-
  RocketCo.CoRoutine.HookPoll — the hooked `poll` and the size of its timeout.

  The hooked `poll` turns a negative timeout into `INT32_MAX`, merges descriptors that occur twice
  and calls `Co_poll_inner`, which asks the wheel for the deadline `Now + timeout`.  The wheel has
  `DefaultSize = 86400` slots of one millisecond and compares with `Start`, the time of its last
  take-out, so it turns down what lies a day's worth of *seconds*, taken as milliseconds, ahead.

  Main result: `hookPoll_suspends_iff`, for which timeouts the call suspends, and is not resumed
  before an event or the deadline.
-/
import RocketCo.CoRoutine.Suspension

namespace RocketCo.CoRoutine

open RocketCo.Lib

/-! ## §1. The hooked `poll`. -/

/-- `if(timeout < 0) timeout = INT32_MAX`. -/
def pollTimeout (timeout : Int) : Int := if timeout < 0 then int32Max else timeout

/-- One turn of the merging loop. -/
def mergeFd (merge : List PollFd) (p : PollFd) : List PollFd :=
  if merge.any fun q => q.fd = p.fd then
    merge.map fun q => if q.fd = p.fd then { q with events := q.events ||| p.events } else q
  else merge ++ [p]

/-- The array that is passed on: the merged one, when there was something to merge. -/
def mergeFds (fds : List PollFd) : List PollFd :=
  let merge := if 1 < fds.length then fds.foldl mergeFd [] else []
  if fds.length = merge.length ∨ fds.length < 2 then fds else merge

/-- `poll`: the call of `Co_poll_inner` it makes, or `none` for the system's `poll`. -/
def hookPoll (isHook : Bool) (fds : List PollFd) (timeout : Int) (now : Nat) : Option Action :=
  if isHook = false ∨ timeout = 0 then none
  else some (.poll (mergeFds fds) (pollTimeout timeout) now)

/-- The descriptors are those from before and the new one. -/
theorem mem_mergeFd {merge : List PollFd} {p q : PollFd} (hq : q ∈ mergeFd merge p) :
    q.fd ∈ merge.map PollFd.fd ∨ q.fd = p.fd := by
  unfold mergeFd at hq
  by_cases hany : (merge.any fun q => q.fd = p.fd) = true
  · rw [if_pos hany] at hq
    obtain ⟨r, hr, heq⟩ := List.mem_map.mp hq
    by_cases hrp : r.fd = p.fd
    · rw [if_pos hrp] at heq
      rw [← heq]
      exact Or.inr hrp
    · rw [if_neg hrp] at heq
      rw [← heq]
      exact Or.inl (List.mem_map_of_mem hr)
  · rw [if_neg hany] at hq
    cases List.mem_append.mp hq with
    | inl hin => exact Or.inl (List.mem_map_of_mem hin)
    | inr hin => exact Or.inr (by rw [List.mem_singleton.mp hin])

/-- Merging makes no descriptor up. -/
theorem mem_mergeFds {fds : List PollFd} {q : PollFd} (hq : q ∈ mergeFds fds) :
    q.fd ∈ fds.map PollFd.fd := by
  have hfold : ∀ (ps merge : List PollFd), q ∈ ps.foldl mergeFd merge →
      q.fd ∈ merge.map PollFd.fd ∨ q.fd ∈ ps.map PollFd.fd := by
    intro ps
    induction ps with
    | nil => exact fun merge hin => Or.inl (List.mem_map_of_mem hin)
    | cons p ps ih =>
        intro merge hin
        rw [List.map_cons]
        cases ih (mergeFd merge p) hin with
        | inl hold =>
            obtain ⟨r, hr, heq⟩ := List.mem_map.mp hold
            rw [← heq]
            exact (mem_mergeFd hr).imp_right fun h => by rw [h]; exact List.mem_cons_self
        | inr hnew => exact Or.inr (List.mem_cons_of_mem _ hnew)
  unfold mergeFds at hq
  dsimp only at hq
  by_cases hlen : 1 < fds.length
  · rw [if_pos hlen] at hq
    by_cases hsame : fds.length = (fds.foldl mergeFd []).length ∨ fds.length < 2
    · rw [if_pos hsame] at hq
      exact List.mem_map_of_mem hq
    · rw [if_neg hsame] at hq
      exact (hfold fds [] hq).resolve_left List.not_mem_nil
  · rw [if_pos (Or.inr (by omega))] at hq
    exact List.mem_map_of_mem hq

/-! ## §2. A wheel is never early. -/

/-- A clock reading: `int64_t` milliseconds, with room for an `int` timeout. -/
def clockMax : Nat := 2 ^ 63 - 2 ^ 31

variable {N O : Type*} [DecidableEq N] [DecidableEq O] {w : TimeWheel} {l l' : Place O → List N}
  {expire expire' : N → Nat} {now now' n : Nat}

/-- What is linked `j` slots ahead expires at `Start + j` at the latest, and what is out of the wheel
has expired. -/
structure Early (w : TimeWheel) (now : Nat) (l : Place O → List N) (expire : N → Nat) : Prop where
  start_le : w.Start ≤ now
  index_le : toSizeT w.Index ≤ w.Start
  slot : ∀ j < defaultSize, ∀ a ∈ l (.slot (w.ahead j)), expire a ≤ w.Start + j
  out : ∀ o, ∀ a ∈ l (.other o), expire a ≤ now

omit [DecidableEq N] [DecidableEq O] in
/-- The first use of a wheel finds nothing on it. -/
theorem Early.begin (h : Early w now l expire) (hnow : now ≤ now') :
    Early (w.begin now') now' l expire := by
  have hstart := h.start_le
  have hindex := h.index_le
  have hout : ∀ o, ∀ a ∈ l (.other o), expire a ≤ now' := by
    intro o a ha
    exact Nat.le_trans (h.out o a ha) hnow
  unfold TimeWheel.begin
  by_cases hs : w.Start = 0
  · rw [if_pos hs]
    refine ⟨Nat.le_refl _, Nat.zero_le _, ?_, hout⟩
    intro j hj a ha
    have hsame : (⟨now', 0⟩ : TimeWheel).ahead j = w.ahead j := by
      have hzero : toSizeT w.Index = toSizeT 0 := by
        show toSizeT w.Index = 0
        omega
      unfold TimeWheel.ahead
      rw [hzero]
    rw [hsame] at ha
    have := h.slot j hj a ha
    show expire a ≤ now' + j
    omega
  · rw [if_neg hs]
    exact ⟨by omega, hindex, h.slot, hout⟩

omit [DecidableEq N] [DecidableEq O] in
/-- Lists may lose items, deadlines may come down, and expired items may join outside. -/
theorem Early.mono (h : Early w now l expire) (hnow : now ≤ now')
    (hslot : ∀ i, ∀ a ∈ l' (.slot i), a ∈ l (.slot i) ∧ expire' a ≤ expire a)
    (hout : ∀ o, ∀ a ∈ l' (.other o),
      (∃ o', a ∈ l (.other o') ∧ expire' a ≤ expire a) ∨ expire' a ≤ now') :
    Early w now' l' expire' := by
  refine ⟨Nat.le_trans h.start_le hnow, h.index_le, ?_, ?_⟩
  · intro j hj a ha
    obtain ⟨hin, hle⟩ := hslot _ a ha
    exact Nat.le_trans hle (h.slot j hj a hin)
  · intro o a ha
    cases hout o a ha with
    | inl hin =>
        obtain ⟨o', hin, hle⟩ := hin
        exact Nat.le_trans hle (Nat.le_trans (h.out o' a hin) hnow)
    | inr hle => exact hle

omit [DecidableEq N] in
/-- **An accepted item** goes to a slot no later than its deadline. -/
theorem Early.insert (h : Early w now l expire) {a : N} {e : Nat} (hnow : now ≤ now')
    (haccepted : w.Accepts now' e) (hnew : ∀ p, a ∉ l p)
    (hexp : expire' a ≤ e) (hhuge : 2 ^ 63 ≤ e → expire' a = 0)
    (hother : ∀ b, b ≠ a → expire' b ≤ expire b) :
    Early (w.begin now') now' (appended l (.slot (w.deadlineSlot now' e)) a) expire' := by
  have hb := h.begin hnow
  obtain ⟨hlo, hearly, hint⟩ := haccepted
  have hold : ∀ {p b}, b ∈ l p → expire' b ≤ expire b := by
    intro p b hin
    exact hother b fun heq => hnew p (heq ▸ hin)
  refine ⟨hlo, hb.index_le, ?_, ?_⟩
  · intro j hj b hin
    cases mem_appended.mp hin with
    | inl hin => exact Nat.le_trans (hold hin) (hb.slot j hj b hin)
    | inr hsome =>
        obtain ⟨hba, hslot, -⟩ := hsome
        rw [hba]
        by_cases he : 2 ^ 63 ≤ e
        · rw [hhuge he]
          exact Nat.zero_le _
        · -- the interval is exact, so the slot is the one of the deadline
          have hcast : (e - (w.begin now').Start : Int) =
              ((e - (w.begin now').Start : Nat) : Int) := by omega
          have hsmall : e - (w.begin now').Start < 2 ^ 63 := by omega
          have hile := hb.index_le
          have hahead : w.deadlineSlot now' e =
              (w.begin now').ahead (e - (w.begin now').Start) := by
            unfold TimeWheel.deadlineSlot
            rw [hcast, toInt64_of_lt hsmall]
            exact TimeWheel.slotOf_ahead (by omega)
          rw [hcast, toInt64_of_lt hsmall] at hint
          have hje : j = e - (w.begin now').Start := by
            apply TimeWheel.ahead_inj (w := w.begin now') hj (Int.ofNat_lt.mp hint)
            rw [← hahead]
            exact Place.slot.inj hslot
          omega
  · intro o b hin
    cases mem_appended.mp hin with
    | inl hin => exact Nat.le_trans (hold hin) (hb.out o b hin)
    | inr hsome => cases hsome.2.1

omit [DecidableEq N] in
/-- A take-out only takes what has expired. -/
theorem Early.take (h : Early w now l expire) (out : O) (hnow : now ≤ now') (hlt : now' < 2 ^ 64)
    (hsize : n ≤ defaultSize)
    (hpast : (w.begin now').Start ≤ now' → n ≤ now' - (w.begin now').Start + 1) :
    Early (if n = 0 then w.begin now'
        else ⟨now', toInt64 ((w.begin now').Index + ((n : Int) - 1))⟩) now'
      (((List.range n).map fun j => slotOf ((w.begin now').Index + (j : Nat))).foldl (joined out) l)
      expire := by
  have hb := h.begin hnow
  generalize w.begin now' = v at hb hpast
  have hn := hpast hb.start_le
  by_cases h0 : n = 0
  · rw [if_pos h0, h0]
    exact hb
  · rw [if_neg h0]
    obtain ⟨hindex, hout, hslot, hother⟩ :=
      drain_slots l out hb.index_le hb.start_le hlt (Nat.pos_of_ne_zero h0) hsize hn
    have hile := hb.index_le
    have hsle := hb.start_le
    refine ⟨Nat.le_refl _, ?_, ?_, ?_⟩
    · show toSizeT (toInt64 (v.Index + ((n : Int) - 1))) ≤ now'
      omega
    · intro j hj a ha
      rw [hslot j hj] at ha
      by_cases hfar : 0 < j ∧ n - 1 + j < defaultSize
      · rw [if_pos hfar] at ha
        have := hb.slot _ hfar.2 a ha
        show expire a ≤ now' + j
        omega
      · rw [if_neg hfar] at ha
        exact absurd ha List.not_mem_nil
    · intro o a ha
      by_cases ho : o = out
      · rw [ho, hout] at ha
        cases List.mem_append.mp ha with
        | inl hin => exact hb.out out a hin
        | inr hin =>
            obtain ⟨j, hj, haj⟩ := List.mem_flatMap.mp hin
            have hjn := List.mem_range.mp hj
            have := hb.slot j (by omega) a haj
            omega
      · rw [hother o ho] at ha
        exact hb.out o a ha

/-! ## §3. No poll is resumed early. -/

namespace Loop

/-- The clock does not go back. -/
def ClockOk (s : Loop) : Action → Prop
  | .poll _ _ now => s.now ≤ now ∧ now < clockMax
  | .wait _ timeOut now => 0 < timeOut → s.now ≤ now ∧ now < clockMax
  | .takeOut now => s.now ≤ now ∧ now < clockMax
  | _ => True

instance (s : Loop) (a : Action) : Decidable (s.ClockOk a) :=
  match a with
  | .poll _ _ _ => inferInstanceAs (Decidable (_ ∧ _))
  | .wait _ _ _ => inferInstanceAs (Decidable (_ → _))
  | .takeOut _ => inferInstanceAs (Decidable (_ ∧ _))
  | .resume _ | .yeild | .finish | .signal _ | .broadcast _ | .back | .epollWait _ | .prepare
  | .drain => inferInstanceAs (Decidable True)

/-- A step under a monotone clock. -/
def TimedStep (s : Loop) (a : Action) (t : Loop) : Prop := s.Step a t ∧ s.ClockOk a

/-- The deadline of a node, as far as it is a poll's and not beyond every clock reading. -/
def expiry (s : Loop) : Node → Nat
  | .poll k =>
      match s.polls k with
      | some p => if p.ExpireTime < 2 ^ 63 then p.ExpireTime else 0
      | none => 0
  | _ => 0

/-- One of the call's own events was delivered. -/
def Arrived (s : Loop) (k : Nat) (fds : List PollFd) : Prop :=
  ∃ i p, .delivered k i ∈ s.log ∧ fds[i]? = some p

end Loop

/-- What the clock adds to the invariant. -/
structure ClockInv (s : Loop) (v : Lists) : Prop where
  early : Early s.wheel s.now v.event s.expiry
  clock : s.now < clockMax
  arrived : ∀ k p, s.polls k = some p → p.IsHandle = true → s.Arrived k p.fds
  back : ∀ k p, s.polls k = some p → s.Back (.poll k) →
    s.Arrived k p.fds ∨ s.expiry (.poll k) ≤ s.now

variable {s t : Loop} {v v' : Lists} {a : Action}

/-- At the start nothing was polled. -/
theorem ClockInv.init : ClockInv Loop.init ⟨fun _ => [], fun _ => []⟩ := by
  constructor
  case early =>
    exact ⟨Nat.le_refl 0, Nat.le_refl 0, fun _ _ _ ha => absurd ha List.not_mem_nil,
      fun _ _ ha => absurd ha List.not_mem_nil⟩
  case clock => decide
  case arrived => exact fun k p hp => by cases hp
  case back => exact fun k p hp => by cases hp

theorem Loop.Arrived.mono {k : Nat} {fds : List PollFd} (h : s.Arrived k fds)
    (hlog : ∀ e ∈ s.log, e ∈ t.log) : t.Arrived k fds := by
  obtain ⟨i, p, hin, hp⟩ := h
  exact ⟨i, p, hlog _ hin, hp⟩

/-- **Keeping the clock invariant**: what a step owes besides the wheel. -/
theorem ClockInv.keep (h : ClockInv s v) (hclock : t.now < clockMax) (hnow : s.now ≤ t.now)
    (hlog : ∀ e ∈ s.log, e ∈ t.log)
    (hpolls : ∀ k p', t.polls k = some p' →
      (p'.IsHandle = false ∧ ¬ t.Back (.poll k)) ∨
      ∃ p, s.polls k = some p ∧ p'.fds = p.fds ∧ p'.ExpireTime = p.ExpireTime ∧
        (p'.IsHandle = true → p.IsHandle = true ∨ t.Arrived k p.fds))
    (hback : ∀ k p, t.Back (.poll k) → s.polls k = some p →
      s.Back (.poll k) ∨ s.Arrived k p.fds ∨ s.expiry (.poll k) ≤ s.now)
    (hearly : Early t.wheel t.now v'.event t.expiry) : ClockInv t v' := by
  constructor
  case early => exact hearly
  case clock => exact hclock
  case arrived =>
    intro k p' hp' hh
    cases hpolls k p' hp' with
    | inl hnew =>
        rw [hnew.1] at hh
        cases hh
    | inr hold =>
        obtain ⟨p, hp, hfds, -, hhandle⟩ := hold
        rw [hfds]
        cases hhandle hh with
        | inl hh => exact (h.arrived k p hp hh).mono hlog
        | inr harr => exact harr
  case back =>
    intro k p' hp' hb
    cases hpolls k p' hp' with
    | inl hnew => exact absurd hb hnew.2
    | inr hold =>
        obtain ⟨p, hp, hfds, hexp, -⟩ := hold
        have hsame : t.expiry (.poll k) = s.expiry (.poll k) := by
          simp only [Loop.expiry, hp, hp', hexp]
        have hcases : s.Arrived k p.fds ∨ s.expiry (.poll k) ≤ s.now := by
          cases hback k p hb hp with
          | inl hb => exact h.back k p hp hb
          | inr hcases => exact hcases
        rw [hfds, hsame]
        exact hcases.imp (fun harr => harr.mono hlog) fun hle => Nat.le_trans hle hnow

/-- Steps that do not read the clock or touch a `Stpoll_t`, and change lists outside the wheel only
by condition items. -/
theorem ClockInv.quiet (h : ClockInv s v) (hwheel : t.wheel = s.wheel) (hnow : t.now = s.now)
    (hpolls : t.polls = s.polls) (hlog : ∀ e ∈ s.log, e ∈ t.log)
    (hback : ∀ k, t.Back (.poll k) → s.Back (.poll k))
    (hslot : ∀ i, ∀ a ∈ v'.event (.slot i), a ∈ v.event (.slot i))
    (hout : ∀ o, ∀ a ∈ v'.event (.other o),
      (∃ o', a ∈ v.event (.other o')) ∨ ∃ k, a = .cond k) : ClockInv t v' := by
  have hexpiry : t.expiry = s.expiry := by
    funext n
    cases n with
    | poll k => simp only [Loop.expiry, hpolls]
    | item k i => rfl
    | cond k => rfl
  apply h.keep (by rw [hnow]; exact h.clock) (Nat.le_of_eq hnow.symm) hlog
  · intro k p hp
    rw [hpolls] at hp
    exact Or.inr ⟨p, hp, rfl, rfl, Or.inl⟩
  · exact fun k p hb _ => Or.inl (hback k hb)
  · rw [hwheel, hnow, hexpiry]
    apply h.early.mono (Nat.le_refl _)
    · exact fun i a ha => ⟨hslot i a ha, Nat.le_refl _⟩
    · intro o a ha
      cases hout o a ha with
      | inl hin =>
          obtain ⟨o', hin⟩ := hin
          exact Or.inl ⟨o', hin, Nat.le_refl _⟩
      | inr hcond =>
          obtain ⟨k, hk⟩ := hcond
          rw [hk]
          exact Or.inr (Nat.zero_le _)

theorem expiry_update_ne {k : Nat} {r : Option Stpoll}
    (hpolls : t.polls = Function.update s.polls k r) {n : Node} (hn : n ≠ .poll k) :
    t.expiry n = s.expiry n := by
  cases n with
  | poll j =>
      have hj : j ≠ k := fun heq => hn (by rw [heq])
      simp only [Loop.expiry, hpolls, Function.update_of_ne hj]
  | item j i => rfl
  | cond j => rfl

/-- Only the deadline of a `Stpoll_t` matters. -/
theorem expiry_update {k : Nat} {p p' : Stpoll} (hp : s.polls k = some p)
    (hpolls : t.polls = Function.update s.polls k (some p'))
    (hexp : p'.ExpireTime = p.ExpireTime) {n : Node} : t.expiry n = s.expiry n := by
  by_cases hn : n = .poll k
  · simp only [hn, Loop.expiry, hpolls, Function.update_self, hp, hexp]
  · exact expiry_update_ne hpolls hn

/-- A `Stpoll_t` that is deleted has no deadline left. -/
theorem expiry_delete {k : Nat} (hpolls : t.polls = Function.update s.polls k none) (n : Node) :
    t.expiry n ≤ s.expiry n := by
  by_cases hn : n = .poll k
  · simp only [hn, Loop.expiry, hpolls, Function.update_self]
    exact Nat.zero_le _
  · exact Nat.le_of_eq (expiry_update_ne hpolls hn)

theorem polls_of_update {polls : Nat → Option Stpoll} {k j : Nat} {r : Option Stpoll} {q : Stpoll}
    (hq : Function.update polls k r j = some q) : (j = k ∧ r = some q) ∨ polls j = some q := by
  by_cases hj : j = k
  · rw [hj, Function.update_self] at hq
    exact Or.inl ⟨hj, hq⟩
  · rw [Function.update_of_ne hj] at hq
    exact Or.inr hq

/-- A wake-up puts nothing into a slot. -/
theorem woken_slot {l : Place EventLink → List Node} {k i : Nat} {n : Node}
    (hn : n ∈ woken l k (.slot i)) : n ∈ l (.slot i) := by
  cases mem_appended.mp hn with
  | inl hin => exact on_erased hin
  | inr hnew => cases hnew.2.1

theorem woken_other {l : Place EventLink → List Node} {k : Nat} {o : EventLink} {n : Node}
    (hn : n ∈ woken l k (.other o)) : n ∈ l (.other o) ∨ n = .cond k := by
  cases mem_appended.mp hn with
  | inl hin => exact Or.inl (on_erased hin)
  | inr hnew => exact Or.inr hnew.1

theorem foldl_woken_place {n : Node} : ∀ (ks : List Nat) {l : Place EventLink → List Node},
    (∀ i, n ∈ ks.foldl woken l (.slot i) → n ∈ l (.slot i)) ∧
    ∀ o, n ∈ ks.foldl woken l (.other o) → n ∈ l (.other o) ∨ ∃ k, n = .cond k := by
  intro ks
  induction ks with
  | nil => exact ⟨fun i hn => hn, fun o hn => Or.inl hn⟩
  | cons k ks ih =>
      intro l
      rw [List.foldl_cons]
      obtain ⟨hslot, hother⟩ := ih (l := woken l k)
      refine ⟨fun i hn => woken_slot (hslot i hn), fun o hn => ?_⟩
      cases hother o hn with
      | inl hin => exact (woken_other hin).imp_right fun heq => ⟨k, heq⟩
      | inr hcond => exact Or.inr hcond

/-- Joining `TimeoutLink` to `ActiveLink` touches no slot. -/
theorem expired_slot {l : Place EventLink → List Node} {js : List Nat} {i : Nat} {n : Node}
    (hn : n ∈ expired l js (.slot i)) : n ∈ js.foldl (joined .TimeoutLink) l (.slot i) := by
  unfold expired at hn
  rw [Function.update_of_ne (by simp), Function.update_of_ne (by simp)] at hn
  exact hn

theorem expired_other {l : Place EventLink → List Node} {js : List Nat} {o : EventLink} {n : Node}
    (hn : n ∈ expired l js (.other o)) : ∃ o', n ∈ js.foldl (joined .TimeoutLink) l (.other o') := by
  unfold expired at hn
  cases o with
  | TimeoutLink =>
      rw [Function.update_self] at hn
      exact absurd hn List.not_mem_nil
  | ActiveLink =>
      rw [Function.update_of_ne (by simp), Function.update_self] at hn
      cases List.mem_append.mp hn with
      | inl hin => exact ⟨_, hin⟩
      | inr hin => exact ⟨_, hin⟩

/-- **A poll that blocks** is linked in a slot no later than its deadline. -/
theorem ClockInv.block (hc : ClockInv s v) (h : LoopInv s v) {c : Co} {fds : List PollFd} {e now : Nat}
    (hnow : s.now ≤ now) (hlt : now < clockMax) (haccepted : s.wheel.Accepts now e)
    (hwheel : t.wheel = s.wheel.begin now) (hclock : t.now = now)
    (hpolls : t.polls = Function.update s.polls s.next (some ⟨c, fds, e, false, 0⟩))
    (hstage : t.stage = Function.update s.stage c (.blocked (.poll s.next)))
    (hlog : t.log = s.log)
    (hevent : v'.event = appended v.event (.slot (s.wheel.deadlineSlot now e)) (.poll s.next)) :
    ClockInv t v' := by
  have hself : t.expiry (.poll s.next) = if e < 2 ^ 63 then e else 0 := by
    simp only [Loop.expiry, hpolls, Function.update_self]
  have hstay : ∀ k, t.Back (.poll k) → s.Back (.poll k) := by
    intro k hb
    exact (back_of_update hstage hb).resolve_right (by simp)
  refine hc.keep (by rw [hclock]; exact hlt) (by rw [hclock]; exact hnow)
    (fun e he => by rw [hlog]; exact he) ?_ ?_ ?_
  · intro k p hp
    rw [hpolls] at hp
    cases polls_of_update hp with
    | inl hnew =>
        refine Or.inl ⟨by rw [← Option.some.inj hnew.2], fun hb => ?_⟩
        -- no call that is new is on its way back
        rw [hnew.1] at hb
        obtain ⟨d, hd⟩ := hstay _ hb
        have hown := h.owner d _ (Or.inr hd)
        rw [h.next_fresh rfl] at hown
        cases hown
    | inr hold => exact Or.inr ⟨p, hold, rfl, rfl, Or.inl⟩
  · exact fun k p hb _ => Or.inl (hstay k hb)
  · rw [hwheel, hclock, hevent]
    apply hc.early.insert hnow haccepted (h.next_not_linked rfl)
    · rw [hself]
      split
      · exact Nat.le_refl _
      · exact Nat.zero_le _
    · intro he
      rw [hself, if_neg (by omega)]
    · intro n hn
      exact Nat.le_of_eq (expiry_update_ne hpolls hn)

/-- **A `Stpoll_t` that is handled**: an event of its own has arrived, or one had before. -/
theorem ClockInv.handle (hc : ClockInv s v) {k : Nat} {p p' : Stpoll} (hp : s.polls k = some p)
    (hwheel : t.wheel = s.wheel) (hnow : t.now = s.now)
    (hpolls : t.polls = Function.update s.polls k (some p')) (hfds : p'.fds = p.fds)
    (hexp : p'.ExpireTime = p.ExpireTime) (hstage : t.stage = s.stage)
    (hlog : ∀ e ∈ s.log, e ∈ t.log)
    (hhandle : p'.IsHandle = true → p.IsHandle = true ∨ t.Arrived k p.fds)
    (hslot : ∀ i, ∀ n ∈ v'.event (.slot i), n ∈ v.event (.slot i))
    (hother : ∀ o, ∀ n ∈ v'.event (.other o), n ∈ v.event (.other o) ∨ ∃ i, n = .item k i) :
    ClockInv t v' := by
  have hexpiry : ∀ n, t.expiry n = s.expiry n := fun n => expiry_update hp hpolls hexp
  refine hc.keep (by rw [hnow]; exact hc.clock) (Nat.le_of_eq hnow.symm) hlog ?_ ?_ ?_
  · intro j q hq
    rw [hpolls] at hq
    cases polls_of_update hq with
    | inl hnew =>
        rw [hnew.1, ← Option.some.inj hnew.2]
        exact Or.inr ⟨p, hp, hfds, hexp, hhandle⟩
    | inr hold => exact Or.inr ⟨q, hold, rfl, rfl, Or.inl⟩
  · intro j q hb _
    obtain ⟨d, hd⟩ := hb
    rw [hstage] at hd
    exact Or.inl ⟨d, hd⟩
  · rw [hwheel, hnow]
    apply hc.early.mono (Nat.le_refl _)
    · exact fun i n hn => ⟨hslot i n hn, Nat.le_of_eq (hexpiry n)⟩
    · intro o n hn
      cases hother o n hn with
      | inl hin => exact Or.inl ⟨o, hin, Nat.le_of_eq (hexpiry n)⟩
      | inr hitem =>
          obtain ⟨i, hi⟩ := hitem
          rw [hi]
          exact Or.inr (Nat.zero_le _)

/-- **A node that is popped** resumes its call: a poll has expired, or an event of it has arrived. -/
theorem ClockInv.pop (hc : ClockInv s v) (h : LoopInv s v) {n : Node} {ns : List Node} {co : Co}
    (hactive : v.event activeLink = n :: ns) (hwheel : t.wheel = s.wheel) (hnow : t.now = s.now)
    (hpolls : t.polls = s.polls) (hstage : t.stage = Function.update s.stage co (.back n.call))
    (hlog : ∀ e ∈ s.log, e ∈ t.log)
    (hevent : v'.event = Function.update v.event activeLink ns) : ClockInv t v' := by
  have hn : n ∈ v.event activeLink := by
    rw [hactive]
    exact List.mem_cons_self
  have hsub : ∀ p, ∀ m ∈ v'.event p, m ∈ v.event p := by
    intro p m hm
    rw [hevent] at hm
    exact (h.rep.links.mem_popped hactive hm).1
  have hexpiry : ∀ m, t.expiry m = s.expiry m := by
    intro m
    cases m with
    | poll k => simp only [Loop.expiry, hpolls]
    | item k i => rfl
    | cond k => rfl
  refine hc.keep (by rw [hnow]; exact hc.clock) (Nat.le_of_eq hnow.symm) hlog ?_ ?_ ?_
  · intro k p hp
    rw [hpolls] at hp
    exact Or.inr ⟨p, hp, rfl, rfl, Or.inl⟩
  · intro k p hb hp
    cases back_of_update hstage hb with
    | inl hold => exact Or.inl hold
    | inr heq =>
        -- the popped node is the expired `Stpoll_t` itself, or an item of a handled one
        cases n with
        | poll j =>
            cases heq
            exact Or.inr (Or.inr (hc.early.out _ _ hn))
        | item j i =>
            cases heq
            cases hh : p.IsHandle with
            | true => exact Or.inr (Or.inl (hc.arrived _ p hp hh))
            | false => exact absurd ⟨_, hn⟩ (h.unhandled _ p i hp hh)
        | cond j => cases heq
  · rw [hwheel, hnow]
    apply hc.early.mono (Nat.le_refl _)
    · exact fun i m hm => ⟨hsub _ m hm, Nat.le_of_eq (hexpiry m)⟩
    · exact fun o m hm => Or.inl ⟨o, hsub _ m hm, Nat.le_of_eq (hexpiry m)⟩

/-- **Every step under a monotone clock** keeps the clock invariant. -/
theorem ClockInv.step (hc : ClockInv s v) (h : LoopInv s v) (hok : s.Allowed a)
    (hclock : s.ClockOk a) (heff : Effect s v a t v') : ClockInv t v' := by
  -- a coroutine that changes its stage outside of `EventLoop` comes back in no call
  have hstay : ∀ {c : Co} {st : Stage}, t.stage = Function.update s.stage c st →
      (∀ y, st ≠ .back y) → ∀ k, t.Back (.poll k) → s.Back (.poll k) := by
    intro c st hstage hst k hb
    exact (back_of_update hstage hb).resolve_right (hst _)
  have hmem : ∀ (es : List Event) (e : Event), e ∈ s.log → e ∈ s.log ++ es :=
    fun es e he => List.mem_append_left _ he
  cases heff with
  | resume co =>
      exact hc.quiet rfl rfl rfl (fun e he => he) (hstay rfl (by simp)) (fun i n hn => hn)
        fun o n hn => Or.inl ⟨o, hn⟩
  | yeild hs =>
      exact hc.quiet rfl rfl rfl (fun e he => he) (hstay rfl (by simp)) (fun i n hn => hn)
        fun o n hn => Or.inl ⟨o, hn⟩
  | finish hs =>
      exact hc.quiet rfl rfl rfl (fun e he => he) (hstay rfl (by simp)) (fun i n hn => hn)
        fun o n hn => Or.inl ⟨o, hn⟩
  | pollRefused links hrefused =>
      obtain ⟨hnow, hlt⟩ := hclock
      refine hc.keep hlt hnow (hmem _) ?_ ?_ ?_
      · exact fun k p hp => Or.inr ⟨p, hp, rfl, rfl, Or.inl⟩
      · exact fun k p hb _ => Or.inl hb
      · apply (hc.early.begin hnow).mono (Nat.le_refl _)
        · exact fun i n hn => ⟨on_erased hn, Nat.le_refl _⟩
        · exact fun o n hn => Or.inl ⟨o, on_erased hn, Nat.le_refl _⟩
  | pollBlocked links hs haccepted =>
      exact hc.block h hclock.1 hclock.2 haccepted rfl rfl rfl rfl rfl rfl
  | waitRefused ret hrefused htimed =>
      obtain ⟨hnow, hlt⟩ := hclock htimed
      refine hc.keep hlt hnow (hmem _) ?_ ?_ ?_
      · exact fun k p hp => Or.inr ⟨p, hp, rfl, rfl, Or.inl⟩
      · exact fun k p hb _ => Or.inl hb
      · exact hc.early.begin hnow
  | waitTimed links conds hs haccepted htimed =>
      obtain ⟨hnow, hlt⟩ := hclock htimed
      refine hc.keep hlt hnow (hmem _) ?_ ?_ ?_
      · exact fun k p hp => Or.inr ⟨p, hp, rfl, rfl, Or.inl⟩
      · exact fun k p hb _ => Or.inl (hstay rfl (by simp) k hb)
      · exact hc.early.insert hnow haccepted (h.next_not_linked rfl) (Nat.zero_le _)
          (fun _ => rfl) fun n _ => Nat.le_refl _
  | waitUntimed conds hs huntimed =>
      exact hc.quiet rfl rfl rfl (hmem _) (hstay rfl (by simp)) (fun i n hn => hn)
        fun o n hn => Or.inl ⟨o, hn⟩
  | signalNone hcv => exact hc
  | signal links conds hcv =>
      exact hc.quiet rfl rfl rfl (hmem _) (fun k hb => hb) (fun i n hn => woken_slot hn)
        fun o n hn => (woken_other hn).imp (fun hin => ⟨o, hin⟩) fun heq => ⟨_, heq⟩
  | broadcast links conds =>
      exact hc.quiet rfl rfl rfl (hmem _) (fun k hb => hb)
        (fun i n hn => (foldl_woken_place _).1 i hn)
        fun o n hn => ((foldl_woken_place _).2 o hn).imp_left fun hin => ⟨o, hin⟩
  | pollBack links hs hstage hp =>
      refine hc.keep hc.clock (Nat.le_refl _) (hmem _) ?_ ?_ ?_
      · intro j q hq
        cases polls_of_update hq with
        | inl hnew => cases hnew.2
        | inr hold => exact Or.inr ⟨q, hold, rfl, rfl, Or.inl⟩
      · exact fun j q hb _ => Or.inl (hstay rfl (by simp) j hb)
      · apply hc.early.mono (Nat.le_refl _)
        · exact fun i n hn => ⟨on_erased hn, expiry_delete rfl n⟩
        · exact fun o n hn => Or.inl ⟨o, on_erased hn, expiry_delete rfl n⟩
  | waitBack conds hs hstage =>
      exact hc.quiet rfl rfl rfl (hmem _) (hstay rfl (by simp)) (fun i n hn => hn)
        fun o n hn => Or.inl ⟨o, hn⟩
  | epollWait batch =>
      exact hc.quiet rfl rfl rfl (fun e he => he) (fun k hb => hb) (fun i n hn => hn)
        fun o n hn => Or.inl ⟨o, hn⟩
  | prepareAgain hphase hp hhandled =>
      exact hc.handle hp rfl rfl rfl rfl rfl rfl (hmem _) Or.inl (fun i n hn => hn)
        fun o n hn => Or.inl hn
  | @prepare k i rest p links hphase hp hhandled =>
      obtain ⟨q, hq, -, hlt⟩ := (h.round _ hphase).2 (k, i) List.mem_cons_self
      have hqp : q = p := Option.some.inj (hq.symm.trans hp)
      rw [hqp] at hlt
      refine hc.handle hp rfl rfl rfl rfl rfl rfl (hmem _) ?_ ?_ ?_
      · intro _
        exact Or.inr ⟨i, p.fds[i], by simp, List.getElem?_eq_getElem hlt⟩
      · intro j n hn
        cases mem_appended.mp hn with
        | inl hin => exact on_erased hin
        | inr hnew => cases hnew.2.1
      · intro o n hn
        cases mem_appended.mp hn with
        | inl hin => exact Or.inl (on_erased hin)
        | inr hnew => exact Or.inr ⟨i, hnew.1⟩
  | takeOut links hsize hearly hpast hjs =>
      obtain ⟨hnow, hlt⟩ := hclock
      have hlt64 : _ < 2 ^ 64 := Nat.lt_trans hlt (by decide)
      refine hc.keep hlt hnow (hmem _) ?_ ?_ ?_
      · exact fun k p hp => Or.inr ⟨p, hp, rfl, rfl, Or.inl⟩
      · exact fun k p hb _ => Or.inl hb
      · have htake := hc.early.take EventLink.TimeoutLink hnow hlt64 hsize hpast
        rw [← hjs] at htake
        apply htake.mono (Nat.le_refl _)
        · exact fun i m hm => ⟨expired_slot hm, Nat.le_refl _⟩
        · intro o m hm
          obtain ⟨o', hin⟩ := expired_other hm
          exact Or.inl ⟨o', hin, Nat.le_refl _⟩
  | drainOver hempty =>
      exact hc.quiet rfl rfl rfl (fun e he => he) (fun k hb => hb) (fun i n hn => hn)
        fun o n hn => Or.inl ⟨o, hn⟩
  | drain links hactive hco => exact hc.pop h hactive rfl rfl rfl rfl (hmem _) rfl

/-- Both invariants, and whatever else every effect preserves, in every state of every run under a
monotone clock. -/
theorem ClockInv.of_run {as : List Action} {u : Loop} {P : Loop → Prop}
    (hP : ∀ s v a t w, Effect s v a t w → P s → P t) (hrun : Run Loop.TimedStep s as u)
    (h : LoopInv s v) (hc : ClockInv s v) (hs : P s) : ∃ w, LoopInv u w ∧ ClockInv u w ∧ P u := by
  have hkeep : ∀ s a t, (∃ w, LoopInv s w ∧ ClockInv s w ∧ P s) → Loop.TimedStep s a t →
      ∃ w, LoopInv t w ∧ ClockInv t w ∧ P t := by
    intro s a t hinv hstep
    obtain ⟨w, h, hc, hs⟩ := hinv
    obtain ⟨⟨hok, hcode⟩, hclock⟩ := hstep
    obtain ⟨t', w', hcode', heff, h'⟩ := h.run_step hok
    have heq : t = t' := Option.some.inj (hcode.symm.trans hcode')
    rw [heq]
    exact ⟨w', h', hc.step h hok hclock heff, hP _ _ _ _ _ heff hs⟩
  exact Run.invariant (I := fun s => ∃ w, LoopInv s w ∧ ClockInv s w ∧ P s) hkeep hrun
    ⟨v, h, hc, hs⟩

/-! ## §4. The calls that suspend. -/

/-- A `Stpoll_t` keeps its deadline and its descriptors, and its address is not used again. -/
theorem record_step {k e : Nat} {fds : List PollFd} (heff : Effect s v a t v')
    (hs : k < s.next ∧ ∀ p, s.polls k = some p → p.ExpireTime = e ∧ p.fds = fds) :
    k < t.next ∧ ∀ p, t.polls k = some p → p.ExpireTime = e ∧ p.fds = fds := by
  obtain ⟨hk, hrec⟩ := hs
  -- an update of another entry, or of this one with the same data
  have hupdate : ∀ (j : Nat) (q : Option Stpoll),
      (j = k → ∀ p, q = some p → p.ExpireTime = e ∧ p.fds = fds) →
      ∀ p, Function.update s.polls j q k = some p → p.ExpireTime = e ∧ p.fds = fds := by
    intro j q hq p hp
    by_cases hj : k = j
    · rw [hj, Function.update_self] at hp
      exact hq hj.symm p hp
    · rw [Function.update_of_ne hj] at hp
      exact hrec p hp
  cases heff with
  | pollBlocked links hs haccepted =>
      refine ⟨Nat.lt_succ_of_lt hk, hupdate _ _ fun hj => ?_⟩
      exact absurd hj (Nat.ne_of_gt hk)
  | pollRefused links hrefused => exact ⟨Nat.lt_succ_of_lt hk, hrec⟩
  | waitRefused ret hrefused htimed => exact ⟨Nat.lt_succ_of_lt hk, hrec⟩
  | waitTimed links conds hs haccepted htimed => exact ⟨Nat.lt_succ_of_lt hk, hrec⟩
  | waitUntimed conds hs huntimed => exact ⟨Nat.lt_succ_of_lt hk, hrec⟩
  | pollBack links hs hstage hp =>
      refine ⟨hk, hupdate _ _ fun _ p hp => ?_⟩
      cases hp
  | @prepareAgain j i rest q hphase hq hhandled =>
      refine ⟨hk, hupdate _ _ fun hj p' hp' => ?_⟩
      cases hp'
      exact hrec q (by rw [← hj]; exact hq)
  | @prepare j i rest q links hphase hq hhandled =>
      refine ⟨hk, hupdate _ _ fun hj p' hp' => ?_⟩
      cases hp'
      exact hrec q (by rw [← hj]; exact hq)
  | _ => exact ⟨hk, hrec⟩

/-- The timeout handed to `Co_poll_inner` is a positive `int`. -/
theorem pollTimeout_bounds {timeout : Int} (h0 : timeout ≠ 0) (hint : timeout < 2 ^ 31) :
    0 < pollTimeout timeout ∧ pollTimeout timeout < 2 ^ 31 := by
  unfold pollTimeout int32Max
  split <;> omega

/-- The wheel's answer to a hooked `poll`. -/
theorem accepts_iff {timeout : Int} (hstart : (s.wheel.begin now).Start ≤ now)
    (hlt : now < clockMax) (h0 : timeout ≠ 0) (hint : timeout < 2 ^ 31) :
    s.wheel.Accepts now (toSizeT (now + pollTimeout timeout)) ↔
      (now - (s.wheel.begin now).Start : Int) + pollTimeout timeout < defaultSize := by
  have hb := pollTimeout_bounds h0 hint
  unfold TimeWheel.Accepts
  unfold clockMax at hlt
  generalize pollTimeout timeout = d at hb ⊢
  generalize (s.wheel.begin now).Start = start at hstart ⊢
  -- no conversion loses anything
  have hexpire : (toSizeT (now + d) : Int) = now + d := by
    unfold toSizeT
    omega
  have hinterval : toInt64 (toSizeT (now + d) - start : Int) = now + d - start := by
    rw [hexpire]
    unfold toInt64
    omega
  rw [hinterval]
  constructor
  · intro h
    have := h.2.2
    omega
  · intro h
    exact ⟨hstart, by omega, by omega⟩

/-- **When the hooked `poll` suspends.**  In every state of every run, for every timeout but zero: the
call suspends the coroutine, and in no continuation is it resumed before one of its events or the
full timeout, if and only if the time since the wheel's `Start` and the timeout together are less
than `DefaultSize` milliseconds. -/
theorem hookPoll_suspends_iff {as : List Action} (hrun : Run Loop.TimedStep Loop.init as s)
    {fds : List PollFd} {timeout : Int} (hpoll : hookPoll true fds timeout now = some a)
    (hint : timeout < 2 ^ 31) (hok : s.Allowed a) (hclock : s.ClockOk a) :
    (∃ t, s.step a = some t ∧ (∃ c ∈ getCurrCo s, t.stage c = .blocked (.poll s.next)) ∧
      ∀ bs u, Run Loop.TimedStep t bs u → u.Back (.poll s.next) →
        (∃ i p, .delivered s.next i ∈ u.log ∧ (mergeFds fds)[i]? = some p ∧
          p.fd ∈ fds.map PollFd.fd) ∨
        now + pollTimeout timeout ≤ u.now) ↔
    (now - (s.wheel.begin now).Start : Int) + pollTimeout timeout < defaultSize := by
  have h0 : timeout ≠ 0 := by
    intro heq
    simp [hookPoll, heq] at hpoll
  have ha : a = .poll (mergeFds fds) (pollTimeout timeout) now := by
    simp only [hookPoll, h0, or_false, Bool.true_eq_false, if_false] at hpoll
    exact (Option.some.inj hpoll).symm
  subst ha
  obtain ⟨v, h, hc, -⟩ := ClockInv.of_run (P := fun _ => True) (fun _ _ _ _ _ _ _ => trivial) hrun
    LoopInv.init ClockInv.init trivial
  obtain ⟨hnow, hlt⟩ := hclock
  have hiff := accepts_iff (s := s) (hc.early.begin hnow).start_le hlt h0 hint
  obtain ⟨t, w, hstep, heff, ht⟩ := h.run_step hok
  have htc : ClockInv t w := hc.step h hok ⟨hnow, hlt⟩ heff
  rw [← hiff]
  constructor
  · intro hsuspends
    obtain ⟨t', hstep', ⟨c, hcur, hblocked⟩, -⟩ := hsuspends
    rw [hstep] at hstep'
    cases hstep'
    cases heff with
    | pollBlocked links hs haccepted => exact haccepted
    | pollRefused links hrefused =>
        -- the coroutine still runs
        exact absurd hblocked (running_not_blocked hok.1 hcur _)
  · intro haccepts
    refine ⟨t, hstep, ?_⟩
    cases heff with
    | pollRefused links hrefused => exact absurd haccepts hrefused
    | @pollBlocked c rest _ _ _ links hs haccepted =>
        refine ⟨⟨c, getCurrCo_eq hs, Function.update_self _ _ _⟩, ?_⟩
        intro bs u hrest hback
        -- the call's record stays what it is, up to the moment it is resumed
        obtain ⟨v', hu, huc, -, hrec⟩ := ClockInv.of_run (fun _ _ _ _ _ => record_step) hrest ht htc
          (show s.next < s.next + 1 ∧ ∀ p, Function.update s.polls s.next _ s.next = some p →
              p.ExpireTime = toSizeT (now + pollTimeout timeout) ∧ p.fds = mergeFds fds by
            refine ⟨Nat.lt_succ_self _, fun p hp => ?_⟩
            rw [Function.update_self] at hp
            cases hp
            exact ⟨rfl, rfl⟩)
        obtain ⟨d, hd⟩ := hback
        obtain ⟨p, hp, -⟩ := Option.map_eq_some_iff.mp (hu.owner d _ (Or.inr hd))
        obtain ⟨hexpire, hfds⟩ := hrec p hp
        cases huc.back s.next p hp ⟨d, hd⟩ with
        | inl harrived =>
            obtain ⟨i, q, hin, hq⟩ := harrived
            rw [hfds] at hq
            exact Or.inl ⟨i, q, hin, hq, mem_mergeFds (List.mem_of_getElem? hq)⟩
        | inr hdue =>
            have hb := pollTimeout_bounds h0 hint
            have hval : (toSizeT (now + pollTimeout timeout) : Int) = now + pollTimeout timeout := by
              unfold clockMax at hlt
              unfold toSizeT
              omega
            have hsmall : toSizeT (now + pollTimeout timeout) < 2 ^ 63 := by
              unfold clockMax at hlt
              omega
            simp only [Loop.expiry, hp, hexpire, hsmall, if_true] at hdue
            exact Or.inr (by omega)

/-- A coroutine asks for 1000 ms, half a minute after the wheel's last take-out. -/
theorem hookPoll_suspends_stale : ∃ s t, Run Loop.TimedStep Loop.init
    [.epollWait [], .takeOut 5000, .drain, .resume 1] s ∧
    s.step (.poll [⟨3, 1⟩] 1000 35000) = some t ∧
    ∀ bs u, Run Loop.TimedStep t bs u → u.Back (.poll 0) →
      (∃ i p, .delivered 0 i ∈ u.log ∧ (mergeFds [⟨3, 1⟩])[i]? = some p ∧
        p.fd ∈ [(⟨3, 1⟩ : PollFd)].map PollFd.fd) ∨ (35000 : Nat) + pollTimeout 1000 ≤ u.now := by
  have hcheck : checkRun Loop.step (fun s a => decide (s.Allowed a ∧ s.ClockOk a)) Loop.init
      [.epollWait [], .takeOut 5000, .drain, .resume 1]
      (fun s => decide (s.Allowed (.poll [⟨3, 1⟩] 1000 35000) ∧
        s.ClockOk (.poll [⟨3, 1⟩] 1000 35000) ∧ s.next = 0 ∧
        (s.wheel.begin 35000).Start = 5000)) = true := by
    decide +kernel
  have hof : ∀ (s : Loop) a t, decide (s.Allowed a ∧ s.ClockOk a) = true → s.step a = some t →
      s.TimedStep a t := fun s a t hok hstep =>
    ⟨⟨(of_decide_eq_true hok).1, hstep⟩, (of_decide_eq_true hok).2⟩
  obtain ⟨s, hrun, hs⟩ := Run.of_check hof hcheck
  obtain ⟨hok, hclock, hnext, hstart⟩ := of_decide_eq_true hs
  have hpoll : hookPoll true [⟨3, 1⟩] 1000 35000 = some (.poll [⟨3, 1⟩] 1000 35000) := by decide
  have hcond : ((35000 : Nat) - (s.wheel.begin 35000).Start : Int) + pollTimeout 1000 <
      defaultSize := by
    rw [hstart]
    decide
  obtain ⟨t, hstep, -, hlate⟩ :=
    (hookPoll_suspends_iff hrun hpoll (by decide) hok hclock).mpr hcond
  rw [hnext] at hlate
  exact ⟨s, t, hrun, hstep, hlate⟩

/-- A coroutine asks for an infinite wait on a wheel never used before: `Co_poll_inner` returns `-1`
at once and the coroutine runs on. -/
theorem not_hookPoll_suspends : ∃ s a t, Run Loop.TimedStep Loop.init [.resume 1] s ∧
    hookPoll true [⟨3, 1⟩] (-1) 5000 = some a ∧ s.Allowed a ∧ s.ClockOk a ∧ s.step a = some t ∧
    t.stage 1 = .running ∧ .returned (.poll 0) (-1) ∈ t.log := by
  have hcheck : checkRun Loop.step (fun s a => decide (s.Allowed a ∧ s.ClockOk a)) Loop.init
      [.resume 1] (fun s => decide (s.Allowed (.poll [⟨3, 1⟩] int32Max 5000) ∧
        s.ClockOk (.poll [⟨3, 1⟩] int32Max 5000) ∧
        ∃ t ∈ s.step (.poll [⟨3, 1⟩] int32Max 5000), t.stage 1 = .running ∧
          .returned (.poll 0) (-1) ∈ t.log)) = true := by
    decide +kernel
  have hof : ∀ (s : Loop) a t, decide (s.Allowed a ∧ s.ClockOk a) = true → s.step a = some t →
      s.TimedStep a t := fun s a t hok hstep =>
    ⟨⟨(of_decide_eq_true hok).1, hstep⟩, (of_decide_eq_true hok).2⟩
  obtain ⟨s, hrun, hs⟩ := Run.of_check hof hcheck
  obtain ⟨hok, hclock, t, hstep, hstage, hret⟩ := of_decide_eq_true hs
  exact ⟨s, _, t, hrun, rfl, hok, hclock, hstep, hstage, hret⟩

end RocketCo.CoRoutine
