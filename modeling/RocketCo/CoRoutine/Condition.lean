/-
  RocketCo.CoRoutine.Condition — who wakes a waiter: a signal, a broadcast or its timeout.

  A waiter is on two lists at once, the one of its condition variable and the wheel.  Its timeout
  takes it off the wheel and puts it on `ActiveLink`; it leaves the list of the condition variable
  only when it runs again.  A signal that comes in between pops a waiter that was to wake anyway.

  Over any run that leaves `ActiveLink` empty the waiters resumed are those popped or timed out, so

      resumed = signals + broadcasts + timeouts

  holds exactly when no waiter was popped that had timed out before.

  Main result: `signal_counts_iff`.
-/
import RocketCo.CoRoutine.Suspension
import Mathlib.Data.Finset.Card

namespace RocketCo.CoRoutine

open RocketCo.Lib

/-! ## §1. What is counted. -/

def Event.waited? (cv : Nat) : Event → Option Nat
  | .waited cv' k => if cv' = cv then some k else none
  | _ => none

def Event.signalled? (cv : Nat) : Event → Option Nat
  | .signalled cv' k => if cv' = cv then some k else none
  | _ => none

def Event.broadcast? (cv : Nat) : Event → Option Nat
  | .broadcast cv' k => if cv' = cv then some k else none
  | _ => none

namespace Loop

/-- The items that were put on the list of `cv`. -/
def waiters (s : Loop) (cv : Nat) : List Nat := s.log.filterMap (Event.waited? cv)

/-- What the `ConditionVariableSignal`s on `cv` that returned `0` popped. -/
def signals (s : Loop) (cv : Nat) : List Nat := s.log.filterMap (Event.signalled? cv)

/-- What the `ConditionVariableBroadcast`s on `cv` popped. -/
def broadcasts (s : Loop) (cv : Nat) : List Nat := s.log.filterMap (Event.broadcast? cv)

def popped (s : Loop) (cv : Nat) : List Nat := s.signals cv ++ s.broadcasts cv

/-- The waiters of `cv` that their timeout took out of the wheel. -/
def timedOut (s : Loop) (cv : Nat) : List Nat :=
  (s.waiters cv).filter fun k => decide (Event.takenOut (.cond k) ∈ s.log)

/-- The waiters of `cv` that the event loop resumed. -/
def resumedWaiters (s : Loop) (cv : Nat) : List Nat :=
  (s.waiters cv).filter fun k => decide (Event.resumed (.cond k) ∈ s.log)

/-- The action pops no waiter of `cv` that is on `ActiveLink` already. -/
def PopsUnscheduled (s : Loop) (cv : Nat) : Action → Prop
  | .signal cv' =>
      cv' = cv → ∀ k ∈ (s.conds.items cv).head?, Node.cond k ∉ s.links.items activeLink
  | .broadcast cv' => cv' = cv → ∀ k ∈ s.conds.items cv, Node.cond k ∉ s.links.items activeLink
  | _ => True

/-- Some waiter of `cv` was popped and had timed out as well. -/
def Absorbed (s : Loop) (cv : Nat) : Prop :=
  ∃ k ∈ s.popped cv, Event.takenOut (.cond k) ∈ s.log

end Loop

/-- The event is about the list of a condition variable. -/
def Event.ofCond : Event → Bool
  | .waited _ _ | .signalled _ _ | .broadcast _ _ => true
  | _ => false

variable {s t : Loop} {v w : Lists} {a : Action} {cv : Nat} {es : List Event}

theorem waiters_append (hlog : t.log = s.log ++ es) (cv : Nat) :
    t.waiters cv = s.waiters cv ++ es.filterMap (Event.waited? cv) := by
  unfold Loop.waiters
  rw [hlog, List.filterMap_append]

theorem signals_append (hlog : t.log = s.log ++ es) (cv : Nat) :
    t.signals cv = s.signals cv ++ es.filterMap (Event.signalled? cv) := by
  unfold Loop.signals
  rw [hlog, List.filterMap_append]

theorem broadcasts_append (hlog : t.log = s.log ++ es) (cv : Nat) :
    t.broadcasts cv = s.broadcasts cv ++ es.filterMap (Event.broadcast? cv) := by
  unfold Loop.broadcasts
  rw [hlog, List.filterMap_append]

/-- Other events change nothing of what is counted. -/
theorem counts_append (hlog : t.log = s.log ++ es) (hes : ∀ e ∈ es, e.ofCond = false) (cv : Nat) :
    t.waiters cv = s.waiters cv ∧ t.popped cv = s.popped cv := by
  have hnone : ∀ f : Event → Option Nat, (∀ e, e.ofCond = false → f e = none) →
      es.filterMap f = [] :=
    fun f hf => List.filterMap_eq_nil_iff.mpr fun e he => hf e (hes e he)
  have hwaited : es.filterMap (Event.waited? cv) = [] :=
    hnone _ fun e he => by cases e <;> first | rfl | cases he
  have hsignalled : es.filterMap (Event.signalled? cv) = [] :=
    hnone _ fun e he => by cases e <;> first | rfl | cases he
  have hbroadcast : es.filterMap (Event.broadcast? cv) = [] :=
    hnone _ fun e he => by cases e <;> first | rfl | cases he
  unfold Loop.popped
  rw [waiters_append hlog, signals_append hlog, broadcasts_append hlog]
  rw [hwaited, hsignalled, hbroadcast]
  simp only [List.append_nil]
  exact ⟨trivial, trivial⟩

/-! ## §2. `ActiveLink` after an effect. -/

theorem erased_not_mem {l : Place EventLink → List Node} {n : Node} (hnd : ∀ h, (l h).Nodup)
    (h : Place EventLink) : n ∉ erased l n h := by
  intro hin
  exact (((hnd h).mem_erase_iff).mp hin).1 rfl

/-- `wake` moves one item to the end of `ActiveLink`. -/
theorem woken_eq {l : Place EventLink → List Node} {k : Nat} (hnd : ∀ h, (l h).Nodup) :
    woken l k = Function.update (erased l (.cond k)) activeLink
      (erased l (.cond k) activeLink ++ [.cond k]) := by
  unfold woken appended
  rw [if_neg]
  intro hin
  obtain ⟨g, hg⟩ := hin
  exact erased_not_mem hnd g hg

theorem mem_woken {l : Place EventLink → List Node} {k : Nat} (hnd : ∀ h, (l h).Nodup)
    {m : Node} : m ∈ woken l k activeLink ↔ m = .cond k ∨ m ∈ l activeLink := by
  rw [woken_eq hnd, Function.update_self, List.mem_append, List.mem_singleton]
  by_cases hm : m = .cond k
  · simp [hm]
  · simp only [hm, or_false, false_or]
    exact List.mem_erase_of_ne hm

theorem nodup_woken {l : Place EventLink → List Node} {k : Nat} (hnd : ∀ h, (l h).Nodup)
    (h : Place EventLink) : (woken l k h).Nodup := by
  rw [woken_eq hnd]
  by_cases hh : h = activeLink
  · rw [hh, Function.update_self]
    apply List.nodup_append.mpr
    refine ⟨(hnd activeLink).erase _, List.nodup_singleton _, ?_⟩
    intro a ha b hb heq
    rw [heq, List.mem_singleton.mp hb] at ha
    exact erased_not_mem hnd activeLink ha
  · rw [Function.update_of_ne hh]
    exact (hnd h).erase _

theorem woken_timeout {l : Place EventLink → List Node} {k : Nat} (hnd : ∀ h, (l h).Nodup)
    (hempty : l timeoutLink = []) : woken l k timeoutLink = [] := by
  have hne : timeoutLink ≠ activeLink := by decide
  rw [woken_eq hnd, Function.update_of_ne hne]
  exact erased_nil hempty _

/-- The loop of `ConditionVariableBroadcast` moves the whole list there. -/
theorem foldl_woken_spec : ∀ (ks : List Nat) {l : Place EventLink → List Node},
    (∀ h, (l h).Nodup) → l timeoutLink = [] → ks.foldl woken l timeoutLink = [] ∧
    ∀ m, m ∈ ks.foldl woken l activeLink ↔ (∃ k ∈ ks, m = .cond k) ∨ m ∈ l activeLink := by
  intro ks
  induction ks with
  | nil =>
      intro l hnd hempty
      exact ⟨hempty, fun m => by simp⟩
  | cons k ks ih =>
      intro l hnd hempty
      obtain ⟨htimeout, hmem⟩ := ih (nodup_woken (k := k) hnd) (woken_timeout hnd hempty)
      refine ⟨htimeout, fun m => ?_⟩
      rw [List.foldl_cons, hmem, mem_woken hnd]
      simp only [List.mem_cons, exists_eq_or_imp]
      rw [or_left_comm, or_assoc]

/-- What has expired, and what was there, is on `ActiveLink`. -/
theorem mem_expired_active {l : Place EventLink → List Node} {js : List Nat} {m : Node} :
    m ∈ expired l js activeLink ↔
      m ∈ l activeLink ∨ m ∈ js.foldl (joined .TimeoutLink) l timeoutLink := by
  obtain ⟨-, -, hother⟩ := foldl_joined_moves EventLink.TimeoutLink js l
  have hne : activeLink ≠ timeoutLink := by decide
  unfold expired
  rw [Function.update_of_ne hne, Function.update_self, List.mem_append]
  rw [hother .ActiveLink (by decide)]

/-! ## §3. The invariant. -/

/-- **Who is scheduled to wake**: a waiter that was popped or has timed out is on `ActiveLink` until it
is resumed, and no other waiter is. -/
structure CondInv (s : Loop) (v : Lists) : Prop where
  timeout : v.event timeoutLink = []
  distinct : ∀ cv, (s.waiters cv).Nodup
  apart : ∀ cv cv' k, k ∈ s.waiters cv → k ∈ s.waiters cv' → cv = cv'
  fresh : ∀ cv k, k ∈ s.waiters cv → k < s.next
  taken : ∀ k, Event.takenOut (.cond k) ∈ s.log → k < s.next
  listed : ∀ cv k, k ∈ v.cond cv → k ∈ s.waiters cv ∧ k ∉ s.popped cv
  once : ∀ cv, (s.popped cv).Nodup
  known : ∀ cv k, k ∈ s.popped cv → k ∈ s.waiters cv
  scheduled : ∀ cv k, k ∈ s.waiters cv →
    (k ∈ s.popped cv ∨ Event.takenOut (.cond k) ∈ s.log ↔
      Event.resumed (.cond k) ∈ s.log ∨ Node.cond k ∈ v.event activeLink)

theorem CondInv.init : CondInv Loop.init ⟨fun _ => [], fun _ => []⟩ := by
  constructor
  case timeout => rfl
  case distinct => exact fun _ => List.nodup_nil
  case apart => exact fun _ _ _ h => absurd h List.not_mem_nil
  case fresh => exact fun _ _ h => absurd h List.not_mem_nil
  case taken => exact fun _ h => absurd h List.not_mem_nil
  case listed => exact fun _ _ h => absurd h List.not_mem_nil
  case once => exact fun _ => List.nodup_nil
  case known => exact fun _ _ h => absurd h List.not_mem_nil
  case scheduled => exact fun _ _ h => absurd h List.not_mem_nil

/-- What the event loop resumed is in the record of resumed calls. -/
theorem mem_resumed {k : Nat} (h : Event.resumed (.cond k) ∈ s.log) : Call.wait k ∈ s.resumed :=
  List.mem_filterMap.mpr ⟨_, h, rfl⟩

/-- A waiter in user code's reach has not been resumed. -/
theorem LoopInv.not_resumed (h : LoopInv s v) {k : Nat} (hb : s.Blocked (.wait k)) :
    Event.resumed (.cond k) ∉ s.log :=
  fun hin => (h.once _ (mem_resumed hin)).2 hb

/-- **No waiter comes, none is popped.** -/
theorem CondInv.keep (hc : CondInv s v) (hlog : t.log = s.log ++ es)
    (hes : ∀ e ∈ es, e.ofCond = false) (hnext : s.next ≤ t.next)
    (htimeout : w.event timeoutLink = []) (hcond : ∀ cv k, k ∈ w.cond cv → k ∈ v.cond cv)
    (htaken : ∀ k, Event.takenOut (.cond k) ∈ es → k < s.next)
    (hscheduled : ∀ cv k, k ∈ s.waiters cv →
      (k ∈ s.popped cv ∨ Event.takenOut (.cond k) ∈ t.log ↔
        Event.resumed (.cond k) ∈ t.log ∨ Node.cond k ∈ w.event activeLink)) : CondInv t w := by
  have hwaiters : ∀ cv, t.waiters cv = s.waiters cv := fun cv => (counts_append hlog hes cv).1
  have hpopped : ∀ cv, t.popped cv = s.popped cv := fun cv => (counts_append hlog hes cv).2
  constructor
  case timeout => exact htimeout
  case distinct => exact fun cv => by rw [hwaiters]; exact hc.distinct cv
  case apart => exact fun cv cv' k => by rw [hwaiters, hwaiters]; exact hc.apart cv cv' k
  case fresh =>
    intro cv k hk
    rw [hwaiters] at hk
    exact Nat.lt_of_lt_of_le (hc.fresh cv k hk) hnext
  case taken =>
    intro k hk
    rw [hlog] at hk
    cases List.mem_append.mp hk with
    | inl hin => exact Nat.lt_of_lt_of_le (hc.taken k hin) hnext
    | inr hin => exact Nat.lt_of_lt_of_le (htaken k hin) hnext
  case listed =>
    intro cv k hk
    rw [hwaiters, hpopped]
    exact hc.listed cv k (hcond cv k hk)
  case once => exact fun cv => by rw [hpopped]; exact hc.once cv
  case known => exact fun cv k => by rw [hpopped, hwaiters]; exact hc.known cv k
  case scheduled =>
    intro cv k hk
    rw [hwaiters] at hk
    rw [hpopped]
    exact hscheduled cv k hk

/-- **Nothing happens to waiters.** -/
theorem CondInv.quiet (hc : CondInv s v) (hlog : t.log = s.log ++ es)
    (hes : ∀ e ∈ es, e.ofCond = false) (htaken : ∀ k, Event.takenOut (.cond k) ∉ es)
    (hresumed : ∀ k, Event.resumed (.cond k) ∉ es) (hnext : s.next ≤ t.next)
    (htimeout : w.event timeoutLink = [])
    (hactive : ∀ k, Node.cond k ∈ w.event activeLink ↔ Node.cond k ∈ v.event activeLink)
    (hcond : ∀ cv k, k ∈ w.cond cv → k ∈ v.cond cv) : CondInv t w ∧
      ∀ cv, t.Absorbed cv ↔ s.Absorbed cv := by
  have htaken' : ∀ k, Event.takenOut (.cond k) ∈ t.log ↔ Event.takenOut (.cond k) ∈ s.log := by
    intro k
    rw [hlog, List.mem_append, or_iff_left (htaken k)]
  have hresumed' : ∀ k, Event.resumed (.cond k) ∈ t.log ↔ Event.resumed (.cond k) ∈ s.log := by
    intro k
    rw [hlog, List.mem_append, or_iff_left (hresumed k)]
  constructor
  · apply hc.keep hlog hes hnext htimeout hcond (fun k hk => absurd hk (htaken k))
    intro cv k hk
    rw [htaken', hresumed', hactive]
    exact hc.scheduled cv k hk
  · intro cv
    unfold Loop.Absorbed
    simp only [(counts_append hlog hes cv).2, htaken']

/-- Neither the log nor a list changes. -/
theorem CondInv.still (hc : CondInv s v) (hlog : t.log = s.log) (hnext : t.next = s.next) :
    CondInv t v ∧ ∀ cv, t.Absorbed cv ↔ s.Absorbed cv := by
  have hlog' : t.log = s.log ++ [] := by rw [hlog, List.append_nil]
  exact hc.quiet hlog' (by simp) (by simp) (by simp) (Nat.le_of_eq hnext.symm) hc.timeout
    (fun _ => Iff.rfl) fun _ _ hk => hk

/-- **A new waiter.** -/
theorem CondInv.enter (hc : CondInv s v) (h : LoopInv s v) {cv₀ : Nat}
    (hlog : t.log = s.log ++ [.waited cv₀ s.next]) (hnext : t.next = s.next + 1)
    (htimeout : w.event timeoutLink = [])
    (hactive : ∀ k, Node.cond k ∈ w.event activeLink ↔ Node.cond k ∈ v.event activeLink)
    (hcond : ∀ cv k, k ∈ w.cond cv → k ∈ v.cond cv ∨ k = s.next ∧ cv = cv₀) : CondInv t w ∧
      ∀ cv, t.Absorbed cv ↔ s.Absorbed cv := by
  have hwaiters : ∀ cv k, k ∈ t.waiters cv ↔ k ∈ s.waiters cv ∨ k = s.next ∧ cv = cv₀ := by
    intro cv k
    rw [waiters_append hlog, List.mem_append]
    by_cases hcv : cv₀ = cv
    · simp [Event.waited?, hcv]
    · simp [Event.waited?, hcv, Ne.symm hcv]
  have hpopped : ∀ cv, t.popped cv = s.popped cv := by
    intro cv
    unfold Loop.popped
    rw [signals_append hlog, broadcasts_append hlog]
    show s.signals cv ++ [] ++ (s.broadcasts cv ++ []) = _
    rw [List.append_nil, List.append_nil]
  have htaken : ∀ k, Event.takenOut (.cond k) ∈ t.log ↔ Event.takenOut (.cond k) ∈ s.log := by
    intro k
    simp [hlog]
  have hresumed : ∀ k, Event.resumed (.cond k) ∈ t.log ↔ Event.resumed (.cond k) ∈ s.log := by
    intro k
    simp [hlog]
  have hnew : ∀ cv, s.next ∉ s.waiters cv :=
    fun cv hin => Nat.lt_irrefl _ (hc.fresh cv _ hin)
  constructor
  · constructor
    case timeout => exact htimeout
    case distinct =>
      intro cv
      rw [waiters_append hlog]
      by_cases hcv : cv₀ = cv
      · simp only [Event.waited?, hcv, if_true, List.filterMap_cons, List.filterMap_nil]
        apply List.nodup_append.mpr
        refine ⟨hc.distinct cv, List.nodup_singleton _, ?_⟩
        intro a ha b hb heq
        rw [heq, List.mem_singleton.mp hb] at ha
        exact hnew cv ha
      · simp only [Event.waited?, hcv, if_false, List.filterMap_cons, List.filterMap_nil,
          List.append_nil]
        exact hc.distinct cv
    case apart =>
      intro cv cv' k hk hk'
      rw [hwaiters] at hk hk'
      cases hk with
      | inl hin =>
          cases hk' with
          | inl hin' => exact hc.apart cv cv' k hin hin'
          | inr heq' => exact absurd hin (by rw [heq'.1]; exact hnew cv)
      | inr heq =>
          cases hk' with
          | inl hin' => exact absurd hin' (by rw [heq.1]; exact hnew cv')
          | inr heq' => rw [heq.2, heq'.2]
    case fresh =>
      intro cv k hk
      rw [hnext]
      cases (hwaiters cv k).mp hk with
      | inl hin => exact Nat.lt_succ_of_lt (hc.fresh cv k hin)
      | inr heq => rw [heq.1]; exact Nat.lt_succ_self _
    case taken =>
      intro k hk
      rw [htaken] at hk
      rw [hnext]
      exact Nat.lt_succ_of_lt (hc.taken k hk)
    case listed =>
      intro cv k hk
      rw [hwaiters, hpopped]
      cases hcond cv k hk with
      | inl hin => exact ⟨Or.inl (hc.listed cv k hin).1, (hc.listed cv k hin).2⟩
      | inr heq =>
          refine ⟨Or.inr heq, fun hin => ?_⟩
          rw [heq.1] at hin
          exact hnew cv (hc.known cv _ hin)
    case once => exact fun cv => by rw [hpopped]; exact hc.once cv
    case known =>
      intro cv k hk
      rw [hpopped] at hk
      exact (hwaiters cv k).mpr (Or.inl (hc.known cv k hk))
    case scheduled =>
      intro cv k hk
      rw [hpopped, htaken, hresumed, hactive]
      cases (hwaiters cv k).mp hk with
      | inl hin => exact hc.scheduled cv k hin
      | inr heq =>
          -- its address is new: nothing has happened to it
          rw [heq.1]
          constructor
          · intro hleft
            cases hleft with
            | inl hin => exact absurd (hc.known cv _ hin) (hnew cv)
            | inr hin => exact absurd (hc.taken _ hin) (Nat.lt_irrefl _)
          · intro hright
            cases hright with
            | inl hin => exact absurd (h.once _ (mem_resumed hin)).1 (Nat.lt_irrefl _)
            | inr hin =>
                have hlt := (h.blocked_live (h.linked _ ⟨_, hin⟩)).2
                exact absurd hlt (Nat.lt_irrefl _)
  · intro cv
    unfold Loop.Absorbed
    simp only [hpopped, htaken]

/-- **Waiters are popped** off the list of a condition variable and go to `ActiveLink`. -/
theorem CondInv.pop (hc : CondInv s v) (h : LoopInv s v) {cv₀ : Nat} {ks : List Nat}
    (hks : ks.Nodup) (hfrom : ∀ k ∈ ks, k ∈ v.cond cv₀ ∧ s.Blocked (.wait k))
    (hwaiters : ∀ cv, t.waiters cv = s.waiters cv)
    (hperm : (t.popped cv₀).Perm (ks ++ s.popped cv₀))
    (hother : ∀ cv, cv ≠ cv₀ → t.popped cv = s.popped cv)
    (htaken : ∀ k, Event.takenOut (.cond k) ∈ t.log ↔ Event.takenOut (.cond k) ∈ s.log)
    (hresumed : ∀ k, Event.resumed (.cond k) ∈ t.log ↔ Event.resumed (.cond k) ∈ s.log)
    (hnext : t.next = s.next) (htimeout : w.event timeoutLink = [])
    (hactive : ∀ k, Node.cond k ∈ w.event activeLink ↔
      k ∈ ks ∨ Node.cond k ∈ v.event activeLink)
    (hcond : ∀ cv k, k ∈ w.cond cv → k ∈ v.cond cv ∧ k ∉ ks) : CondInv t w ∧
      ∀ cv, t.Absorbed cv ↔
        s.Absorbed cv ∨ cv = cv₀ ∧ ∃ k ∈ ks, Node.cond k ∈ v.event activeLink := by
  have hmem : ∀ cv k, k ∈ t.popped cv ↔ k ∈ s.popped cv ∨ cv = cv₀ ∧ k ∈ ks := by
    intro cv k
    by_cases hcv : cv = cv₀
    · rw [hcv, hperm.mem_iff, List.mem_append]
      simp [or_comm]
    · rw [hother cv hcv]
      simp [hcv]
  have hwaits : ∀ k ∈ ks, k ∈ s.waiters cv₀ ∧ k ∉ s.popped cv₀ :=
    fun k hk => hc.listed cv₀ k (hfrom k hk).1
  constructor
  · constructor
    case timeout => exact htimeout
    case distinct => exact fun cv => by rw [hwaiters]; exact hc.distinct cv
    case apart => exact fun cv cv' k => by rw [hwaiters, hwaiters]; exact hc.apart cv cv' k
    case fresh => exact fun cv k hk => by rw [hnext]; rw [hwaiters] at hk; exact hc.fresh cv k hk
    case taken => exact fun k hk => by rw [hnext]; rw [htaken] at hk; exact hc.taken k hk
    case listed =>
      intro cv k hk
      obtain ⟨hold, hout⟩ := hcond cv k hk
      rw [hwaiters]
      refine ⟨(hc.listed cv k hold).1, fun hin => ?_⟩
      cases (hmem cv k).mp hin with
      | inl hin => exact (hc.listed cv k hold).2 hin
      | inr hin => exact hout hin.2
    case once =>
      intro cv
      by_cases hcv : cv = cv₀
      · rw [hcv]
        apply hperm.nodup_iff.mpr
        apply List.nodup_append.mpr
        refine ⟨hks, hc.once cv₀, ?_⟩
        intro a ha b hb heq
        rw [← heq] at hb
        exact (hwaits a ha).2 hb
      · rw [hother cv hcv]
        exact hc.once cv
    case known =>
      intro cv k hk
      rw [hwaiters]
      cases (hmem cv k).mp hk with
      | inl hin => exact hc.known cv k hin
      | inr hin => rw [hin.1]; exact (hwaits k hin.2).1
    case scheduled =>
      intro cv k hk
      rw [hwaiters] at hk
      rw [hmem, htaken, hresumed, hactive]
      have hold := hc.scheduled cv k hk
      by_cases hin : k ∈ ks
      · have hcv : cv = cv₀ := hc.apart cv cv₀ k hk (hwaits k hin).1
        simp [hin, hcv]
      · simpa [hin] using hold
  · intro cv
    -- a waiter that was just popped had timed out exactly when it was on `ActiveLink`
    have hlate : ∀ k ∈ ks, Event.takenOut (.cond k) ∈ s.log ↔
        Node.cond k ∈ v.event activeLink := by
      intro k hk
      have hiff := hc.scheduled cv₀ k (hwaits k hk).1
      have hnot := h.not_resumed (hfrom k hk).2
      simpa [(hwaits k hk).2, hnot] using hiff
    unfold Loop.Absorbed
    constructor
    · intro habs
      obtain ⟨k, hk, hout⟩ := habs
      rw [htaken] at hout
      cases (hmem cv k).mp hk with
      | inl hin => exact Or.inl ⟨k, hin, hout⟩
      | inr hin => exact Or.inr ⟨hin.1, k, hin.2, (hlate k hin.2).mp hout⟩
    · intro habs
      cases habs with
      | inl hold =>
          obtain ⟨k, hk, hout⟩ := hold
          exact ⟨k, (hmem cv k).mpr (Or.inl hk), (htaken k).mpr hout⟩
      | inr hnew =>
          obtain ⟨hcv, k, hk, hin⟩ := hnew
          exact ⟨k, (hmem cv k).mpr (Or.inr ⟨hcv, hk⟩), (htaken k).mpr ((hlate k hk).mpr hin)⟩

/-- **Nodes time out.** -/
theorem CondInv.expire (hc : CondInv s v) (h : LoopInv s v) {js : List Nat}
    (hlog : t.log = s.log ++ (js.foldl (joined .TimeoutLink) v.event timeoutLink).map .takenOut)
    (hnext : t.next = s.next) (hevent : w.event = expired v.event js) (hcond : w.cond = v.cond) :
    CondInv t w ∧ ∀ cv, t.Absorbed cv ↔ s.Absorbed cv := by
  obtain ⟨⟨moved, hout, hmoved⟩, -, -⟩ := foldl_joined_moves EventLink.TimeoutLink js v.event
  rw [hc.timeout, List.nil_append] at hout
  rw [hout] at hlog
  -- what times out was in the wheel, so it has neither been popped nor resumed
  have hslot : ∀ k, Node.cond k ∈ moved → s.Blocked (.wait k) ∧
      Node.cond k ∉ v.event activeLink := by
    intro k hk
    obtain ⟨j, hj⟩ := hmoved _ hk
    refine ⟨h.linked _ ⟨_, hj⟩, fun hin => ?_⟩
    cases h.rep.links.unique hj hin
  have hactive : ∀ m, m ∈ w.event activeLink ↔ m ∈ v.event activeLink ∨ m ∈ moved := by
    intro m
    rw [hevent, mem_expired_active, hout]
  have htaken : ∀ k, Event.takenOut (.cond k) ∈ t.log ↔
      Event.takenOut (.cond k) ∈ s.log ∨ Node.cond k ∈ moved := by
    intro k
    simp [hlog]
  have hresumed : ∀ k, Event.resumed (.cond k) ∈ t.log ↔ Event.resumed (.cond k) ∈ s.log := by
    intro k
    simp [hlog]
  have hes : ∀ e ∈ moved.map Event.takenOut, e.ofCond = false := by
    intro e he
    obtain ⟨n, -, heq⟩ := List.mem_map.mp he
    rw [← heq]
    rfl
  constructor
  · apply hc.keep hlog hes (Nat.le_of_eq hnext.symm)
    · rw [hevent]
      unfold expired
      exact Function.update_self _ _ _
    · exact fun cv k hk => by rw [hcond] at hk; exact hk
    · intro k hk
      have hin : Node.cond k ∈ moved := by simpa using hk
      exact (h.blocked_live (hslot k hin).1).2
    · intro cv k hk
      rw [htaken, hresumed, hactive, ← or_assoc, ← or_assoc, hc.scheduled cv k hk]
  · intro cv
    unfold Loop.Absorbed
    simp only [(counts_append hlog hes cv).2, htaken]
    constructor
    · intro habs
      obtain ⟨k, hk, hout⟩ := habs
      cases hout with
      | inl hin => exact ⟨k, hk, hin⟩
      | inr hin =>
          obtain ⟨hblocked, hnot⟩ := hslot k hin
          cases (hc.scheduled cv k (hc.known cv k hk)).mp (Or.inl hk) with
          | inl hres => exact absurd hres (h.not_resumed hblocked)
          | inr hact => exact absurd hact hnot
    · intro habs
      obtain ⟨k, hk, hin⟩ := habs
      exact ⟨k, hk, Or.inl hin⟩

/-- **The loop resumes the first node of `ActiveLink`.** -/
theorem CondInv.resume (hc : CondInv s v) {n : Node} {ns : List Node}
    (hactive : v.event activeLink = n :: ns) (hlog : t.log = s.log ++ [.resumed n])
    (hnext : t.next = s.next) (hevent : w.event = Function.update v.event activeLink ns)
    (hcond : w.cond = v.cond) : CondInv t w ∧ ∀ cv, t.Absorbed cv ↔ s.Absorbed cv := by
  have hes : ∀ e ∈ [Event.resumed n], e.ofCond = false := by
    intro e he
    rw [List.mem_singleton.mp he]
    rfl
  have htaken : ∀ k, Event.takenOut (.cond k) ∈ t.log ↔ Event.takenOut (.cond k) ∈ s.log := by
    intro k
    simp [hlog]
  -- a waiter leaves `ActiveLink` for the record of resumed ones
  have hmoves : ∀ k, (Event.resumed (.cond k) ∈ t.log ∨ Node.cond k ∈ w.event activeLink) ↔
      (Event.resumed (.cond k) ∈ s.log ∨ Node.cond k ∈ v.event activeLink) := by
    intro k
    rw [hlog, hevent, Function.update_self, hactive]
    simp only [List.mem_append, List.mem_cons, List.not_mem_nil, or_false, Event.resumed.injEq,
      or_assoc]
  constructor
  · apply hc.keep hlog hes (Nat.le_of_eq hnext.symm)
    · have hne : timeoutLink ≠ activeLink := by decide
      rw [hevent, Function.update_of_ne hne]
      exact hc.timeout
    · exact fun cv k hk => by rw [hcond] at hk; exact hk
    · exact fun k hk => by simp at hk
    · intro cv k hk
      rw [htaken, hmoves]
      exact hc.scheduled cv k hk
  · intro cv
    unfold Loop.Absorbed
    simp only [(counts_append hlog hes cv).2, htaken]

/-! ## §4. Every step. -/

theorem cond_mem_erased {l : Place EventLink → List Node} {n : Node} {k : Nat}
    (hn : n.call ≠ .wait k) (h : Place EventLink) :
    Node.cond k ∈ erased l n h ↔ Node.cond k ∈ l h :=
  List.mem_erase_of_ne fun heq => hn (by rw [← heq]; rfl)

/-- A node that joins another list, or is linked already, changes nothing on `h`. -/
theorem appended_same {l : Place EventLink → List Node} {g h : Place EventLink} {n : Node}
    (hne : h ≠ g) : appended l g n h = l h := by
  unfold appended
  split
  · rfl
  · exact Function.update_of_ne hne _ _

/-- **`ConditionVariableSignal`** pops the first waiter. -/
theorem CondInv.signal (hc : CondInv s v) (h : LoopInv s v) (hturn : s.UserTurn) {cv₀ k : Nat}
    {ks : List Nat} (hcv : v.cond cv₀ = k :: ks) (hlog : t.log = s.log ++ [.signalled cv₀ k])
    (hnext : t.next = s.next)
    (hw : w = { event := woken v.event k, cond := Function.update v.cond cv₀ ks }) :
    CondInv t w ∧
      ∀ cv, t.Absorbed cv ↔ s.Absorbed cv ∨ ¬ s.PopsUnscheduled cv (.signal cv₀) := by
  have hnd := h.rep.links.nodup
  have hin : k ∈ v.cond cv₀ := by
    rw [hcv]
    exact List.mem_cons_self
  -- a pop of the one waiter `k`
  have hpop : CondInv t w ∧ ∀ cv, t.Absorbed cv ↔
      s.Absorbed cv ∨ cv = cv₀ ∧ ∃ j ∈ [k], Node.cond j ∈ v.event activeLink := by
    apply hc.pop h (List.nodup_singleton k)
    · intro j hj
      rw [List.mem_singleton.mp hj]
      exact ⟨hin, h.waiter_blocked hturn hin⟩
    · intro cv
      rw [waiters_append hlog]
      exact List.append_nil _
    · unfold Loop.popped
      rw [signals_append hlog, broadcasts_append hlog]
      simp only [Event.signalled?, Event.broadcast?, if_true, List.filterMap_cons,
        List.filterMap_nil, List.append_nil]
      rw [List.append_assoc]
      exact List.perm_middle
    · intro cv hne
      unfold Loop.popped
      rw [signals_append hlog, broadcasts_append hlog]
      simp [Event.signalled?, Event.broadcast?, Ne.symm hne]
    · simp [hlog]
    · simp [hlog]
    · exact hnext
    · rw [hw]
      exact woken_timeout hnd hc.timeout
    · intro j
      rw [hw, mem_woken hnd]
      simp
    · intro cv j hj
      rw [hw] at hj
      rw [List.mem_singleton]
      exact h.rep.conds.mem_popped hcv hj
  refine ⟨hpop.1, fun cv => ?_⟩
  rw [hpop.2 cv]
  simp only [Loop.PopsUnscheduled, h.rep.conds.items, h.rep.links.items]
  by_cases heq : cv₀ = cv
  · rw [← heq, hcv]
    simp
  · simp [heq, Ne.symm heq]

/-- **`ConditionVariableBroadcast`** pops every waiter. -/
theorem CondInv.broadcast (hc : CondInv s v) (h : LoopInv s v) (hturn : s.UserTurn) {cv₀ : Nat}
    (hlog : t.log = s.log ++ (v.cond cv₀).map (.broadcast cv₀)) (hnext : t.next = s.next)
    (hw : w = { event := (v.cond cv₀).foldl woken v.event
                cond := Function.update v.cond cv₀ [] }) :
    CondInv t w ∧
      ∀ cv, t.Absorbed cv ↔ s.Absorbed cv ∨ ¬ s.PopsUnscheduled cv (.broadcast cv₀) := by
  obtain ⟨htimeout, hactive⟩ :=
    foldl_woken_spec (v.cond cv₀) h.rep.links.nodup hc.timeout
  have hnone : ∀ {f : Event → Option Nat}, (∀ k, f (.broadcast cv₀ k) = none) →
      ((v.cond cv₀).map (Event.broadcast cv₀)).filterMap f = [] := by
    intro f hf
    rw [List.filterMap_map]
    exact List.filterMap_eq_nil_iff.mpr fun k _ => hf k
  -- the log gets one entry for each waiter, and no entry of another kind
  have hall : ((v.cond cv₀).map (Event.broadcast cv₀)).filterMap (Event.broadcast? cv₀) =
      v.cond cv₀ := by
    rw [List.filterMap_map]
    have hsome : Event.broadcast? cv₀ ∘ Event.broadcast cv₀ = some := by
      funext k
      simp [Event.broadcast?]
    rw [hsome, List.filterMap_some]
  have hpop : CondInv t w ∧ ∀ cv, t.Absorbed cv ↔
      s.Absorbed cv ∨ cv = cv₀ ∧ ∃ k ∈ v.cond cv₀, Node.cond k ∈ v.event activeLink := by
    apply hc.pop h (h.rep.conds.nodup cv₀)
    · exact fun j hj => ⟨hj, h.waiter_blocked hturn hj⟩
    · intro cv
      rw [waiters_append hlog, hnone fun _ => rfl, List.append_nil]
    · unfold Loop.popped
      rw [signals_append hlog, broadcasts_append hlog, hall, hnone fun _ => rfl, List.append_nil]
      rw [← List.append_assoc]
      exact List.perm_append_comm
    · intro cv hne
      unfold Loop.popped
      rw [signals_append hlog, broadcasts_append hlog, hnone fun _ => rfl, hnone,
        List.append_nil, List.append_nil]
      intro k
      simp [Event.broadcast?, Ne.symm hne]
    · simp [hlog]
    · simp [hlog]
    · exact hnext
    · rw [hw]
      exact htimeout
    · intro j
      rw [hw, hactive]
      simp
    · intro cv j hj
      rw [hw] at hj
      exact h.rep.conds.mem_cleared hj
  refine ⟨hpop.1, fun cv => ?_⟩
  rw [hpop.2 cv]
  simp only [Loop.PopsUnscheduled, h.rep.conds.items, h.rep.links.items]
  by_cases heq : cv₀ = cv
  · simp [heq]
  · simp [heq, Ne.symm heq]

/-- **Every allowed step keeps the invariant**, and a waiter is absorbed only where one is popped that
is on `ActiveLink`. -/
theorem CondInv.step (hc : CondInv s v) (h : LoopInv s v) (hok : s.Allowed a)
    (heff : Effect s v a t w) : CondInv t w ∧
      ∀ cv, t.Absorbed cv ↔ s.Absorbed cv ∨ ¬ s.PopsUnscheduled cv a := by
  have hnd := h.rep.links.nodup
  have hslot : ∀ (l : Place EventLink → List Node) (o : EventLink) j n,
      appended l (.slot j) n (.other o) = l (.other o) :=
    fun l o j n => appended_same (by simp)
  -- most actions pop no waiter, and absorb none
  have hplain : ∀ {a : Action} {t : Loop} {w : Lists},
      (CondInv t w ∧ ∀ cv, t.Absorbed cv ↔ s.Absorbed cv) → (∀ cv, s.PopsUnscheduled cv a) →
      CondInv t w ∧ ∀ cv, t.Absorbed cv ↔ s.Absorbed cv ∨ ¬ s.PopsUnscheduled cv a := by
    intro a t w hstep hpops
    refine ⟨hstep.1, fun cv => ?_⟩
    rw [hstep.2 cv]
    simp [hpops cv]
  cases heff with
  | resume co =>
      refine hplain ?_ fun _ => trivial
      exact hc.still rfl rfl
  | yeild hs =>
      refine hplain ?_ fun _ => trivial
      exact hc.still rfl rfl
  | finish hs =>
      refine hplain ?_ fun _ => trivial
      exact hc.still rfl rfl
  | pollRefused links hrefused =>
      refine hplain ?_ fun _ => trivial
      refine hc.quiet rfl (by simp [Event.ofCond]) (by simp) (by simp) (Nat.le_succ _) ?_ ?_ ?_
      · exact erased_nil hc.timeout _
      · exact fun k => cond_mem_erased (by simp [Node.call]) _
      · exact fun _ _ hk => hk
  | pollBlocked links hs haccepted =>
      refine hplain ?_ fun _ => trivial
      refine hc.quiet (List.append_nil _).symm (by simp) (by simp) (by simp) (Nat.le_succ _) ?_ ?_ ?_
      · exact (hslot v.event _ _ _).trans hc.timeout
      · exact fun k => by dsimp only; rw [hslot]
      · exact fun _ _ hk => hk
  | waitRefused ret hrefused htimed =>
      refine hplain ?_ fun _ => trivial
      exact hc.quiet rfl (by simp [Event.ofCond]) (by simp) (by simp) (Nat.le_succ _)
        hc.timeout (fun _ => Iff.rfl) fun _ _ hk => hk
  | waitTimed links conds hs haccepted htimed =>
      refine hplain ?_ fun _ => trivial
      refine hc.enter h rfl rfl ?_ ?_ ?_
      · exact (hslot v.event _ _ _).trans hc.timeout
      · exact fun k => by dsimp only; rw [hslot]
      · intro cv k hk
        cases mem_appended.mp hk with
        | inl hin => exact Or.inl hin
        | inr hnew => exact Or.inr ⟨hnew.1, hnew.2.1⟩
  | waitUntimed conds hs huntimed =>
      refine hplain ?_ fun _ => trivial
      refine hc.enter h rfl rfl hc.timeout (fun _ => Iff.rfl) ?_
      intro cv k hk
      cases mem_appended.mp hk with
      | inl hin => exact Or.inl hin
      | inr hnew => exact Or.inr ⟨hnew.1, hnew.2.1⟩
  | @signalNone cv₀ hcv =>
      refine hplain ⟨hc, fun _ => Iff.rfl⟩ ?_
      intro cv heq k hk
      rw [h.rep.conds.items, ← heq, hcv] at hk
      cases hk
  | signal links conds hcv => exact hc.signal h hok hcv rfl rfl rfl
  | broadcast links conds => exact hc.broadcast h hok rfl rfl rfl
  | pollBack links hs hstage hp =>
      refine hplain ?_ fun _ => trivial
      refine hc.quiet rfl (by simp [Event.ofCond]) (by simp) (by simp) (Nat.le_refl _) ?_ ?_ ?_
      · exact erased_nil hc.timeout _
      · exact fun k => cond_mem_erased (by simp [Node.call]) _
      · exact fun _ _ hk => hk
  | waitBack conds hs hstage =>
      refine hplain ?_ fun _ => trivial
      exact hc.quiet rfl (by simp [Event.ofCond]) (by simp) (by simp) (Nat.le_refl _)
        hc.timeout (fun _ => Iff.rfl) fun _ _ hk => List.mem_of_mem_erase hk
  | epollWait batch =>
      refine hplain ?_ fun _ => trivial
      exact hc.still rfl rfl
  | prepareAgain hphase hp hhandled =>
      refine hplain ?_ fun _ => trivial
      exact hc.quiet rfl (by simp [Event.ofCond]) (by simp) (by simp) (Nat.le_refl _)
        hc.timeout (fun _ => Iff.rfl) fun _ _ hk => hk
  | @prepare k i rest p links hphase hp hhandled =>
      refine hplain ?_ fun _ => trivial
      refine hc.quiet rfl (by simp [Event.ofCond]) (by simp) (by simp) (Nat.le_refl _) ?_ ?_ ?_
      · have hne : timeoutLink ≠ activeLink := by decide
        apply (appended_same hne).trans
        exact erased_nil hc.timeout _
      · intro j
        rw [mem_appended, cond_mem_erased (by simp [Node.call])]
        simp
      · exact fun _ _ hk => hk
  | takeOut links hsize hearly hpast hjs =>
      refine hplain ?_ fun _ => trivial
      exact hc.expire h rfl rfl rfl rfl
  | drainOver hempty =>
      refine hplain ?_ fun _ => trivial
      exact hc.still rfl rfl
  | drain links hactive hco =>
      refine hplain ?_ fun _ => trivial
      exact hc.resume hactive rfl rfl rfl rfl

/-! ## §5. Runs. -/

/-- An allowed step that pops no waiter of `cv` that is on `ActiveLink` already. -/
def Loop.StepPops (cv : Nat) (s : Loop) (a : Action) (t : Loop) : Prop :=
  s.Step a t ∧ s.PopsUnscheduled cv a

theorem CondInv.run_step (hc : CondInv s v) (h : LoopInv s v) (hstep : s.Step a t) :
    ∃ w, LoopInv t w ∧ CondInv t w ∧
      ∀ cv, t.Absorbed cv ↔ s.Absorbed cv ∨ ¬ s.PopsUnscheduled cv a := by
  obtain ⟨t', w, hstep', heff, h'⟩ := h.run_step hstep.1
  have heq : t' = t := Option.some.inj (hstep'.symm.trans hstep.2)
  rw [heq] at heff h'
  obtain ⟨hc', habs⟩ := hc.step h hstep.1 heff
  exact ⟨w, h', hc', habs⟩

theorem CondInv.exists_step (hinv : ∃ v, LoopInv s v ∧ CondInv s v) (hstep : s.Step a t) :
    ∃ w, LoopInv t w ∧ CondInv t w := by
  obtain ⟨v, h, hc⟩ := hinv
  obtain ⟨w, h', hc', -⟩ := hc.run_step h hstep
  exact ⟨w, h', hc'⟩

/-- **A run is free of absorbed waiters exactly when each of its steps is**: what is absorbed stays
absorbed. -/
theorem absorbed_iff {as : List Action} (cv : Nat) (hrun : Run Loop.Step Loop.init as s) :
    Run (Loop.StepPops cv) Loop.init as s ↔ ¬ s.Absorbed cv := by
  have hinit : ¬ Loop.init.Absorbed cv := by
    intro habs
    obtain ⟨k, hk, -⟩ := habs
    exact List.not_mem_nil hk
  refine Run.guarded_iff_last (J := fun s => ∃ v, LoopInv s v ∧ CondInv s v)
    (I := fun s => ¬ s.Absorbed cv) (fun _ _ _ => CondInv.exists_step) ?_
    ⟨_, LoopInv.init, CondInv.init⟩ hinit hrun
  intro s a t hinv hstep
  obtain ⟨v, h, hc⟩ := hinv
  obtain ⟨w, -, -, hiff⟩ := hc.run_step h hstep
  rw [hiff cv, not_or, not_not]

theorem CondInv.of_run {as : List Action} (hrun : Run Loop.Step Loop.init as s) :
    ∃ v, LoopInv s v ∧ CondInv s v :=
  Run.invariant (I := fun s => ∃ v, LoopInv s v ∧ CondInv s v) (fun _ _ _ => CondInv.exists_step)
    hrun ⟨_, LoopInv.init, CondInv.init⟩

/-- With nothing left on `ActiveLink`, the waiters resumed are those popped and those timed out. -/
theorem CondInv.resumed_eq (hc : CondInv s v) (hempty : v.event activeLink = []) (cv : Nat) :
    (s.resumedWaiters cv).toFinset = (s.popped cv).toFinset ∪ (s.timedOut cv).toFinset := by
  ext k
  simp only [Finset.mem_union, List.mem_toFinset, Loop.resumedWaiters, Loop.timedOut,
    List.mem_filter, decide_eq_true_eq]
  constructor
  · intro hk
    cases (hc.scheduled cv k hk.1).mpr (Or.inl hk.2) with
    | inl hin => exact Or.inl hin
    | inr hin => exact Or.inr ⟨hk.1, hin⟩
  · intro hk
    have hwaits : k ∈ s.waiters cv := hk.elim (hc.known cv k) And.left
    have hwoken := (hc.scheduled cv k hwaits).mp (hk.imp_right And.right)
    rw [hempty] at hwoken
    exact ⟨hwaits, hwoken.resolve_right List.not_mem_nil⟩

/-- So the sum is right unless a waiter counts twice. -/
theorem CondInv.count_iff (hc : CondInv s v) (hempty : v.event activeLink = []) (cv : Nat) :
    (s.resumedWaiters cv).length =
      (s.signals cv).length + (s.broadcasts cv).length + (s.timedOut cv).length ↔
    ¬ s.Absorbed cv := by
  have hresumed : (s.resumedWaiters cv).toFinset.card = (s.resumedWaiters cv).length :=
    List.toFinset_card_of_nodup ((hc.distinct cv).filter _)
  have htimed : (s.timedOut cv).toFinset.card = (s.timedOut cv).length :=
    List.toFinset_card_of_nodup ((hc.distinct cv).filter _)
  have hpopped : (s.popped cv).toFinset.card =
      (s.signals cv).length + (s.broadcasts cv).length := by
    rw [List.toFinset_card_of_nodup (hc.once cv)]
    exact List.length_append
  have hsum := Finset.card_union_add_card_inter (s.popped cv).toFinset (s.timedOut cv).toFinset
  rw [← hc.resumed_eq hempty cv] at hsum
  have htwice : ((s.popped cv).toFinset ∩ (s.timedOut cv).toFinset).card = 0 ↔
      ¬ s.Absorbed cv := by
    rw [Finset.card_eq_zero, Finset.eq_empty_iff_forall_notMem]
    simp only [Finset.mem_inter, List.mem_toFinset, Loop.timedOut, List.mem_filter,
      decide_eq_true_eq]
    constructor
    · intro hnone habs
      obtain ⟨k, hk, hout⟩ := habs
      exact hnone k ⟨hk, hc.known cv k hk, hout⟩
    · intro habs k hk
      exact habs ⟨k, hk.1, hk.2.2⟩
  rw [← htwice]
  omega

/-- **Signals are counted right exactly when none reaches a waiter that has timed out.**  Over any run
that ends with `ActiveLink` empty: the waiters of `cv` that were resumed are as many as the
`ConditionVariableSignal`s on `cv` that returned `0`, the waiters woken by a broadcast and the waiters
taken out of the wheel together, and no waiter that was popped had timed out, if and only if at each
signal and broadcast on `cv` no waiter that it pops is on `ActiveLink`. -/
theorem signal_counts_iff {as : List Action} (cv : Nat) (hrun : Run Loop.Step Loop.init as s)
    (hactive : s.links.items activeLink = []) :
    ((s.resumedWaiters cv).length =
      (s.signals cv).length + (s.broadcasts cv).length + (s.timedOut cv).length ∧
      ∀ k ∈ s.popped cv, Event.takenOut (.cond k) ∉ s.log) ↔
    Run (Loop.StepPops cv) Loop.init as s := by
  obtain ⟨v, h, hc⟩ := CondInv.of_run hrun
  rw [h.rep.links.items] at hactive
  rw [absorbed_iff cv hrun, hc.count_iff hactive cv]
  constructor
  · exact And.left
  · exact fun habs => ⟨habs, fun k hk hout => habs ⟨k, hk, hout⟩⟩

/-- One waiter is signalled in time, another one times out. -/
theorem signal_counts_two : ∃ s, Run (Loop.StepPops 7) Loop.init
    [.resume 1, .wait 7 500 100, .resume 2, .wait 7 5 100, .signal 7, .epollWait [], .takeOut 105,
      .drain, .back, .finish, .drain, .back, .finish, .drain] s ∧
    (s.resumedWaiters 7).length = 2 := by
  have hcheck : checkRun Loop.step (fun s a => decide (s.Allowed a)) Loop.init
      [.resume 1, .wait 7 500 100, .resume 2, .wait 7 5 100, .signal 7, .epollWait [], .takeOut 105,
        .drain, .back, .finish, .drain, .back, .finish, .drain]
      (fun s => decide (s.links.items activeLink = [] ∧ (s.resumedWaiters 7).length = 2 ∧
        (s.signals 7).length = 1 ∧ (s.broadcasts 7).length = 0 ∧ (s.timedOut 7).length = 1 ∧
        ∀ k ∈ s.popped 7, Event.takenOut (.cond k) ∉ s.log)) = true := by
    decide +kernel
  have hof : ∀ (s : Loop) a t, decide (s.Allowed a) = true → s.step a = some t → s.Step a t :=
    fun s a t hok hstep => ⟨of_decide_eq_true hok, hstep⟩
  obtain ⟨s, hrun, hs⟩ := Run.of_check hof hcheck
  obtain ⟨hactive, hresumed, hsignals, hbroadcasts, htimed, hnone⟩ := of_decide_eq_true hs
  have hpops := (signal_counts_iff 7 hrun hactive).mp
    ⟨by rw [hresumed, hsignals, hbroadcasts, htimed], hnone⟩
  exact ⟨s, hpops, hresumed⟩

/-- A poll and a waiter time out in one round; the coroutine that polled runs first and signals.  The
signal goes to the waiter that has timed out, and the other one stays blocked. -/
theorem not_signal_counts : ¬ ∀ (as : List Action) (s : Loop), Run Loop.Step Loop.init as s →
    s.links.items activeLink = [] → s.links.items timeoutLink = [] → s.broadcasts 7 = [] →
    (s.resumedWaiters 7).length = (s.signals 7).length + (s.timedOut 7).length := by
  intro hclaim
  have hcheck : checkRun Loop.step (fun s a => decide (s.Allowed a)) Loop.init
      [.resume 1, .poll [⟨3, 1⟩] 5 100, .resume 2, .wait 7 5 100, .resume 3, .wait 7 0 100,
        .epollWait [], .takeOut 105, .drain, .back, .signal 7, .finish, .drain, .back, .finish,
        .drain]
      (fun s => decide (s.links.items activeLink = [] ∧ s.links.items timeoutLink = [] ∧
        s.broadcasts 7 = [] ∧ (s.resumedWaiters 7).length = 1 ∧ (s.signals 7).length = 1 ∧
        (s.timedOut 7).length = 1 ∧ s.stage 3 = .blocked (.wait 2))) = true := by
    decide +kernel
  have hof : ∀ (s : Loop) a t, decide (s.Allowed a) = true → s.step a = some t → s.Step a t :=
    fun s a t hok hstep => ⟨of_decide_eq_true hok, hstep⟩
  obtain ⟨s, hrun, hs⟩ := Run.of_check hof hcheck
  obtain ⟨hactive, htimeout, hbroadcasts, hresumed, hsignals, htimed, -⟩ := of_decide_eq_true hs
  have hcount := hclaim _ s hrun hactive htimeout hbroadcasts
  rw [hresumed, hsignals, htimed] at hcount
  cases hcount

end RocketCo.CoRoutine
