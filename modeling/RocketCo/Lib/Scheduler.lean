/-
  RocketCo.Lib.Scheduler — a cooperative scheduler, as queues.

  Jobs sleep until a deadline, wait on a condition, or are ready.  Whatever makes a job ready puts it at the
  end of one queue, and jobs are dispatched from its front.  Deadlines are only accepted up to a horizon
  from the last tick of the clock.

    • `Scheduler.apply` — the operations,
    • `Scheduler.line` — the order in which jobs were made ready: what has been dispatched, and what is ready,
    • `mem_line_apply` — how a job gets in line,
    • `before_apply` — who is ahead in line stays ahead, unless a signal sends it to the end.
-/
import RocketCo.Lib.Buckets

namespace RocketCo.Lib

/-! ## §1. The operations. -/

/-- Jobs `J` and conditions `V`.  `start` is the last tick of the clock. -/
structure Scheduler (J V : Type*) where
  start : Option Nat
  sleeping : List J
  deadline : J → Nat
  ready : List J
  waiting : V → List J
  dispatched : List J

inductive SchedulerOp (J V : Type*) where
  /-- Sleep until `d`. -/
  | sleep (j : J) (d now : Nat)
  /-- Wait on a condition ... -/
  | wait (v : V) (j : J)
  /-- ... or until `d`. -/
  | waitUntil (v : V) (j : J) (d now : Nat)
  /-- What a sleeping job waits for has happened. -/
  | wake (j : J)
  | signal (v : V)
  | broadcast (v : V)
  | tick (now : Nat)
  | dispatch
  /-- The job is done with all conditions. -/
  | leave (j : J)

namespace Scheduler

variable {J V : Type*} [DecidableEq J] [DecidableEq V]

def init : Scheduler J V where
  start := none
  sleeping := []
  deadline := fun _ => 0
  ready := []
  waiting := fun _ => []
  dispatched := []

/-- The first use of the clock starts it. -/
def begin (u : Scheduler J V) (now : Nat) : Scheduler J V :=
  { u with start := some (u.start.getD now) }

/-- The deadline is nearer than the horizon. -/
def Accepts (horizon : Nat) (u : Scheduler J V) (d now : Nat) : Prop :=
  d < u.start.getD now + horizon

instance (horizon : Nat) (u : Scheduler J V) (d now : Nat) : Decidable (u.Accepts horizon d now) :=
  inferInstanceAs (Decidable (_ < _))

def fallAsleep (u : Scheduler J V) (j : J) (d : Nat) : Scheduler J V :=
  { u with sleeping := u.sleeping ++ [j], deadline := Function.update u.deadline j d }

def enqueue (u : Scheduler J V) (v : V) (j : J) : Scheduler J V :=
  { u with waiting := Function.update u.waiting v (u.waiting v ++ [j]) }

/-- Wherever the job is, it goes to the end of the queue. -/
def rouse (u : Scheduler J V) (j : J) : Scheduler J V :=
  { u with sleeping := u.sleeping.erase j, ready := u.ready.erase j ++ [j] }

/-- What is due, by deadline and, for equal deadlines, in the order of falling asleep. -/
def due (u : Scheduler J V) (now : Nat) : List J :=
  sortByKey u.deadline (u.sleeping.filter fun j => u.deadline j ≤ now)

def apply (horizon : Nat) (u : Scheduler J V) : SchedulerOp J V → Scheduler J V
  | .sleep j d now =>
      if u.Accepts horizon d now then (u.begin now).fallAsleep j d else u.begin now
  | .wait v j => u.enqueue v j
  | .waitUntil v j d now =>
      if u.Accepts horizon d now then ((u.begin now).fallAsleep j d).enqueue v j else u.begin now
  | .wake j =>
      if j ∈ u.sleeping then
        { u with sleeping := u.sleeping.erase j, ready := u.ready ++ [j] }
      else u
  | .signal v =>
      match u.waiting v with
      | [] => u
      | j :: js => { u.rouse j with waiting := Function.update u.waiting v js }
  | .broadcast v =>
      { (u.waiting v).foldl rouse u with waiting := Function.update u.waiting v [] }
  | .tick now =>
      { u with
        start := some now
        sleeping := u.sleeping.filter fun j => now < u.deadline j
        ready := u.ready ++ u.due now }
  | .dispatch =>
      match u.ready with
      | [] => u
      | j :: js => { u with ready := js, dispatched := u.dispatched ++ [j] }
  | .leave j => { u with waiting := fun v => (u.waiting v).erase j }

/-- The jobs that an operation sends to the end of the queue, wherever they are. -/
def roused (u : Scheduler J V) : SchedulerOp J V → List J
  | .signal v => (u.waiting v).head?.toList
  | .broadcast v => u.waiting v
  | _ => []

/-- The jobs that an operation makes ready because their time or their event has come. -/
def called (u : Scheduler J V) : SchedulerOp J V → List J
  | .wake j => if j ∈ u.sleeping then [j] else []
  | .tick now => u.due now
  | _ => []

/-! ## §2. The line. -/

/-- All jobs that were made ready, in that order. -/
def line (u : Scheduler J V) : List J := u.dispatched ++ u.ready

variable {u : Scheduler J V} {a b j : J} {horizon now : Nat}

omit [DecidableEq J] [DecidableEq V] in
/-- A job is due if it sleeps and its deadline is not ahead. -/
theorem mem_due : j ∈ u.due now ↔ j ∈ u.sleeping ∧ u.deadline j ≤ now := by
  unfold due sortByKey
  rw [List.mem_insertionSort, List.mem_filter, decide_eq_true_eq]

omit [DecidableEq V] in
/-- Who is roused stands in the line, with those from before. -/
theorem mem_line_rouse {x : J} : x ∈ (u.rouse j).line ↔ x ∈ u.line ∨ x = j := by
  show x ∈ u.dispatched ++ (u.ready.erase j ++ [j]) ↔ x ∈ u.dispatched ++ u.ready ∨ x = j
  rw [List.mem_append, List.mem_append, List.mem_append, List.mem_singleton]
  by_cases hx : x = j
  · simp [hx]
  · rw [List.mem_erase_of_ne hx]
    simp [hx]

omit [DecidableEq V] in
theorem mem_line_foldl_rouse {x : J} : ∀ (js : List J) {u : Scheduler J V},
    x ∈ (js.foldl rouse u).line ↔ x ∈ u.line ∨ x ∈ js := by
  intro js
  induction js with
  | nil => simp
  | cons j js ih =>
      intro u
      rw [List.foldl_cons, ih, mem_line_rouse, List.mem_cons, or_assoc]

/-- **How a job gets in line**: its time has come, or its event, or a signal; and it stays there. -/
theorem mem_line_apply (op : SchedulerOp J V) :
    j ∈ (u.apply horizon op).line ↔ j ∈ u.line ∨ j ∈ u.called op ∨ j ∈ u.roused op := by
  cases op with
  | sleep i d now =>
      unfold apply called roused
      dsimp only
      split <;> simp [line, begin, fallAsleep]
  | wait v i => simp [apply, called, roused, line, enqueue]
  | waitUntil v i d now =>
      unfold apply called roused
      dsimp only
      split <;> simp [line, begin, fallAsleep, enqueue]
  | wake i =>
      unfold apply called roused
      dsimp only
      by_cases hi : i ∈ u.sleeping
      · rw [if_pos hi, if_pos hi]
        simp [line, or_assoc]
      · rw [if_neg hi, if_neg hi]
        simp
  | signal v =>
      unfold apply called roused
      dsimp only
      cases hv : u.waiting v with
      | nil => simp
      | cons i is =>
          show j ∈ (u.rouse i).line ↔ _
          rw [mem_line_rouse]
          simp
  | broadcast v =>
      show j ∈ ((u.waiting v).foldl rouse u).line ↔ _
      rw [mem_line_foldl_rouse]
      simp [called, roused]
  | tick now => simp [apply, called, roused, line, or_assoc]
  | dispatch =>
      unfold apply called roused
      dsimp only
      cases hready : u.ready with
      | nil => simp
      | cons i is => simp [line, hready]
  | leave i => simp [apply, called, roused, line]

omit [DecidableEq V] in
/-- Nobody is overtaken but by being roused itself. -/
theorem before_rouse (h : [a, b].Sublist u.line) (ha : a ≠ j) : [a, b].Sublist (u.rouse j).line := by
  show [a, b].Sublist (u.dispatched ++ (u.ready.erase j ++ [j]))
  rw [← List.append_assoc]
  obtain ⟨l₁, l₂, heq, h₁, h₂⟩ := List.sublist_append_iff.mp h
  by_cases hb : b = j
  · -- the one behind goes to the end
    have hin : a ∈ u.dispatched ++ u.ready.erase j := by
      have ha' : a ∈ u.dispatched ++ u.ready := h.subset List.mem_cons_self
      rw [List.mem_append] at ha' ⊢
      rw [List.mem_erase_of_ne ha]
      exact ha'
    have hone : [a].Sublist (u.dispatched ++ u.ready.erase j) := List.singleton_sublist.mpr hin
    rw [hb]
    exact hone.append (List.Sublist.refl [j])
  · -- neither of the two moves
    have hout : j ∉ l₂ := by
      intro hin
      have hj : j ∈ [a, b] := heq ▸ List.mem_append_right l₁ hin
      simp only [List.mem_cons, List.not_mem_nil, or_false] at hj
      cases hj with
      | inl h => exact ha h.symm
      | inr h => exact hb h.symm
    have hkept : l₂.Sublist (u.ready.erase j) := by
      have := h₂.erase j
      rwa [List.erase_of_not_mem hout] at this
    rw [heq]
    exact (h₁.append hkept).trans (List.sublist_append_left _ _)

omit [DecidableEq V] in
theorem before_foldl_rouse : ∀ (js : List J) {u : Scheduler J V}, [a, b].Sublist u.line → a ∉ js →
    [a, b].Sublist (js.foldl rouse u).line := by
  intro js
  induction js with
  | nil => exact fun h _ => h
  | cons j js ih =>
      intro u h ha
      exact ih (before_rouse h fun heq => ha (heq ▸ List.mem_cons_self)) fun hin =>
        ha (List.mem_cons_of_mem _ hin)

/-- **First come, first served**: nobody overtakes a job in line, unless a signal finds it there. -/
theorem before_apply (h : [a, b].Sublist u.line) {op : SchedulerOp J V} (ha : a ∉ u.roused op) :
    [a, b].Sublist (u.apply horizon op).line := by
  cases op with
  | sleep i d now =>
      unfold apply
      dsimp only
      split
      · exact h
      · exact h
  | wait v i => exact h
  | waitUntil v i d now =>
      unfold apply
      dsimp only
      split
      · exact h
      · exact h
  | wake i =>
      unfold apply
      dsimp only
      split
      · show [a, b].Sublist (u.dispatched ++ (u.ready ++ [i]))
        rw [← List.append_assoc]
        exact h.trans (List.sublist_append_left _ _)
      · exact h
  | signal v =>
      unfold roused at ha
      unfold apply
      dsimp only at ha ⊢
      cases hv : u.waiting v with
      | nil => exact h
      | cons i is =>
          rw [hv] at ha
          exact before_rouse h fun heq => ha (by simp [heq])
  | broadcast v => exact before_foldl_rouse (u.waiting v) h ha
  | tick now =>
      show [a, b].Sublist (u.dispatched ++ (u.ready ++ u.due now))
      rw [← List.append_assoc]
      exact h.trans (List.sublist_append_left _ _)
  | dispatch =>
      unfold apply
      dsimp only
      cases hready : u.ready with
      | nil => exact h
      | cons i is =>
          show [a, b].Sublist (u.dispatched ++ [i] ++ is)
          -- dispatching moves the border in the line and nothing else
          have heq : u.line = u.dispatched ++ [i] ++ is := by
            unfold line
            rw [hready, List.append_assoc, List.singleton_append]
          rw [← heq]
          exact h
  | leave i => exact h

/-! ## §3. Ticks. -/

omit [DecidableEq J] in
/-- In a sorted list the smaller key comes first. -/
theorem before_of_sorted (key : J → Nat) {l : List J} (hl : l.Pairwise fun a b => key a ≤ key b)
    (ha : a ∈ l) (hb : b ∈ l) (hlt : key a < key b) : [a, b].Sublist l := by
  induction l with
  | nil => cases ha
  | cons x l ih =>
      obtain ⟨hx, hl⟩ := List.pairwise_cons.mp hl
      cases List.mem_cons.mp ha with
      | inl hax =>
          rw [hax] at hlt ⊢
          cases List.mem_cons.mp hb with
          | inl hbx =>
              rw [hbx] at hlt
              exact absurd hlt (Nat.lt_irrefl _)
          | inr hbl => exact (List.singleton_sublist.mpr hbl).cons_cons x
      | inr hal =>
          cases List.mem_cons.mp hb with
          | inl hbx =>
              have := hx a hal
              rw [hbx] at hlt
              omega
          | inr hbl => exact (ih hl hal hbl).cons x

omit [DecidableEq J] [DecidableEq V] in
/-- What is due comes in the order of deadlines, ... -/
theorem before_due (ha : a ∈ u.due now) (hb : b ∈ u.due now) (hlt : u.deadline a < u.deadline b) :
    [a, b].Sublist (u.due now) :=
  before_of_sorted u.deadline (List.pairwise_insertionSort _ _) ha hb hlt

omit [DecidableEq J] [DecidableEq V] in
/-- ... and for equal deadlines in the order of falling asleep. -/
theorem before_due_of_eq (h : [a, b].Sublist u.sleeping) (ha : u.deadline a ≤ now)
    (heq : u.deadline a = u.deadline b) : [a, b].Sublist (u.due now) := by
  have hdue : [a, b].Sublist (u.sleeping.filter fun j => u.deadline j ≤ now) := by
    have hfil := h.filter fun j => decide (u.deadline j ≤ now)
    simpa [ha, ← heq] using hfil
  have hkey : [a, b].Sublist ((u.sleeping.filter fun j => u.deadline j ≤ now).filter
      fun j => u.deadline j = u.deadline a) := by
    have hfil := hdue.filter fun j => decide (u.deadline j = u.deadline a)
    simpa [heq] using hfil
  rw [← filter_sortByKey] at hkey
  exact hkey.trans List.filter_sublist

/-- A tick puts what is due behind what is ready. -/
theorem line_tick : (u.apply horizon (.tick now)).line = u.line ++ u.due now := by
  show u.dispatched ++ (u.ready ++ u.due now) = u.dispatched ++ u.ready ++ u.due now
  rw [List.append_assoc]

end Scheduler

end RocketCo.Lib
