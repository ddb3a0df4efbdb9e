/-
  RocketCo.Lib.Run — finite runs of a labelled transition system, and the rules to reason on them.

    • `Run step s as t` — from `s` the actions `as`, taken one after the other, lead to `t`,
    • `Run.invariant` — what one step preserves, a run preserves,
    • `Run.guarded_iff_under`, `Run.guarded_iff`, `Run.guarded_iff_keeping`, `Run.guarded_iff_of_invariant`,
      `Run.guarded_iff_last` — guards on the steps that say exactly when an invariant is kept, or when a
      step is good,
    • `Run.of_exec`, `Run.of_check` — a run found by evaluation.
-/
import Mathlib.Logic.Basic

namespace RocketCo.Lib

variable {σ α : Type*}

/-- The actions `as`, in this order, lead from one state to the other. -/
inductive Run (step : σ → α → σ → Prop) : σ → List α → σ → Prop
  | nil (s : σ) : Run step s [] s
  | snoc {s t u : σ} {as : List α} {a : α} (h : Run step s as t) (ha : step t a u) :
      Run step s (as ++ [a]) u

variable {step step' : σ → α → σ → Prop} {s t u : σ} {as bs : List α}

/-- **The invariant rule.** -/
theorem Run.invariant {I : σ → Prop} (hstep : ∀ s a t, I s → step s a t → I t)
    (h : Run step s as t) (hs : I s) : I t := by
  induction h with
  | nil => exact hs
  | snoc _ ha ih => exact hstep _ _ _ ih ha

/-- A run with fewer conditions on its steps. -/
theorem Run.mono (hstep : ∀ s a t, step s a t → step' s a t) (h : Run step s as t) :
    Run step' s as t := by
  induction h with
  | nil => exact .nil s
  | snoc _ ha ih => exact .snoc ih (hstep _ _ _ ha)

theorem Run.trans (h₁ : Run step s as t) (h₂ : Run step t bs u) : Run step s (as ++ bs) u := by
  induction h₂ with
  | nil => simpa using h₁
  | snoc _ ha ih =>
      rw [← List.append_assoc]
      exact .snoc ih ha

theorem Run.cons {a : α} (ha : step s a t) (h : Run step t as u) : Run step s (a :: as) u := by
  have hone : Run step s ([] ++ [a]) t := .snoc (.nil s) ha
  exact hone.trans h

/-- A run ends with a step. -/
theorem Run.unsnoc {a : α} (h : Run step s (as ++ [a]) u) : ∃ t, Run step s as t ∧ step t a u := by
  generalize hbs : as ++ [a] = bs at h
  cases h with
  | nil => simp at hbs
  | @snoc t _ cs b h ha =>
      obtain ⟨has, hab⟩ := List.append_inj' hbs rfl
      rw [has, List.singleton_inj.mp hab]
      exact ⟨t, h, ha⟩

theorem Run.single {a : α} (h : Run step s [a] u) : step s a u := by
  have happend : Run step s ([] ++ [a]) u := h
  obtain ⟨t, hnil, ha⟩ := happend.unsnoc
  have hst : s = t := by
    generalize hbs : ([] : List α) = bs at hnil
    cases hnil with
    | nil => rfl
    | snoc _ _ => simp at hbs
  rw [hst]
  exact ha

/-- **The guard rule.**  When a step of a run that satisfies the invariant `J` keeps `I` exactly if its
guard holds, the runs whose steps all meet their guards are those all of whose states satisfy `I`.  It is
enough that `J` is kept where `I` holds. -/
theorem Run.guarded_iff_under {J I : σ → Prop} {guard : σ → α → Prop}
    (hinv : ∀ s a t, J s → I s → step s a t → J t)
    (hiff : ∀ s a t, J s → I s → step s a t → (guard s a ↔ I t)) (hj : J s) (hs : I s) :
    Run (fun s a t => step s a t ∧ guard s a) s as t ↔
      Run (fun s a t => step s a t ∧ I t) s as t := by
  have hlast : ∀ {as : List α} {t : σ}, Run (fun s a t => step s a t ∧ I t) s as t → J t ∧ I t := by
    intro as t h
    refine h.invariant (I := fun t => J t ∧ I t) ?_ ⟨hj, hs⟩
    intro s a t hand ha
    exact ⟨hinv s a t hand.1 hand.2 ha.1, ha.2⟩
  constructor
  · intro h
    induction h with
    | nil => exact .nil s
    | snoc _ ha ih =>
        obtain ⟨hJ, hI⟩ := hlast ih
        exact .snoc ih ⟨ha.1, (hiff _ _ _ hJ hI ha.1).mp ha.2⟩
  · intro h
    induction h with
    | nil => exact .nil s
    | snoc hrun ha ih =>
        obtain ⟨hJ, hI⟩ := hlast hrun
        exact .snoc ih ⟨ha.1, (hiff _ _ _ hJ hI ha.1).mpr ha.2⟩

/-- The rule when no invariant is needed. -/
theorem Run.guarded_iff {I : σ → Prop} {guard : σ → α → Prop}
    (hiff : ∀ s a t, I s → step s a t → (guard s a ↔ I t)) (hs : I s) :
    Run (fun s a t => step s a t ∧ guard s a) s as t ↔
      Run (fun s a t => step s a t ∧ I t) s as t :=
  Run.guarded_iff_under (J := fun _ => True) (fun _ _ _ _ _ _ => trivial)
    (fun s a t _ => hiff s a t) trivial hs

/-- **The same rule for guards on the steps themselves**, with an invariant that guarded steps keep. -/
theorem Run.guarded_iff_keeping {I : σ → Prop} {guard good : σ → α → Prop}
    (hinv : ∀ s a t, I s → step s a t → guard s a → I t)
    (hiff : ∀ s a t, I s → step s a t → (guard s a ↔ good s a)) (hs : I s) :
    Run (fun s a t => step s a t ∧ guard s a) s as t ↔
      Run (fun s a t => step s a t ∧ good s a) s as t := by
  constructor
  · intro h
    induction h with
    | nil => exact .nil s
    | snoc hrun ha ih =>
        have hI := hrun.invariant (fun s a t hI ha => hinv s a t hI ha.1 ha.2) hs
        exact .snoc ih ⟨ha.1, (hiff _ _ _ hI ha.1).mp ha.2⟩
  · intro h
    induction h with
    | nil => exact .nil s
    | snoc hrun ha ih =>
        have hI := ih.invariant (fun s a t hI ha => hinv s a t hI ha.1 ha.2) hs
        exact .snoc ih ⟨ha.1, (hiff _ _ _ hI ha.1).mpr ha.2⟩

/-- The rule for an invariant of all runs. -/
theorem Run.guarded_iff_of_invariant {I : σ → Prop} {guard good : σ → α → Prop}
    (hinv : ∀ s a t, I s → step s a t → I t)
    (hiff : ∀ s a t, I s → step s a t → (guard s a ↔ good s a)) (hs : I s) :
    Run (fun s a t => step s a t ∧ guard s a) s as t ↔
      Run (fun s a t => step s a t ∧ good s a) s as t :=
  Run.guarded_iff_keeping (fun s a t hI ha _ => hinv s a t hI ha) hiff hs

/-- **The rule for what cannot be undone.**  When `I` holds behind a step exactly if it held before and the
step meets its guard, the last state of a run tells whether all of its steps did. -/
theorem Run.guarded_iff_last {J I : σ → Prop} {guard : σ → α → Prop}
    (hinv : ∀ s a t, J s → step s a t → J t)
    (hiff : ∀ s a t, J s → step s a t → (I t ↔ I s ∧ guard s a)) (hj : J s) (hs : I s)
    (h : Run step s as t) : Run (fun s a t => step s a t ∧ guard s a) s as t ↔ I t := by
  constructor
  · intro hguarded
    have hkeep : J t ∧ I t := by
      refine hguarded.invariant (I := fun t => J t ∧ I t) ?_ ⟨hj, hs⟩
      intro s a t hand ha
      exact ⟨hinv s a t hand.1 ha.1, (hiff s a t hand.1 ha.1).mpr ⟨hand.2, ha.2⟩⟩
    exact hkeep.2
  · intro hI
    induction h with
    | nil => exact .nil s
    | snoc hrun ha ih =>
        have hlast := (hiff _ _ _ (hrun.invariant hinv hj) ha).mp hI
        exact .snoc (ih hlast.1) ⟨ha, hlast.2⟩

/-! ## §1. Runs of a function. -/

/-- The state a list of actions leads to, when every action is allowed and possible. -/
def exec (f : σ → α → Option σ) (ok : σ → α → Bool) : σ → List α → Option σ
  | s, [] => some s
  | s, a :: as =>
      if ok s a then
        match f s a with
        | none => none
        | some t => exec f ok t as
      else none

/-- **A run found by evaluation.** -/
theorem Run.of_exec {f : σ → α → Option σ} {ok : σ → α → Bool}
    (hstep : ∀ s a t, ok s a = true → f s a = some t → step s a t) :
    ∀ {as : List α} {s t : σ}, exec f ok s as = some t → Run step s as t := by
  intro as
  induction as with
  | nil =>
      intro s t h
      have heq : s = t := by simpa [exec] using h
      rw [heq]
      exact .nil t
  | cons a as ih =>
      intro s t h
      unfold exec at h
      by_cases hok : ok s a = true
      · rw [if_pos hok] at h
        cases hf : f s a with
        | none =>
            rw [hf] at h
            simp at h
        | some v =>
            rw [hf] at h
            exact .cons (hstep _ _ _ hok hf) (ih h)
      · rw [if_neg hok] at h
        simp at h

/-- The run exists, and its last state passes a test. -/
def checkRun (f : σ → α → Option σ) (ok : σ → α → Bool) (s : σ) (as : List α) (p : σ → Bool) :
    Bool :=
  match exec f ok s as with
  | none => false
  | some t => p t

theorem Run.of_check {f : σ → α → Option σ} {ok : σ → α → Bool} {p : σ → Bool}
    (hstep : ∀ s a t, ok s a = true → f s a = some t → step s a t)
    (h : checkRun f ok s as p = true) : ∃ t, Run step s as t ∧ p t = true := by
  unfold checkRun at h
  cases hexec : exec f ok s as with
  | none =>
      rw [hexec] at h
      simp at h
  | some t =>
      rw [hexec] at h
      exact ⟨t, Run.of_exec hstep hexec, h⟩

end RocketCo.Lib
