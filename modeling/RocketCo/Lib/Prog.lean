/-
  RocketCo.Lib.Prog — programs that call an environment, and the rules to reason on them.

    • `Prog Op Ans α` — ends with an `α`, or makes a call and goes on with its answer,
    • `Prog.exec handle p s` — the run of `p` in an environment in state `s`,
    • `Ensures handle P p Q` — a precondition on the state and the calls so far, and what holds behind
      the program; one rule for each construct, and for loops an invariant and a variant, or an invariant
      alone for one that need not end,
    • `p.lift f g` — the program among other calls,
    • `p.Within C` — the program makes no calls but those in `C`, and keeps what these keep.
-/
namespace RocketCo.Lib

/-- A program over the calls `Op`, all answered by an `Ans`. -/
inductive Prog (Op Ans α : Type) where
  | done (a : α)
  | call (op : Op) (next : Ans → Prog Op Ans α)

/-- What a run comes to: its result, the calls with their answers, and the state of the environment. -/
structure Outcome (Op Ans α σ : Type) where
  result : α
  calls : List (Op × Ans)
  final : σ

namespace Prog

variable {Op Ans α β γ σ : Type}

/-- One program behind the other. -/
def bind : Prog Op Ans α → (α → Prog Op Ans β) → Prog Op Ans β
  | done a, f => f a
  | call op next, f => call op fun ans => (next ans).bind f

/-- A loop: the body says with what to go on, or with what to end; `none` is out of fuel. -/
def loop (body : β → Prog Op Ans (β ⊕ α)) : Nat → β → Prog Op Ans (Option α)
  | 0, _ => done none
  | fuel + 1, b => (body b).bind fun r =>
      match r with
      | .inl b => loop body fuel b
      | .inr a => done (some a)

/-- The run, in an environment that answers a call and changes its state. -/
def exec (handle : σ → Op → Ans × σ) : Prog Op Ans α → σ → Outcome Op Ans α σ
  | done a, s => ⟨a, [], s⟩
  | call op next, s =>
      let r := handle s op
      let o := exec handle (next r.1) r.2
      ⟨o.result, (op, r.1) :: o.calls, o.final⟩

variable {handle : σ → Op → Ans × σ}

/-- A program that is done makes no call. -/
@[simp] theorem exec_done (a : α) (s : σ) :
    (done a : Prog Op Ans α).exec handle s = ⟨a, [], s⟩ := rfl

/-- A call is answered by the environment, and the program goes on with the answer. -/
theorem exec_call {op : Op} {s s' : σ} {ans : Ans} (h : handle s op = (ans, s'))
    (next : Ans → Prog Op Ans α) : (call op next).exec handle s =
      ⟨((next ans).exec handle s').result, (op, ans) :: ((next ans).exec handle s').calls,
        ((next ans).exec handle s').final⟩ := by
  rw [exec, h]

/-- One program after the other: the calls follow each other, and the state is passed on. -/
theorem exec_bind (f : α → Prog Op Ans β) : ∀ (p : Prog Op Ans α) (s : σ),
    (p.bind f).exec handle s =
      ⟨((f (p.exec handle s).result).exec handle (p.exec handle s).final).result,
        (p.exec handle s).calls ++
          ((f (p.exec handle s).result).exec handle (p.exec handle s).final).calls,
        ((f (p.exec handle s).result).exec handle (p.exec handle s).final).final⟩ := by
  intro p
  induction p with
  | done a =>
      intro s
      rfl
  | call op next ih =>
      intro s
      have hans : handle s op = ((handle s op).1, (handle s op).2) := rfl
      show (call op fun ans => (next ans).bind f).exec handle s = _
      rw [exec_call hans, ih, exec_call hans]
      rfl

/-- The last turn of a loop. -/
theorem exec_loop_stop {body : β → Prog Op Ans (β ⊕ α)} {b : β} {a : α} {s : σ} (fuel : Nat)
    (h : ((body b).exec handle s).result = .inr a) :
    (loop body (fuel + 1) b).exec handle s =
      ⟨some a, ((body b).exec handle s).calls, ((body b).exec handle s).final⟩ := by
  unfold loop
  rw [exec_bind, h]
  simp

/-- A turn with others behind it. -/
theorem exec_loop_go {body : β → Prog Op Ans (β ⊕ α)} {b b' : β} {s : σ} (fuel : Nat)
    (h : ((body b).exec handle s).result = .inl b') :
    (loop body (fuel + 1) b).exec handle s =
      ⟨((loop body fuel b').exec handle ((body b).exec handle s).final).result,
        ((body b).exec handle s).calls ++
          ((loop body fuel b').exec handle ((body b).exec handle s).final).calls,
        ((loop body fuel b').exec handle ((body b).exec handle s).final).final⟩ := by
  show ((body b).bind _).exec handle s = _
  rw [exec_bind, h]

/-- `p`, whose result comes with the last answer it got, or `last` if it makes no call. -/
def withLast : Prog Op Ans α → Option Ans → Prog Op Ans (α × Option Ans)
  | done a, last => done (a, last)
  | call op next, _ => call op fun ans => (next ans).withLast (some ans)

/-- What the last call answered, if there was one, is returned with the result. -/
theorem exec_withLast : ∀ (p : Prog Op Ans α) (last : Option Ans) (s : σ),
    (p.withLast last).exec handle s =
      ⟨((p.exec handle s).result, ((p.exec handle s).calls.getLast?.map Prod.snd).or last),
        (p.exec handle s).calls, (p.exec handle s).final⟩ := by
  intro p
  induction p with
  | done a =>
      intro last s
      rfl
  | call op next ih =>
      intro last s
      have hans : handle s op = ((handle s op).1, (handle s op).2) := rfl
      show (call op fun ans => (next ans).withLast (some ans)).exec handle s = _
      rw [exec_call hans, ih, exec_call hans]
      -- the first answer is the last one if there is no other
      show Outcome.mk (_, _) _ _ = Outcome.mk (_, _) _ _
      rw [List.getLast?_cons]
      cases ((next (handle s op).1).exec handle (handle s op).2).calls.getLast? with
      | none => rfl
      | some x => rfl

/-! ## §1. Pre- and postconditions. -/

/-- From a state and calls so far that satisfy `P`, the result, the state and the calls behind the
program satisfy `Q`. -/
def Ensures (handle : σ → Op → Ans × σ) (P : σ → List (Op × Ans) → Prop) (p : Prog Op Ans α)
    (Q : α → σ → List (Op × Ans) → Prop) : Prop :=
  ∀ s cs, P s cs → Q (p.exec handle s).result (p.exec handle s).final (cs ++ (p.exec handle s).calls)

variable {P P' : σ → List (Op × Ans) → Prop} {Q Q' : α → σ → List (Op × Ans) → Prop}

/-- A program that is done has what it was given. -/
theorem Ensures.done {a : α} (h : ∀ s cs, P s cs → Q a s cs) :
    Ensures handle P (.done a : Prog Op Ans α) Q := by
  intro s cs hP
  show Q a s (cs ++ [])
  rw [List.append_nil]
  exact h s cs hP

/-- **A call**: its answer is that of some state that satisfies the precondition. -/
theorem Ensures.call {op : Op} {next : Ans → Prog Op Ans α}
    (h : ∀ s cs, P s cs → Ensures handle
      (fun s' cs' => s' = (handle s op).2 ∧ cs' = cs ++ [(op, (handle s op).1)])
      (next (handle s op).1) Q) :
    Ensures handle P (.call op next) Q := by
  intro s cs hP
  have hnext := h s cs hP (handle s op).2 (cs ++ [(op, (handle s op).1)]) ⟨rfl, rfl⟩
  rw [List.append_assoc] at hnext
  exact hnext

/-- **One program after the other**, with what holds in between. -/
theorem Ensures.bind {p : Prog Op Ans α} {f : α → Prog Op Ans β}
    {R : β → σ → List (Op × Ans) → Prop} (hp : Ensures handle P p Q)
    (hf : ∀ a, Ensures handle (Q a) (f a) R) : Ensures handle P (p.bind f) R := by
  intro s cs hP
  have hmid := hp s cs hP
  have hend := hf _ _ _ hmid
  rw [List.append_assoc] at hend
  rw [exec_bind]
  exact hend

/-- A stronger precondition and a weaker postcondition. -/
theorem Ensures.mono {p : Prog Op Ans α} (h : Ensures handle P p Q)
    (hpre : ∀ s cs, P' s cs → P s cs) (hpost : ∀ a s cs, Q a s cs → Q' a s cs) :
    Ensures handle P' p Q' :=
  fun s cs hP => hpost _ _ _ (h s cs (hpre s cs hP))

/-- The state and the calls that satisfy the precondition, by name. -/
theorem Ensures.given {p : Prog Op Ans α}
    (h : ∀ s cs, P s cs → Ensures handle (fun s' cs' => s' = s ∧ cs' = cs) p Q) :
    Ensures handle P p Q :=
  fun s cs hP => h s cs hP s cs ⟨rfl, rfl⟩

/-- Two specifications of one program hold together. -/
theorem Ensures.and {p : Prog Op Ans α} (h : Ensures handle P p Q) (h' : Ensures handle P' p Q') :
    Ensures handle (fun s cs => P s cs ∧ P' s cs) p fun a s cs => Q a s cs ∧ Q' a s cs :=
  fun s cs hP => ⟨h s cs hP.1, h' s cs hP.2⟩

/-- **The frame rule**: what a program ensures of its calls from the start, it ensures of its own calls
behind others. -/
theorem Ensures.frame {F : List (Op × Ans) → Prop} {p : Prog Op Ans α}
    {Q : α → List (Op × Ans) → Prop}
    (h : Ensures handle (fun _ cs => cs = []) p fun a _ cs => Q a cs) :
    Ensures handle (fun _ cs => F cs) p fun a _ cs =>
      ∃ before own, cs = before ++ own ∧ F before ∧ Q a own := by
  intro s cs hF
  have hown := h s [] rfl
  rw [List.nil_append] at hown
  exact ⟨cs, (p.exec handle s).calls, rfl, hF, hown⟩

theorem Ensures.withLast {p : Prog Op Ans α} {Q : α → List (Op × Ans) → Prop} (last : Option Ans)
    (h : Ensures handle (fun _ cs => cs = []) p fun a _ cs => Q a cs) :
    Ensures handle (fun _ cs => cs = []) (p.withLast last) fun x _ cs =>
      Q x.1 cs ∧ x.2 = (cs.getLast?.map Prod.snd).or last := by
  intro s cs hcs
  have hp := h s cs hcs
  rw [hcs, List.nil_append] at hp ⊢
  rw [exec_withLast]
  exact ⟨hp, rfl⟩

/-- Behind a turn from `b`: the invariant and a smaller variant, or the loop's postcondition. -/
def TurnPost (I : β → σ → List (Op × Ans) → Prop) (μ : β → Nat) (Q : α → σ → List (Op × Ans) → Prop)
    (b : β) : β ⊕ α → σ → List (Op × Ans) → Prop
  | .inl b', s, cs => I b' s cs ∧ μ b' < μ b
  | .inr a, s, cs => Q a s cs

/-- **The loop rule.**  A body that keeps the invariant `I` and lowers the variant `μ` as long as the loop
goes on ends it within the fuel, with what the body says of its last turn. -/
theorem Ensures.loop {body : β → Prog Op Ans (β ⊕ α)} {I : β → σ → List (Op × Ans) → Prop}
    {μ : β → Nat}
    (hbody : ∀ b, Ensures handle (I b) (body b) (TurnPost I μ Q b)) :
    ∀ (fuel : Nat) (b : β), μ b < fuel →
      Ensures handle (I b) (loop body fuel b) fun r s cs => ∃ a, r = some a ∧ Q a s cs := by
  intro fuel
  induction fuel with
  | zero =>
      intro b hlt
      omega
  | succ fuel ih =>
      intro b hlt
      refine (hbody b).bind ?_
      intro r
      cases r with
      | inl b' =>
          -- the variant is below that of `b`, so the rest of the fuel is enough
          intro s cs hand
          have hfuel : μ b' < fuel := by
            have := hand.2
            omega
          exact ih b' hfuel s cs hand.1
      | inr a => exact Ensures.done fun s cs hQ => ⟨a, rfl, hQ⟩

/-- Behind a turn: the invariant, or the loop's postcondition. -/
def TurnKeeps (I : β → σ → List (Op × Ans) → Prop) (Q : α → σ → List (Op × Ans) → Prop) :
    β ⊕ α → σ → List (Op × Ans) → Prop
  | .inl b, s, cs => I b s cs
  | .inr a, s, cs => Q a s cs

/-- Behind some turns: the loop has ended, or is where the invariant holds. -/
def RunKeeps (I : β → σ → List (Op × Ans) → Prop) (Q : α → σ → List (Op × Ans) → Prop) :
    Option α → σ → List (Op × Ans) → Prop
  | none, s, cs => ∃ b, I b s cs
  | some a, s, cs => Q a s cs

/-- **The loop rule for a loop that need not end**, after any number of turns. -/
theorem Ensures.loop_turns {body : β → Prog Op Ans (β ⊕ α)} {I : β → σ → List (Op × Ans) → Prop}
    (hbody : ∀ b, Ensures handle (I b) (body b) (TurnKeeps I Q)) :
    ∀ (turns : Nat) (b : β), Ensures handle (I b) (Prog.loop body turns b) (RunKeeps I Q) := by
  intro turns
  induction turns with
  | zero =>
      intro b
      exact Ensures.done fun s cs hI => ⟨b, hI⟩
  | succ turns ih =>
      intro b
      refine (hbody b).bind ?_
      intro r
      cases r with
      | inl b' => exact ih b'
      | inr a => exact Ensures.done fun s cs hQ => hQ

/-! ## §2. What a program can call. -/

variable {Op' Ans' : Type} {C : Op → Prop}

/-- Every call the program can make is in `C`. -/
def Within (C : Op → Prop) : Prog Op Ans α → Prop
  | done _ => True
  | call op next => C op ∧ ∀ ans, (next ans).Within C

/-- Two programs that stay within `C`, one after the other. -/
theorem Within.bind (f : α → Prog Op Ans β) (hf : ∀ a, (f a).Within C) :
    ∀ p : Prog Op Ans α, p.Within C → (p.bind f).Within C := by
  intro p
  induction p with
  | done a => exact fun _ => hf a
  | call op next ih => exact fun h => ⟨h.1, fun ans => ih ans (h.2 ans)⟩

/-- A loop stays within `C` if its body does. -/
theorem Within.loop {body : β → Prog Op Ans (β ⊕ α)} (hbody : ∀ b, (body b).Within C) :
    ∀ (turns : Nat) (b : β), (Prog.loop body turns b).Within C := by
  intro turns
  induction turns with
  | zero => exact fun _ => trivial
  | succ turns ih =>
      intro b
      refine Within.bind _ ?_ (body b) (hbody b)
      intro r
      cases r with
      | inl b' => exact ih b'
      | inr a => trivial

theorem Within.any : ∀ p : Prog Op Ans α, p.Within fun _ => True := by
  intro p
  induction p with
  | done a => trivial
  | call op next ih => exact ⟨trivial, ih⟩

/-- The program, where its calls are some among others. -/
def lift (f : Op → Op') (g : Ans' → Ans) : Prog Op Ans α → Prog Op' Ans' α
  | done a => done a
  | call op next => call (f op) fun ans => (next (g ans)).lift f g

/-- It comes to the same in the environment that it sees. -/
theorem exec_lift {handle : σ → Op' → Ans' × σ} (f : Op → Op') (g : Ans' → Ans) :
    ∀ (p : Prog Op Ans α) (s : σ), ((p.lift f g).exec handle s).result =
      (p.exec (fun s op => (g (handle s (f op)).1, (handle s (f op)).2)) s).result := by
  intro p
  induction p with
  | done a => exact fun _ => rfl
  | call op next ih => exact fun s => ih (g (handle s (f op)).1) (handle s (f op)).2

theorem Within.lift {C' : Op' → Prop} (f : Op → Op') (g : Ans' → Ans) (hf : ∀ op, C op → C' (f op)) :
    ∀ p : Prog Op Ans α, p.Within C → (p.lift f g).Within C' := by
  intro p
  induction p with
  | done a => exact fun _ => trivial
  | call op next ih => exact fun h => ⟨hf op h.1, fun ans => ih (g ans) (h.2 (g ans))⟩

/-- **What the calls keep**, the program keeps. -/
theorem Ensures.within {I : List (Op × Ans) → Prop}
    (hI : ∀ cs op ans, C op → I cs → I (cs ++ [(op, ans)])) :
    ∀ p : Prog Op Ans α, p.Within C → Ensures handle (fun _ cs => I cs) p fun _ _ cs => I cs := by
  intro p
  induction p with
  | done a => exact fun _ => Ensures.done fun _ _ h => h
  | call op next ih =>
      intro h
      refine Ensures.call ?_
      intro s cs hcs
      refine (ih (handle s op).1 (h.2 (handle s op).1)).mono ?_ fun _ _ _ h => h
      intro s' cs' hand
      rw [hand.2]
      exact hI cs op (handle s op).1 h.1 hcs

end Prog

end RocketCo.Lib
