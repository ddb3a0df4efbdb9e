/-
  RocketCo.Lib.Alloc — programs that allocate, and the rules to reason on them.

    • `Alloc σ α` — works on a state, and is stopped by a refused request for memory or by a fault,
    • `Granted memory n k` — a memory meets the `k` requests from number `n` on,
    • `Ensures P p Q E` — a precondition, what holds behind the program, and what holds where a refused
      request stops it; a program that satisfies one has no fault,
    • `Reached`, `At` — the pre- and postconditions that count requests, of some states and of one.
-/
namespace RocketCo.Lib

/-- What stops a program: `std::bad_alloc`, or an access outside of the objects. -/
inductive Stop where
  | badAlloc
  | fault
  deriving DecidableEq

/-- Programs on a state `σ`; the number is that of the requests for memory so far. -/
abbrev Alloc (σ : Type) := EStateM Stop (Nat × σ)

namespace Alloc

variable {σ α β : Type}

/-- The memory meets the next `k` requests. -/
def Granted (memory : Nat → Bool) (n k : Nat) : Prop := ∀ j < k, memory (n + j) = true

/-! ## §1. The programs. -/

/-- `new`: the address is the number of the request. -/
def new (memory : Nat → Bool) : Alloc σ Nat := fun (n, s) =>
  if memory n = true then .ok n (n + 1, s) else .error .badAlloc (n + 1, s)

/-- One `new` after the other. -/
def news (memory : Nat → Bool) : Nat → Alloc σ (List Nat)
  | 0 => pure []
  | k + 1 => do
      let a ← new memory
      let as ← news memory k
      pure (a :: as)

/-- An object of the state that must be there. -/
def load (f : σ → Option α) : Alloc σ α := fun (n, s) =>
  match f s with
  | some a => .ok a (n, s)
  | none => .error .fault (n, s)

def change (f : σ → σ) : Alloc σ Unit := fun (n, s) => .ok () (n, f s)

/-- `catch (const std::bad_alloc &)`. -/
def catching (p : Alloc σ α) (a : α) : Alloc σ α := fun (n, s) =>
  match p (n, s) with
  | .error .badAlloc (n, s) => .ok a (n, s)
  | r => r

/-- Where a program ends, unless with a fault. -/
def ends : EStateM.Result Stop (Nat × σ) α → Option (Nat × σ)
  | .ok _ s | .error .badAlloc s => some s
  | .error .fault _ => none

/-! ## §2. Pre- and postconditions. -/

/-- From a state that satisfies `P` the program ends in one that satisfies `Q`, or a refused request stops
it in one that satisfies `E`. -/
def Ensures (P : Nat → σ → Prop) (p : Alloc σ α) (Q : α → Nat → σ → Prop) (E : Nat → σ → Prop) :
    Prop :=
  ∀ n s, P n s →
    match p (n, s) with
    | .ok a (m, t) => Q a m t
    | .error .badAlloc (m, t) => E m t
    | .error .fault _ => False

variable {P P' : Nat → σ → Prop} {Q Q' : α → Nat → σ → Prop} {R : β → Nat → σ → Prop}
  {E E' : Nat → σ → Prop} {memory : Nat → Bool} {n k total : Nat} {I : σ → Prop}

/-- A program that makes no request returns its value in the state it started in. -/
theorem Ensures.pure {a : α} (h : ∀ n s, P n s → Q a n s) :
    Ensures P (Pure.pure a : Alloc σ α) Q E := h

/-- **One program after the other.** -/
theorem Ensures.bind {p : Alloc σ α} {f : α → Alloc σ β} (hp : Ensures P p Q E)
    (hf : ∀ a, Ensures (Q a) (f a) R E) : Ensures P (p >>= f) R E := by
  intro n s hP
  have hfirst := hp n s hP
  show match EStateM.bind p f (n, s) with
    | .ok a (m, t) => R a m t
    | .error .badAlloc (m, t) => E m t
    | .error .fault _ => False
  unfold EStateM.bind
  split at hfirst
  case h_1 a m t heq =>
    rw [heq]
    exact hf a m t hfirst
  case h_2 m t heq =>
    rw [heq]
    exact hfirst
  case h_3 => exact hfirst.elim

/-- A stronger precondition, and weaker conditions for both ends. -/
theorem Ensures.mono {p : Alloc σ α} (h : Ensures P p Q E) (hpre : ∀ n s, P' n s → P n s)
    (hpost : ∀ a n s, Q a n s → Q' a n s) (herror : ∀ n s, E n s → E' n s) :
    Ensures P' p Q' E' := by
  intro n s hP
  have hmain := h n s (hpre n s hP)
  split at hmain
  case h_1 a m t heq => exact hpost a m t hmain
  case h_2 m t heq => exact herror m t hmain
  case h_3 => exact hmain.elim

/-- A weaker postcondition ... -/
theorem Ensures.post {p : Alloc σ α} (h : Ensures P p Q E) (hpost : ∀ a n s, Q a n s → Q' a n s) :
    Ensures P p Q' E :=
  h.mono (fun _ _ h => h) hpost fun _ _ h => h

/-- ... and a weaker one for refusals. -/
theorem Ensures.error {p : Alloc σ α} (h : Ensures P p Q E) (herror : ∀ n s, E n s → E' n s) :
    Ensures P p Q E' :=
  h.mono (fun _ _ h => h) (fun _ _ _ h => h) herror

/-- A change of the state, without a request. -/
theorem Ensures.change {f : σ → σ} {Q : Unit → Nat → σ → Prop} (h : ∀ n s, P n s → Q () n (f s)) :
    Ensures P (Alloc.change f) Q E := h

/-- **A caught refusal** is no refusal. -/
theorem Ensures.catching {p : Alloc σ α} {a : α} (h : Ensures P p Q fun n s => Q a n s) :
    Ensures P (Alloc.catching p a) Q E := by
  intro n s hP
  have hmain := h n s hP
  unfold Alloc.catching
  split at hmain
  case h_1 b m t heq => simpa only [heq] using hmain
  case h_2 m t heq => simpa only [heq] using hmain
  case h_3 => exact hmain.elim

/-- **Behind either end** of the program the same may hold. -/
theorem Ensures.ends {p : Alloc σ α} {R : Nat → σ → Prop} {n : Nat} {s : σ}
    (h : Ensures P p (fun _ => R) R) (hP : P n s) :
    ∃ m t, Alloc.ends (p (n, s)) = some (m, t) ∧ R m t := by
  have hmain := h n s hP
  split at hmain
  case h_1 a m t heq => exact ⟨m, t, by rw [heq]; rfl, hmain⟩
  case h_2 m t heq => exact ⟨m, t, by rw [heq]; rfl, hmain⟩
  case h_3 => exact hmain.elim

/-- If the first program is known to return, the second one goes on from there. -/
theorem run_bind {p : Alloc σ α} {f : α → Alloc σ β} {a : α} {s : Nat × σ} {t : Nat × σ}
    (h : p s = .ok a t) : (p >>= f) s = f a t := by
  show EStateM.bind p f s = f a t
  unfold EStateM.bind
  rw [h]

theorem run_load {f : σ → Option α} {a : α} {n : Nat} {s : σ} (h : f s = some a) :
    Alloc.load f (n, s) = .ok a (n, s) := by
  simp only [Alloc.load, h]

/-! ## §3. Requests are counted. -/

/-- Since number `n` there were `k` requests, and all were met. -/
def Reached (memory : Nat → Bool) (n k : Nat) (I : σ → Prop) (m : Nat) (s : σ) : Prop :=
  m = n + k ∧ Granted memory n k ∧ I s

theorem Granted.succ (h : Granted memory n k) (hk : memory (n + k) = true) :
    Granted memory n (k + 1) := by
  intro j hj
  rcases Nat.lt_succ_iff_lt_or_eq.mp hj with hlt | rfl
  · exact h j hlt
  · exact hk

theorem Granted.of_le (h : Granted memory n total) {c : Nat} (hk : k + c ≤ total) :
    Granted memory (n + k) c := by
  intro j hj
  rw [Nat.add_assoc]
  exact h (k + j) (by omega)

/-- What follows from a refusal among `total` requests follows from one among a part of them. -/
theorem refused_later {J : σ → Prop} {c : Nat}
    (hE : ∀ m s, n + k < m → ¬ Granted memory (n + k) total → I s → E m s) (j : Nat)
    (hj : j + c ≤ total) (hI : ∀ s, J s → I s) :
    ∀ m s, n + (k + j) < m → ¬ Granted memory (n + (k + j)) c → J s → E m s := by
  intro m s hm hrefused hJ
  refine hE m s (by omega) (fun hall => hrefused ?_) (hI s hJ)
  rw [← Nat.add_assoc]
  exact hall.of_le hj

/-- **A request** is met, or refused in the state it is made in. -/
theorem Ensures.new
    (hE : ∀ m s, n + k < m → ¬ Granted memory (n + k) 1 → I s → E m s) :
    Ensures (Reached memory n k I) (Alloc.new memory)
      (fun a => Reached memory n (k + 1) fun s => I s ∧ a = n + k) E := by
  intro m s hpost
  obtain ⟨rfl, hgranted, hI⟩ := hpost
  by_cases hmem : memory (n + k) = true
  · simp only [Alloc.new, if_pos hmem]
    exact ⟨rfl, hgranted.succ hmem, hI, trivial⟩
  · simp only [Alloc.new, if_neg hmem]
    exact hE _ s (by omega) (fun hall => hmem (hall 0 (by omega))) hI

/-- The requests so far were met. -/
theorem Ensures.granted {p : Alloc σ α}
    (h : Granted memory n k → Ensures (Reached memory n k I) p Q E) :
    Ensures (Reached memory n k I) p Q E :=
  fun m s hreached => h hreached.2.1 m s hreached

/-- A value is returned, with as many requests as before. -/
theorem Ensures.ret {a : α} {J : α → σ → Prop} (h : ∀ s, I s → J a s) :
    Ensures (Reached memory n k I) (Pure.pure a : Alloc σ α) (fun a => Reached memory n k (J a)) E :=
  .pure fun _ s hreached => ⟨hreached.1, hreached.2.1, h s hreached.2.2⟩

/-- **The loop** makes that many requests. -/
theorem Ensures.news : ∀ {count k : Nat},
    (∀ m s, n + k < m → ¬ Granted memory (n + k) count → I s → E m s) →
    Ensures (Reached memory n k I) (Alloc.news memory count)
      (fun as => Reached memory n (k + count) fun s => I s ∧ as.length = count) E := by
  intro count
  induction count with
  | zero =>
      intro k _
      exact .pure fun m s h => ⟨h.1, h.2.1, h.2.2, rfl⟩
  | succ count ih =>
      intro k hE
      refine .bind (.new (refused_later hE 0 (by omega) fun _ h => h)) fun a => ?_
      have htail := ih (k := k + 1) (refused_later hE 1 (by omega) fun _ h => h)
      refine .bind (htail.mono ?_ (fun _ _ _ h => h) fun _ _ h => h) fun as => .pure ?_
      · intro m s hpost
        obtain ⟨hm, hgranted, hI, -⟩ := hpost
        exact ⟨hm, hgranted, hI⟩
      · intro m s hpost
        obtain ⟨rfl, hgranted, hI, hlen⟩ := hpost
        have hcount : k + 1 + count = k + (count + 1) := by omega
        rw [hcount] at hgranted ⊢
        exact ⟨rfl, hgranted, hI, by rw [List.length_cons, hlen]⟩

/-! ## §4. One state at a time. -/

/-- The state is known. -/
abbrev At (memory : Nat → Bool) (n k : Nat) (s : σ) : Nat → σ → Prop :=
  Reached memory n k fun t => t = s

variable {s : σ}

/-- No request has been made yet. -/
theorem At.start : At memory n 0 s n s := by
  refine ⟨rfl, ?_, rfl⟩
  intro j hj
  exact absurd hj (Nat.not_lt_zero j)

/-- **Every state** that satisfies the precondition, by itself. -/
theorem Ensures.each {p : Alloc σ α} (h : ∀ s, I s → Ensures (At memory n k s) p Q E) :
    Ensures (Reached memory n k I) p Q E := by
  intro m s hpre
  obtain ⟨hm, hgranted, hI⟩ := hpre
  exact h s hI m s ⟨hm, hgranted, rfl⟩

/-- What holds from every state that satisfies `I` holds from this one. -/
theorem Ensures.at {p : Alloc σ α} (hs : I s) (h : Ensures (Reached memory n k I) p Q E) :
    Ensures (At memory n k s) p Q E := by
  intro m t hpre
  obtain ⟨hm, hgranted, heq⟩ := hpre
  subst heq
  exact h m t ⟨hm, hgranted, hs⟩

/-- A run that makes no request. -/
theorem Ensures.of_run {p : Alloc σ α} {a : α} {t : σ} (h : p (n + k, s) = .ok a (n + k, t))
    (hQ : Granted memory n k → Q a (n + k) t) : Ensures (At memory n k s) p Q E := by
  intro m u hpre
  obtain ⟨hm, hgranted, heq⟩ := hpre
  rw [hm, heq, h]
  exact hQ hgranted

/-- A load of what is known to be there goes on with it, ... -/
theorem Ensures.bind_load {f : σ → Option α} {g : α → Alloc σ β} {a : α} (h : f s = some a)
    (hrest : Ensures (At memory n k s) (g a) R E) :
    Ensures (At memory n k s) (Alloc.load f >>= g) R E := by
  intro m t hpre
  have hrun : (Alloc.load f >>= g) (m, t) = g a (m, t) := by
    rw [hpre.2.2]
    exact run_bind (run_load h)
  rw [hrun]
  exact hrest m t hpre

/-- ... or ends the program with it. -/
theorem Ensures.load_at {f : σ → Option α} {a : α} {J : α → σ → Prop} (h : f s = some a) (hJ : J a s) :
    Ensures (At memory n k s) (Alloc.load f) (fun b => Reached memory n k (J b)) E := by
  intro m t hpre
  obtain ⟨hm, hgranted, heq⟩ := hpre
  rw [heq, run_load h]
  exact ⟨hm, hgranted, hJ⟩

/-- The changed state is known as well, ... -/
theorem Ensures.change_at (f : σ → σ) :
    Ensures (At memory n k s) (Alloc.change f) (fun _ => At memory n k (f s)) E :=
  .change fun _ _ hpre => ⟨hpre.1, hpre.2.1, congrArg f hpre.2.2⟩

/-- ... and the program goes on from it. -/
theorem Ensures.bind_change {f : σ → σ} {g : Unit → Alloc σ β}
    (hrest : Ensures (At memory n k (f s)) (g ()) R E) :
    Ensures (At memory n k s) (Alloc.change f >>= g) R E :=
  .bind (.change_at f) fun _ => hrest

/-! ## §5. Programs that may fault. -/

/-- `Ensures`, of the runs without a fault. -/
def Yields (P : Nat → σ → Prop) (p : Alloc σ α) (Q : α → Nat → σ → Prop) (E : Nat → σ → Prop) : Prop :=
  ∀ n s, P n s →
    match p (n, s) with
    | .ok a (m, t) => Q a m t
    | .error .badAlloc (m, t) => E m t
    | .error .fault _ => True

/-- What holds before the program holds behind it. -/
abbrev Keeps (I : Nat → σ → Prop) (p : Alloc σ α) : Prop := Yields I p (fun _ => I) I

theorem Yields.pure {a : α} (h : ∀ n s, P n s → Q a n s) :
    Yields P (Pure.pure a : Alloc σ α) Q E := h

/-- One program after the other; a fault in the first one ends both. -/
theorem Yields.bind {p : Alloc σ α} {f : α → Alloc σ β} (hp : Yields P p Q E)
    (hf : ∀ a, Yields (Q a) (f a) R E) : Yields P (p >>= f) R E := by
  intro n s hP
  have hfirst := hp n s hP
  show match EStateM.bind p f (n, s) with
    | .ok a (m, t) => R a m t
    | .error .badAlloc (m, t) => E m t
    | .error .fault _ => True
  unfold EStateM.bind
  split at hfirst
  case h_1 a m t heq =>
    rw [heq]
    exact hf a m t hfirst
  case h_2 m t heq =>
    rw [heq]
    exact hfirst
  case h_3 t heq =>
    rw [heq]
    trivial

/-- A weaker postcondition. -/
theorem Yields.post {p : Alloc σ α} (h : Yields P p Q E) (hpost : ∀ a n s, Q a n s → Q' a n s) :
    Yields P p Q' E := by
  intro n s hP
  have hmain := h n s hP
  split at hmain
  case h_1 a m t heq => exact hpost a m t hmain
  case h_2 m t heq => exact hmain
  case h_3 => trivial

/-- An object that is not there is a fault. -/
theorem Yields.load {f : σ → Option α} (h : ∀ n s a, P n s → f s = some a → Q a n s) :
    Yields P (Alloc.load f) Q E := by
  intro n s hP
  cases hf : f s with
  | none => simp only [Alloc.load, hf]
  | some a =>
      simp only [Alloc.load, hf]
      exact h n s a hP hf

/-- A load changes nothing. -/
theorem Keeps.load {f : σ → Option α} : Keeps P (Alloc.load f) :=
  Yields.load fun _ _ _ hP _ => hP

theorem Yields.change {f : σ → σ} {Q : Unit → Nat → σ → Prop} (h : ∀ n s, P n s → Q () n (f s)) :
    Yields P (Alloc.change f) Q E := h

/-- A request is met or refused, and counted in either case. -/
theorem Yields.new {Q : Nat → Nat → σ → Prop} (h : ∀ n s, P n s → Q n (n + 1) s)
    (herror : ∀ n s, P n s → E (n + 1) s) : Yields P (Alloc.new memory) Q E := by
  intro n s hP
  by_cases hmem : memory n = true
  · simp only [Alloc.new, if_pos hmem]
    exact h n s hP
  · simp only [Alloc.new, if_neg hmem]
    exact herror n s hP

/-- Requests that are met or refused, as far as they go. -/
theorem Keeps.news (h : ∀ n s, P n s → P (n + 1) s) (herror : ∀ n s, P n s → E n s) :
    ∀ count : Nat, Yields P (Alloc.news memory count) (fun _ => P) E := by
  intro count
  induction count with
  | zero => exact Yields.pure fun _ _ hP => hP
  | succ count ih =>
      refine Yields.bind (Yields.new (Q := fun _ => P) h fun n s hP =>
        herror (n + 1) s (h n s hP)) ?_
      intro a
      exact Yields.bind ih fun _ => Yields.pure fun _ _ hP => hP

/-- A caught refusal is no refusal, and a fault is not caught. -/
theorem Yields.catching {p : Alloc σ α} {a : α} (h : Yields P p Q fun n s => Q a n s) :
    Yields P (Alloc.catching p a) Q E := by
  intro n s hP
  have hmain := h n s hP
  unfold Alloc.catching
  split at hmain
  case h_1 b m t heq => simpa only [heq] using hmain
  case h_2 m t heq => simpa only [heq] using hmain
  case h_3 t heq => simp only [heq]

/-- A run that ends. -/
theorem Keeps.ends {p : Alloc σ α} {R : Nat → σ → Prop} {m : Nat} {s t : σ} (h : Keeps R p)
    (hends : Alloc.ends (p (n, s)) = some (m, t)) (hR : R n s) : R m t := by
  have hmain := h n s hR
  split at hmain
  case h_1 a m' t' heq =>
    rw [heq] at hends
    cases hends
    exact hmain
  case h_2 m' t' heq =>
    rw [heq] at hends
    cases hends
    exact hmain
  case h_3 t' heq =>
    rw [heq] at hends
    cases hends

end Alloc

end RocketCo.Lib
