/-
  RocketCo.Lib.Chain — doubly linked chains over arbitrary nodes.

  A list of nodes is read through two link maps `prev` and `next` whose values live in `β`: `ι`
  turns a node into a link (the identity for raw addresses, `some` for optional pointers) and the
  end of a chain is whatever link its context prescribes (`null` for a whole list, the next node
  for a part of one).

    • `Seg p l n` — walking `l`, every node points back to its predecessor (`p` for the first)
      and forward to its successor (`n` after the last),
    • `seg_append` — segments compose, the seam being one pair of links,
    • `Seg.nodup` — a chain that comes to an end passes no node twice,
    • `seg_seam` — the one surgery of a doubly linked list: joining two segments at a new seam.
      Unlinking (`seg_unlink`), pushing at the front (`seg_push`) and appending a node
      (`seg_snoc`) are instances of it.
-/
import Mathlib.Data.List.Nodup

namespace RocketCo.Lib

variable {α β : Type*}

/-- `l` is a chain whose first node points back to `p` and whose last node points on to `n`. -/
def Seg (ι : α → β) (prev next : α → β) : β → List α → β → Prop
  | _, [], _ => True
  | p, a :: l, n => prev a = p ∧ next a = (l.map ι).headD n ∧ Seg ι prev next (ι a) l n

variable {ι : α → β} {prev next prev' next' : α → β}

@[simp] theorem seg_nil (p n : β) : Seg ι prev next p [] n := trivial

/-- A segment reads only the links of its own nodes. -/
theorem Seg.congr : ∀ {l : List α} {p n : β}, Seg ι prev next p l n →
    (∀ a ∈ l, prev' a = prev a ∧ next' a = next a) → Seg ι prev' next' p l n
  | [], _, _, _, _ => trivial
  | a :: l, p, n, ⟨hp, hn, hl⟩, h => by
      have ha := h a List.mem_cons_self
      refine ⟨ha.1.trans hp, ha.2.trans hn, hl.congr fun b hb => ?_⟩
      exact h b (List.mem_cons_of_mem a hb)

/-- The link a list presents to what stands before it. -/
theorem headD_map_append (l₁ l₂ : List α) (n : β) :
    ((l₁ ++ l₂).map ι).headD n = (l₁.map ι).headD ((l₂.map ι).headD n) := by
  cases l₁ <;> rfl

/-- The link a list presents to what stands after it. -/
def lastLink (ι : α → β) (p : β) : List α → β
  | [] => p
  | a :: l => lastLink ι (ι a) l

theorem lastLink_append (p : β) : ∀ (l₁ l₂ : List α),
    lastLink ι p (l₁ ++ l₂) = lastLink ι (lastLink ι p l₁) l₂
  | [], _ => rfl
  | a :: l₁, l₂ => lastLink_append (ι a) l₁ l₂

theorem lastLink_snoc (p : β) (l : List α) (a : α) : lastLink ι p (l ++ [a]) = ι a := by
  rw [lastLink_append]
  rfl

theorem lastLink_eq (p : β) (l : List α) : lastLink ι p l = (l.getLast?.map ι).getD p := by
  rcases List.eq_nil_or_concat l with rfl | ⟨init, b, rfl⟩
  · rfl
  · rw [List.concat_eq_append, lastLink_snoc, List.getLast?_concat]
    rfl

theorem headD_map_eq (l : List α) (n : β) : (l.map ι).headD n = (l.head?.map ι).getD n := by
  cases l <;> rfl

theorem headD_map_some (l : List α) : (l.map some).headD none = l.head? := by
  cases l <;> rfl

/-- **Segments compose.** -/
theorem seg_append : ∀ {l₁ l₂ : List α} {p n : β},
    Seg ι prev next p (l₁ ++ l₂) n ↔
      Seg ι prev next p l₁ ((l₂.map ι).headD n) ∧ Seg ι prev next (lastLink ι p l₁) l₂ n
  | [], _, _, _ => ⟨fun h => ⟨trivial, h⟩, fun h => h.2⟩
  | a :: l₁, l₂, p, n => by
      show (prev a = p ∧ next a = ((l₁ ++ l₂).map ι).headD n ∧
          Seg ι prev next (ι a) (l₁ ++ l₂) n) ↔ _
      rw [seg_append, headD_map_append]
      constructor
      · rintro ⟨hp, hn, h₁, h₂⟩
        exact ⟨⟨hp, hn, h₁⟩, h₂⟩
      · rintro ⟨⟨hp, hn, h₁⟩, h₂⟩
        exact ⟨hp, hn, h₁, h₂⟩

/-- The back link of the node a split exposes. -/
theorem Seg.prev_eq {l₁ l₂ : List α} {a : α} {p n : β}
    (h : Seg ι prev next p (l₁ ++ a :: l₂) n) : prev a = lastLink ι p l₁ :=
  (seg_append.mp h).2.1

/-- The forward link of the node a split exposes. -/
theorem Seg.next_eq {l₁ l₂ : List α} {a : α} {p n : β}
    (h : Seg ι prev next p (l₁ ++ a :: l₂) n) : next a = (l₂.map ι).headD n :=
  (seg_append.mp h).2.2.1

/-- **Walking is deterministic**: two chains with one first node and one end are the same, where no
node can be taken for the end. -/
theorem Seg.unique (hι : Function.Injective ι) {n : β} (hend : ∀ a, ι a ≠ n) :
    ∀ {l l' : List α} {a : α} {p q : β}, Seg ι prev next p (a :: l) n →
      Seg ι prev next q (a :: l') n → l = l'
  | [], [], _, _, _, _, _ => rfl
  | [], b :: l', a, _, _, ⟨_, hn, _⟩, ⟨_, hn', _⟩ => by
      have heq : n = ι b := hn.symm.trans hn'
      exact absurd heq.symm (hend b)
  | b :: l, [], a, _, _, ⟨_, hn, _⟩, ⟨_, hn', _⟩ => by
      have heq : ι b = n := hn.symm.trans hn'
      exact absurd heq (hend b)
  | b :: l, c :: l', a, _, _, ⟨_, hn, hl⟩, ⟨_, hn', hl'⟩ => by
      have heq : b = c := hι (hn.symm.trans hn')
      rw [← heq] at hl' ⊢
      rw [Seg.unique hι hend hl hl']

/-- A chain that comes to an end passes no node twice. -/
theorem Seg.nodup (hι : Function.Injective ι) {n : β} (hend : ∀ a, ι a ≠ n) :
    ∀ {l : List α} {p : β}, Seg ι prev next p l n → l.Nodup
  | [], _, _ => List.nodup_nil
  | a :: l, p, h => by
      refine List.nodup_cons.mpr ⟨fun hin => ?_, h.2.2.nodup hι hend⟩
      -- from its second visit on the chain would repeat what follows the first, and be shorter
      obtain ⟨l₁, l₂, hsplit⟩ := List.append_of_mem hin
      have hagain : Seg ι prev next p ((a :: l₁) ++ a :: l₂) n := by
        rw [List.cons_append, ← hsplit]
        exact h
      have hlen := congrArg List.length (h.unique hι hend (seg_append.mp hagain).2)
      rw [hsplit, List.length_append, List.length_cons] at hlen
      omega

/-! ## §1. Replacing the two ends. -/

/-- Redirecting the back link of the first node. -/
theorem Seg.rehead {l : List α} {a : α} {p q n : β} (h : Seg ι prev next p (a :: l) n)
    (hnd : (a :: l).Nodup) (hprev : prev' a = q) (hother : ∀ b ∈ l, prev' b = prev b)
    (hnext : ∀ b ∈ a :: l, next' b = next b) : Seg ι prev' next' q (a :: l) n := by
  obtain ⟨_, hn, hl⟩ := h
  have hna := (List.nodup_cons.mp hnd).1
  refine ⟨hprev, (hnext a List.mem_cons_self).trans hn, hl.congr fun b hb => ?_⟩
  exact ⟨hother b hb, hnext b (List.mem_cons_of_mem a hb)⟩

/-- Redirecting the forward link of the last node. -/
theorem Seg.retail : ∀ {l : List α} {a : α} {p n q : β}, Seg ι prev next p (l ++ [a]) n →
    (l ++ [a]).Nodup → next' a = q → (∀ b ∈ l, next' b = next b) →
    (∀ b ∈ l ++ [a], prev' b = prev b) → Seg ι prev' next' p (l ++ [a]) q
  | [], a, _, _, _, h, _, hq, _, hprev =>
      ⟨(hprev a (by simp)).trans h.1, hq, trivial⟩
  | b :: l, a, p, n, q, h, hnd, hq, hnext, hprev => by
      obtain ⟨hp, hn, hl⟩ := h
      have ih := hl.retail (List.nodup_cons.mp hnd).2 hq
        (fun c hc => hnext c (List.mem_cons_of_mem b hc))
        (fun c hc => hprev c (List.mem_cons_of_mem b hc))
      refine ⟨(hprev b List.mem_cons_self).trans hp, ?_, ih⟩
      rw [hnext b List.mem_cons_self, hn]
      cases l <;> rfl

/-! ## §2. The surgeries. -/

/-- **Join two segments.**  Only the two links at the seam change: the last node of `l₁` now
points to `l₂`, the first node of `l₂` back to `l₁`. -/
theorem seg_seam {l₁ l₂ : List α} {p q n₁ n : β}
    (h₁ : Seg ι prev next p l₁ n₁) (h₂ : Seg ι prev next q l₂ n) (hnd : (l₁ ++ l₂).Nodup)
    (hlast : ∀ b, l₁.getLast? = some b → next' b = (l₂.map ι).headD n)
    (hhead : ∀ b, l₂.head? = some b → prev' b = lastLink ι p l₁)
    (hprev : ∀ b ∈ l₁ ++ l₂, l₂.head? ≠ some b → prev' b = prev b)
    (hnext : ∀ b ∈ l₁ ++ l₂, l₁.getLast? ≠ some b → next' b = next b) :
    Seg ι prev' next' p (l₁ ++ l₂) n := by
  obtain ⟨hnd₁, hnd₂, hdisj⟩ := List.nodup_append.mp hnd
  refine seg_append.mpr ⟨?_, ?_⟩
  · -- the front part: only the forward link of its last node changed
    rcases List.eq_nil_or_concat l₁ with rfl | ⟨init, b, rfl⟩
    · trivial
    · rw [List.concat_eq_append] at *
      have hb : b ∉ init := fun hb => (List.nodup_append.mp hnd₁).2.2 b hb b (by simp) rfl
      refine h₁.retail hnd₁ (hlast b (by simp)) (fun c hc => ?_) (fun c hc => ?_)
      · refine hnext c (by simp [hc]) ?_
        rw [List.getLast?_append]
        rintro hcb
        simp at hcb
        exact hb (hcb ▸ hc)
      · refine hprev c (List.mem_append_left l₂ hc) fun hhd => ?_
        exact hdisj c hc c (List.mem_of_mem_head? hhd) rfl
  · -- the back part: only the back link of its first node changed
    cases l₂ with
    | nil => trivial
    | cons b l =>
        have hb : b ∉ l := (List.nodup_cons.mp hnd₂).1
        refine h₂.rehead hnd₂ (hhead b rfl) (fun c hc => ?_) (fun c hc => ?_)
        · refine hprev c (by simp [hc]) fun hhd => ?_
          simp at hhd
          exact hb (hhd ▸ hc)
        · refine hnext c (List.mem_append_right l₁ hc) fun hlst => ?_
          exact hdisj c (List.mem_of_mem_getLast? hlst) c hc rfl

/-- **Unlink a node**: its two neighbours are joined by the links it carried. -/
theorem seg_unlink {l₁ l₂ : List α} {a : α} {p n : β}
    (h : Seg ι prev next p (l₁ ++ a :: l₂) n) (hnd : (l₁ ++ a :: l₂).Nodup)
    (hlast : ∀ b, l₁.getLast? = some b → next' b = next a)
    (hhead : ∀ b, l₂.head? = some b → prev' b = prev a)
    (hprev : ∀ b ∈ l₁ ++ l₂, l₂.head? ≠ some b → prev' b = prev b)
    (hnext : ∀ b ∈ l₁ ++ l₂, l₁.getLast? ≠ some b → next' b = next b) :
    Seg ι prev' next' p (l₁ ++ l₂) n := by
  obtain ⟨h₁, hp, hn, h₂⟩ := seg_append.mp h
  have hnd' : (l₁ ++ l₂).Nodup := (List.nodup_middle.mp hnd).of_cons
  refine seg_seam h₁ h₂ hnd' (fun b hb => ?_) (fun b hb => ?_) hprev hnext
  · rw [hlast b hb, hn]
  · rw [hhead b hb, hp]

/-- **Push a node** in front of a segment. -/
theorem seg_push {l : List α} {a : α} {p q n : β} (h : Seg ι prev next q l n)
    (hnd : (a :: l).Nodup) (hp : prev' a = p) (hn : next' a = (l.map ι).headD n)
    (hhead : ∀ b, l.head? = some b → prev' b = ι a)
    (hprev : ∀ b ∈ l, l.head? ≠ some b → prev' b = prev b)
    (hnext : ∀ b ∈ l, next' b = next b) : Seg ι prev' next' p (a :: l) n := by
  refine ⟨hp, hn, ?_⟩
  have hnil : Seg ι prev next (ι a) [] n := trivial
  refine seg_seam hnil h (List.nodup_cons.mp hnd).2 ?_ hhead hprev fun b hb _ => hnext b hb
  intro b hb
  simp at hb

/-- **Append a node** behind a segment. -/
theorem seg_snoc {l : List α} {a : α} {p n n' : β} (h : Seg ι prev next p l n)
    (hnd : (l ++ [a]).Nodup) (hp : prev' a = lastLink ι p l) (hn : next' a = n')
    (hlast : ∀ b, l.getLast? = some b → next' b = ι a)
    (hprev : ∀ b ∈ l, prev' b = prev b)
    (hnext : ∀ b ∈ l, l.getLast? ≠ some b → next' b = next b) :
    Seg ι prev' next' p (l ++ [a]) n' := by
  have hmem : ∀ b ∈ l, b ≠ a := fun b hb => (List.nodup_append.mp hnd).2.2 b hb a (by simp)
  refine seg_append.mpr ⟨?_, hp, hn, trivial⟩
  rcases List.eq_nil_or_concat l with rfl | ⟨init, b, rfl⟩
  · trivial
  · rw [List.concat_eq_append] at *
    have hb : b ∉ init := fun hb => by
      have := (List.nodup_append.mp (List.nodup_append.mp hnd).1).2.2 b hb b (by simp)
      exact this rfl
    refine h.retail (List.nodup_append.mp hnd).1 (hlast b (by simp)) (fun c hc => ?_) hprev
    refine hnext c (by simp [hc]) ?_
    rw [List.getLast?_append]
    intro hcb
    simp at hcb
    exact hb (hcb ▸ hc)

end RocketCo.Lib
