/-
  RocketCo.Lib.Buckets — sorting by buckets is the stable sort.

  Items with a numeric key in `[base, base + n)` are dealt into `n` buckets, one for each key, in
  the order in which they come; the buckets are then emptied one after the other.  The result is
  the insertion sort of the items by their keys, which is stable.
-/
import Mathlib.Data.List.Sort

namespace RocketCo.Lib

variable {α : Type*}

/-- The stable sort by a key. -/
def sortByKey (key : α → Nat) (xs : List α) : List α := xs.insertionSort fun a b => key a ≤ key b

/-- The buckets `base, …, base + n - 1` of `xs`, one after the other. -/
def buckets (key : α → Nat) (base n : Nat) (xs : List α) : List α :=
  (List.range n).flatMap fun k => xs.filter fun a => key a = base + k

variable (key : α → Nat)

/-- A sorted list splits at a bound that no key is below. -/
theorem split_at_key {base : Nat} {ys : List α} (hs : ys.Pairwise fun a b => key a ≤ key b)
    (hbase : ∀ a ∈ ys, base ≤ key a) :
    (ys.filter fun a => key a = base) ++ ys.filter (fun a => base + 1 ≤ key a) = ys := by
  induction ys with
  | nil => rfl
  | cons y ys ih =>
      have hs' := List.pairwise_cons.mp hs
      have hrest := ih hs'.2 fun a ha => hbase a (List.mem_cons_of_mem _ ha)
      have hy := hbase y List.mem_cons_self
      by_cases hk : key y = base
      · have hlt : ¬ base + 1 ≤ key y := by omega
        rw [List.filter_cons_of_pos (by simpa using hk), List.filter_cons_of_neg (by simpa using hlt),
          List.cons_append, hrest]
      · -- every later key is above `base` as well
        have hnone : ∀ a ∈ y :: ys, ¬ key a = base := by
          intro a ha
          cases List.mem_cons.mp ha with
          | inl heq => rw [heq]; exact hk
          | inr hin =>
              have := hs'.1 a hin
              omega
        have hall : ∀ a ∈ y :: ys, base + 1 ≤ key a := by
          intro a ha
          have h₁ := hnone a ha
          have h₂ := hbase a ha
          omega
        rw [List.filter_eq_nil_iff.mpr (by simpa using hnone),
          List.filter_eq_self.mpr (by simpa using hall), List.nil_append]

/-- The buckets of a sorted list, one after the other, are that list. -/
theorem buckets_of_sorted : ∀ (n base : Nat) (ys : List α),
    ys.Pairwise (fun a b => key a ≤ key b) → (∀ a ∈ ys, base ≤ key a ∧ key a < base + n) →
    buckets key base n ys = ys := by
  intro n
  induction n with
  | zero =>
      intro base ys _ hb
      cases ys with
      | nil => rfl
      | cons y ys =>
          have := hb y List.mem_cons_self
          omega
  | succ n ih =>
      intro base ys hs hb
      have hrest := ih (base + 1) (ys.filter fun a => base + 1 ≤ key a) (hs.filter _) (by
        intro a ha
        have h₁ : base + 1 ≤ key a := by simpa using (List.mem_filter.mp ha).2
        have h₂ := hb a (List.mem_filter.mp ha).1
        omega)
      -- a bucket above `base` does not see the items of bucket `base`
      have hsame : ∀ k, (ys.filter fun a => base + 1 ≤ key a).filter
          (fun a => key a = base + 1 + k) = ys.filter fun a => key a = base + (k + 1) := by
        intro k
        rw [List.filter_filter]
        apply List.filter_congr
        intro a _
        rw [← Bool.decide_and]
        apply decide_eq_decide.mpr
        omega
      unfold buckets at hrest ⊢
      simp only [hsame] at hrest
      rw [List.range_succ_eq_map, List.flatMap_cons, List.flatMap_map]
      show (ys.filter fun a => key a = base) ++ _ = ys
      rw [hrest]
      exact split_at_key key hs fun a ha => (hb a ha).1

/-- Sorting keeps the order of the items of one key. -/
theorem filter_sortByKey (xs : List α) (c : Nat) :
    (sortByKey key xs).filter (fun a => key a = c) = xs.filter fun a => key a = c := by
  have hsorted : (xs.filter fun a => key a = c).Pairwise fun a b => key a ≤ key b := by
    apply List.pairwise_of_forall_mem_list
    intro a ha b hb
    have ha' : key a = c := by simpa using (List.mem_filter.mp ha).2
    have hb' : key b = c := by simpa using (List.mem_filter.mp hb).2
    omega
  have hsub : (xs.filter fun a => key a = c).Sublist (sortByKey key xs) :=
    List.sublist_insertionSort hsorted List.filter_sublist
  have hfil := hsub.filter fun a => decide (key a = c)
  rw [List.filter_filter] at hfil
  simp only [Bool.and_self] at hfil
  have hlen : ((sortByKey key xs).filter fun a => key a = c).length =
      (xs.filter fun a => key a = c).length :=
    ((List.perm_insertionSort _ xs).filter _).length_eq
  exact (hfil.eq_of_length hlen.symm).symm

/-- **Sorting by buckets is the stable sort.** -/
theorem buckets_eq_sortByKey {base n : Nat} {xs : List α}
    (hb : ∀ a ∈ xs, base ≤ key a ∧ key a < base + n) :
    buckets key base n xs = sortByKey key xs := by
  have hsorted : (sortByKey key xs).Pairwise fun a b => key a ≤ key b := by
    apply (List.pairwise_insertionSort _ xs).imp
    intro a b h
    exact h
  have hmem : ∀ a ∈ sortByKey key xs, base ≤ key a ∧ key a < base + n := by
    intro a ha
    exact hb a ((List.mem_insertionSort _).mp ha)
  rw [← buckets_of_sorted key n base _ hsorted hmem]
  unfold buckets
  simp only [filter_sortByKey]

end RocketCo.Lib
