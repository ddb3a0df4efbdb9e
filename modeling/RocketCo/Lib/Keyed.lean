/-
  RocketCo.Lib.Keyed — a list with one item for each key, and the index that finds it.

  Items arrive one after the other.  The first of a key is put behind the list; a later one is joined
  to the item that is there.

    • `Keyed` — the list, the index, and that the one is the inverse of the other,
    • `Keyed.mem_keys_collect`, `Keyed.nodup_keys` — the keys are those that came, each once,
    • `Keyed.collect_iff` — what a join takes from either side, an item has from those of its key,
    • `length_eq_iff_nodup` — a list is as long as its set of elements if it has no duplicates.
-/
import Mathlib.Data.List.Dedup
import Mathlib.Data.List.Induction
import Mathlib.Logic.Function.Basic

namespace RocketCo.Lib

variable {α κ : Type*}

/-- A list of items with distinct keys, indexed by these. -/
structure Keyed (key : α → κ) where
  items : List α
  index : κ → Option Nat
  index_iff : ∀ k i, index k = some i ↔ items[i]?.map key = some k

namespace Keyed

variable {key : α → κ} {join : α → α → α} {m : Keyed key} {p q : α} {k : κ} {i : Nat}

def empty : Keyed key where
  items := []
  index := fun _ => none
  index_iff := by simp

/-- The index of a key is the place of the item with this key, ... -/
theorem index_eq_some_iff (m : Keyed key) :
    m.index k = some i ↔ ∃ q, m.items[i]? = some q ∧ key q = k := by
  rw [m.index_iff, Option.map_eq_some_iff]

/-- Every item is found under its key. -/
theorem index_of_mem (hq : q ∈ m.items) : ∃ i, m.index (key q) = some i ∧ m.items[i]? = some q := by
  obtain ⟨i, hi⟩ := List.mem_iff_getElem?.mp hq
  exact ⟨i, m.index_eq_some_iff.mpr ⟨q, hi, rfl⟩, hi⟩

/-- ... and there is none for a key without an item. -/
theorem index_eq_none_iff (m : Keyed key) : m.index k = none ↔ k ∉ m.items.map key := by
  constructor
  · intro h hk
    obtain ⟨q, hq, hkey⟩ := List.mem_map.mp hk
    obtain ⟨i, hi, _⟩ := index_of_mem hq
    rw [hkey, h] at hi
    cases hi
  · intro h
    cases hk : m.index k with
    | none => rfl
    | some i =>
        obtain ⟨q, hq, hkey⟩ := m.index_eq_some_iff.mp hk
        have hin : q ∈ m.items := List.mem_of_getElem? hq
        exact absurd (List.mem_map.mpr ⟨q, hin, hkey⟩) h

/-- The keys are distinct. -/
theorem nodup_keys (m : Keyed key) : (m.items.map key).Nodup := by
  rw [List.nodup_iff_injective_get]
  intro i j hij
  have hat : ∀ i : Fin (m.items.map key).length,
      m.index ((m.items.map key).get i) = some i.val := by
    intro i
    rw [m.index_iff, ← List.getElem?_map]
    exact List.getElem?_eq_getElem i.isLt
  have hi := hat i
  rw [hij, hat j] at hi
  exact Fin.ext (Option.some.inj hi).symm

/-- Joining does not change the keys. -/
theorem map_key_modify (hjoin : ∀ q p, key (join q p) = key q) (xs : List α) (i : Nat) (p : α) :
    (xs.modify i fun q => join q p).map key = xs.map key := by
  apply List.ext_getElem?
  intro j
  rw [List.getElem?_map, List.getElem?_map, List.getElem?_modify]
  cases xs[j]? with
  | none => rfl
  | some q =>
      by_cases hij : i = j
      · simp [hij, hjoin]
      · simp [hij]

theorem modify_index_iff (hjoin : ∀ q p, key (join q p) = key q) (m : Keyed key) (i : Nat) (p : α)
    (k : κ) (j : Nat) :
    m.index k = some j ↔ (m.items.modify i fun q => join q p)[j]?.map key = some k := by
  rw [m.index_iff, ← List.getElem?_map, ← List.getElem?_map, map_key_modify hjoin]

/-- What is done at the index of a key is done to the item with this key. -/
theorem modify_index [DecidableEq κ] (h : m.index k = some i) (f : α → α) :
    m.items.modify i f = m.items.map fun q => if key q = k then f q else q := by
  apply List.ext_getElem?
  intro j
  rw [List.getElem?_modify, List.getElem?_map]
  cases hj : m.items[j]? with
  | none => rfl
  | some q =>
      have hiff : i = j ↔ key q = k := by
        constructor
        · intro hij
          obtain ⟨r, hr, hkey⟩ := m.index_eq_some_iff.mp h
          rw [hij, hj] at hr
          rw [Option.some.inj hr]
          exact hkey
        · intro hkey
          have hq := m.index_eq_some_iff.mpr ⟨q, hj, hkey⟩
          rw [h] at hq
          exact Option.some.inj hq
      show some (if i = j then f q else q) = some (if key q = k then f q else q)
      rw [if_congr hiff rfl rfl]

/-! ## §1. Adding an item. -/

section Add

variable [DecidableEq κ]

theorem push_index_iff (h : m.index (key p) = none) (k : κ) (i : Nat) :
    Function.update m.index (key p) (some m.items.length) k = some i ↔
      (m.items ++ [p])[i]?.map key = some k := by
  have hnew := m.index_eq_none_iff.mp h
  by_cases hk : k = key p
  · rw [hk, Function.update_self]
    constructor
    · intro hi
      rw [← Option.some.inj hi, List.getElem?_concat_length]
      rfl
    · intro hi
      obtain ⟨q, hq, hkey⟩ := Option.map_eq_some_iff.mp hi
      rcases Nat.lt_trichotomy i m.items.length with hlt | heq | hgt
      · rw [List.getElem?_append_left hlt] at hq
        have hin := List.mem_map_of_mem (f := key) (List.mem_of_getElem? hq)
        rw [hkey] at hin
        exact absurd hin hnew
      · rw [heq]
      · rw [List.getElem?_eq_none (by simp; omega)] at hq
        cases hq
  · rw [Function.update_of_ne hk, m.index_iff]
    rcases Nat.lt_trichotomy i m.items.length with hlt | heq | hgt
    · rw [List.getElem?_append_left hlt]
    · rw [heq, List.getElem?_concat_length, List.getElem?_eq_none (Nat.le_refl _)]
      simp [Ne.symm hk]
    · rw [List.getElem?_eq_none (by omega), List.getElem?_eq_none (by simp; omega)]

/-- An item with a new key. -/
def push (m : Keyed key) (p : α) (h : m.index (key p) = none) : Keyed key where
  items := m.items ++ [p]
  index := Function.update m.index (key p) (some m.items.length)
  index_iff := push_index_iff h

/-- An item joined to the one at `i`. -/
def joinAt (join : α → α → α) (hjoin : ∀ q p, key (join q p) = key q) (m : Keyed key) (i : Nat)
    (p : α) : Keyed key where
  items := m.items.modify i fun q => join q p
  index := m.index
  index_iff := modify_index_iff hjoin m i p

/-- The item is joined to the one with its key, or put behind the others. -/
def add (join : α → α → α) (hjoin : ∀ q p, key (join q p) = key q) (m : Keyed key) (p : α) :
    Keyed key :=
  match h : m.index (key p) with
  | none => m.push p h
  | some i => m.joinAt join hjoin i p

variable {hjoin : ∀ q p, key (join q p) = key q}

/-- An item with a new key goes to the end, ... -/
theorem items_add_of_none (h : m.index (key p) = none) :
    (m.add join hjoin p).items = m.items ++ [p] := by
  unfold add
  split
  · rfl
  · rename_i hi
    rw [h] at hi
    cases hi

/-- ... and one with an old key is joined to the item that has it. -/
theorem items_add_of_some (h : m.index (key p) = some i) :
    (m.add join hjoin p).items =
      m.items.map fun q => if key q = key p then join q p else q := by
  rw [← modify_index h]
  unfold add
  split
  · rename_i hi
    rw [h] at hi
    cases hi
  · rename_i j hj
    rw [h] at hj
    rw [← Option.some.inj hj]
    rfl

/-- The keys are those from before and the new one. -/
theorem mem_keys_add : k ∈ (m.add join hjoin p).items.map key ↔ k ∈ m.items.map key ∨ k = key p := by
  cases h : m.index (key p) with
  | none =>
      rw [items_add_of_none h, List.map_append, List.mem_append]
      simp
  | some i =>
      rw [items_add_of_some h, ← modify_index h, map_key_modify hjoin]
      obtain ⟨q, hq, hkey⟩ := m.index_eq_some_iff.mp h
      have hin := List.mem_map_of_mem (f := key) (List.mem_of_getElem? hq)
      rw [hkey] at hin
      constructor
      · exact Or.inl
      · intro hk
        cases hk with
        | inl hold => exact hold
        | inr hnew =>
            rw [hnew]
            exact hin

/-! ## §2. Collecting a list. -/

def collect (join : α → α → α) (hjoin : ∀ q p, key (join q p) = key q) (ps : List α) : Keyed key :=
  ps.foldl (add join hjoin) empty

/-- One item more is added last. -/
theorem collect_append (ps : List α) (p : α) :
    collect join hjoin (ps ++ [p]) = (collect join hjoin ps).add join hjoin p := by
  unfold collect
  rw [List.foldl_append]
  rfl

/-- **The keys** are those of the items that came. -/
theorem mem_keys_collect {ps : List α} :
    k ∈ (collect join hjoin ps).items.map key ↔ k ∈ ps.map key := by
  induction ps using List.reverseRecOn with
  | nil => rfl
  | append_singleton ps p ih =>
      rw [collect_append, mem_keys_add, ih, List.map_append, List.mem_append]
      simp

/-- **What a join takes from either side**, an item has exactly if one of those with its key had it. -/
theorem collect_iff {P : α → Prop} (hP : ∀ q p, key q = key p → (P (join q p) ↔ P q ∨ P p))
    {ps : List α} (hq : q ∈ (collect join hjoin ps).items) :
    P q ↔ ∃ p ∈ ps, key p = key q ∧ P p := by
  induction ps using List.reverseRecOn generalizing q with
  | nil => cases hq
  | append_singleton ps p ih =>
      rw [collect_append] at hq
      have hsplit : (∃ r ∈ ps ++ [p], key r = key q ∧ P r) ↔
          (∃ r ∈ ps, key r = key q ∧ P r) ∨ (key p = key q ∧ P p) := by
        simp [or_and_right, exists_or]
      rw [hsplit]
      cases h : (collect join hjoin ps).index (key p) with
      | none =>
          have hnew := (index_eq_none_iff _).mp h
          rw [items_add_of_none h, List.mem_append, List.mem_singleton] at hq
          cases hq with
          | inl hold =>
              have hne : key p ≠ key q := by
                intro heq
                rw [heq] at hnew
                exact hnew (List.mem_map_of_mem hold)
              rw [ih hold]
              simp [hne]
          | inr heq =>
              have hnone : ¬ ∃ r ∈ ps, key r = key q ∧ P r := by
                intro ⟨r, hr, hkey, _⟩
                rw [heq] at hkey
                rw [mem_keys_collect, ← hkey] at hnew
                exact hnew (List.mem_map_of_mem hr)
              rw [heq] at hnone ⊢
              simp [hnone]
      | some i =>
          rw [items_add_of_some h] at hq
          obtain ⟨r, hr, heq⟩ := List.mem_map.mp hq
          by_cases hkey : key r = key p
          · -- the item that is joined to
            rw [if_pos hkey] at heq
            rw [← heq, hP r p hkey, ih hr, hjoin]
            simp [hkey]
          · rw [if_neg hkey] at heq
            rw [← heq, ih hr]
            simp [Ne.symm hkey]

end Add

end Keyed

/-- Two lists of the same elements, the first without duplicates. -/
theorem length_eq_iff_nodup [DecidableEq κ] {xs ys : List κ} (hxs : xs.Nodup)
    (hmem : ∀ k, k ∈ xs ↔ k ∈ ys) : xs.length = ys.length ↔ ys.Nodup := by
  have hperm : xs.Perm ys.dedup := by
    rw [List.perm_ext_iff_of_nodup hxs ys.nodup_dedup]
    intro k
    rw [List.mem_dedup]
    exact hmem k
  rw [hperm.length_eq, ← List.dedup_eq_self]
  constructor
  · exact fun hlen => ys.dedup_sublist.eq_of_length hlen
  · exact fun heq => congrArg List.length heq

end RocketCo.Lib
