/-
  RocketCo.Lib.Slots — owners with one block of memory each.

  A `Slots` says who holds which block, and which blocks nobody holds although they were never given back.
  That no block has two holders, and that these are all the blocks there are, is part of the type.  An owner
  renews its block, or goes away with it.

  Main result: `Slots.card_held`.
-/
import Mathlib.Data.Finset.Card
import Mathlib.Data.Finset.Option
import Mathlib.Data.Set.Card

namespace RocketCo.Lib

/-- The blocks that were handed out and not given back. -/
structure Slots (ι : Type*) where
  slot : ι → Option Nat
  lost : Finset Nat
  held : Finset Nat
  mem_held : ∀ a, a ∈ held ↔ a ∈ lost ∨ ∃ i, slot i = some a
  alone : ∀ i j a, slot i = some a → slot j = some a → i = j
  apart : ∀ i a, slot i = some a → a ∉ lost

namespace Slots

variable {ι : Type*} {S : Slots ι} {i : ι} {a : Nat}

/-- Nothing was handed out yet. -/
def empty : Slots ι where
  slot _ := none
  lost := ∅
  held := ∅
  mem_held a := by simp
  alone i j a hi := by cases hi
  apart i a hi := by cases hi

/-- What an owner holds is out, and not lost. -/
theorem owned (h : S.slot i = some a) : a ∈ S.held ∧ a ∉ S.lost :=
  ⟨(S.mem_held a).mpr (Or.inr ⟨i, h⟩), S.apart i a h⟩

theorem lost_subset (S : Slots ι) : S.lost ⊆ S.held :=
  fun a ha => (S.mem_held a).mpr (Or.inl ha)

/-- The owners that hold a block. -/
def holders (S : Slots ι) : Set ι := {i | S.slot i ≠ none}

/-- **Every block that is out** is that of one holder, or lost. -/
theorem card_held (S : Slots ι) : S.held.card = S.holders.ncard + S.lost.card := by
  let block : ι → Nat := fun i => (S.slot i).getD 0
  have hblock : ∀ i a, S.slot i = some a → block i = a := by
    intro i a hi
    show (S.slot i).getD 0 = a
    rw [hi]
    rfl
  have hinj : Set.InjOn block S.holders := by
    intro i hi j hj heq
    obtain ⟨a, ha⟩ := Option.ne_none_iff_exists'.mp hi
    obtain ⟨b, hb⟩ := Option.ne_none_iff_exists'.mp hj
    rw [hblock i a ha, hblock j b hb] at heq
    exact S.alone i j a ha (heq ▸ hb)
  have himage : block '' S.holders = ↑(S.held \ S.lost) := by
    ext a
    rw [Finset.mem_coe, Finset.mem_sdiff]
    constructor
    · rintro ⟨i, hi, hia⟩
      obtain ⟨b, hb⟩ := Option.ne_none_iff_exists'.mp hi
      rw [hblock i b hb] at hia
      exact hia ▸ owned hb
    · intro ha
      rcases (S.mem_held a).mp ha.1 with hlost | ⟨i, hi⟩
      · exact absurd hlost ha.2
      · have hne : S.slot i ≠ none := by
          rw [hi]
          exact Option.some_ne_none a
        exact ⟨i, hne, hblock i a hi⟩
  have hcount : S.holders.ncard = (S.held \ S.lost).card := by
    rw [← hinj.ncard_image, himage, Set.ncard_coe_finset]
  have hsplit := Finset.card_sdiff_add_card_eq_card S.lost_subset
  omega

variable [DecidableEq ι]

/-- The owner gives back what it holds and takes another block, which is not out but may be that one. -/
def renew (S : Slots ι) (i : ι) (a : Nat) (h : a ∈ S.held → S.slot i = some a) : Slots ι where
  slot := Function.update S.slot i (some a)
  lost := S.lost
  held := insert a (S.held \ (S.slot i).toFinset)
  mem_held b := by
    rw [Finset.mem_insert, Finset.mem_sdiff, Option.mem_toFinset, S.mem_held b]
    constructor
    · rintro (rfl | ⟨hlost | ⟨j, hj⟩, hne⟩)
      · exact Or.inr ⟨i, Function.update_self i (some b) S.slot⟩
      · exact Or.inl hlost
      · have hji : j ≠ i := by
          intro heq
          exact hne (heq ▸ hj)
        exact Or.inr ⟨j, by rw [Function.update_of_ne hji, hj]⟩
    · rintro (hlost | ⟨j, hj⟩)
      · exact Or.inr ⟨Or.inl hlost, fun hb => S.apart i b hb hlost⟩
      · by_cases hji : j = i
        · rw [hji, Function.update_self] at hj
          exact Or.inl (Option.some.inj hj).symm
        · rw [Function.update_of_ne hji] at hj
          exact Or.inr ⟨Or.inr ⟨j, hj⟩, fun hb => hji (S.alone j i b hj hb)⟩
  alone j k b hj hk := by
    -- nobody else holds the block that is taken
    have hfresh : ∀ j, j ≠ i → S.slot j ≠ some a := by
      intro j hne hj
      exact hne (S.alone j i a hj (h (owned hj).1))
    by_cases hji : j = i
    · by_cases hki : k = i
      · rw [hji, hki]
      · rw [hji, Function.update_self] at hj
        rw [Function.update_of_ne hki, ← Option.some.inj hj] at hk
        exact absurd hk (hfresh k hki)
    · by_cases hki : k = i
      · rw [hki, Function.update_self] at hk
        rw [Function.update_of_ne hji, ← Option.some.inj hk] at hj
        exact absurd hj (hfresh j hji)
      · rw [Function.update_of_ne hji] at hj
        rw [Function.update_of_ne hki] at hk
        exact S.alone j k b hj hk
  apart j b hj := by
    by_cases hji : j = i
    · rw [hji, Function.update_self] at hj
      rw [← Option.some.inj hj]
      intro hlost
      exact S.apart i a (h (S.lost_subset hlost)) hlost
    · rw [Function.update_of_ne hji] at hj
      exact S.apart j b hj

/-- The owner goes away, and its block stays out. -/
def lose (S : Slots ι) (i : ι) : Slots ι where
  slot := Function.update S.slot i none
  lost := S.lost ∪ (S.slot i).toFinset
  held := S.held
  mem_held b := by
    rw [Finset.mem_union, Option.mem_toFinset, S.mem_held b]
    constructor
    · rintro (hlost | ⟨j, hj⟩)
      · exact Or.inl (Or.inl hlost)
      · by_cases hji : j = i
        · exact Or.inl (Or.inr (hji ▸ hj))
        · exact Or.inr ⟨j, by rw [Function.update_of_ne hji, hj]⟩
    · rintro ((hlost | hi) | ⟨j, hj⟩)
      · exact Or.inl hlost
      · exact Or.inr ⟨i, hi⟩
      · by_cases hji : j = i
        · rw [hji, Function.update_self] at hj
          cases hj
        · rw [Function.update_of_ne hji] at hj
          exact Or.inr ⟨j, hj⟩
  alone j k b hj hk := by
    by_cases hji : j = i
    · rw [hji, Function.update_self] at hj
      cases hj
    · by_cases hki : k = i
      · rw [hki, Function.update_self] at hk
        cases hk
      · rw [Function.update_of_ne hji] at hj
        rw [Function.update_of_ne hki] at hk
        exact S.alone j k b hj hk
  apart j b hj := by
    by_cases hji : j = i
    · rw [hji, Function.update_self] at hj
      cases hj
    · rw [Function.update_of_ne hji] at hj
      rw [Finset.mem_union, Option.mem_toFinset]
      rintro (hlost | hi)
      · exact S.apart j b hj hlost
      · exact hji (S.alone j i b hj hi)

/-- Whoever holds a block loses it. -/
theorem card_lose (h : S.slot i ≠ none) : (S.lose i).lost.card = S.lost.card + 1 := by
  obtain ⟨a, ha⟩ := Option.ne_none_iff_exists'.mp h
  show (S.lost ∪ (S.slot i).toFinset).card = _
  rw [ha, Option.toFinset_some, Finset.union_comm, ← Finset.insert_eq,
    Finset.card_insert_of_notMem (S.apart i a ha)]

end Slots

end RocketCo.Lib
