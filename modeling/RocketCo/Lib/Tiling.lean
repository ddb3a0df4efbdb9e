/-
  RocketCo.Lib.Tiling — an address space cut into labelled, pairwise disjoint tiles.

  A tile is a half-open address range with a label.  A `Tiling` is a set of non-empty tiles no two
  of which meet, so "who owns this byte" has at most one answer by construction.  All that an
  allocator does to its memory (carve, hand out, take back, merge) is one operation here:
  `replace`, which removes some tiles and puts others in their place.
-/
import Mathlib.Data.Set.Insert

namespace RocketCo.Lib

/-- A labelled address range `[base, base + len)`. -/
@[ext] structure Tile (κ : Type*) where
  kind : κ
  base : Nat
  len : Nat

variable {κ : Type*}

/-- The tile covers address `x`. -/
def Tile.Covers (t : Tile κ) (x : Nat) : Prop := t.base ≤ x ∧ x < t.base + t.len

/-- The two tiles share no address. -/
def Tile.Apart (t u : Tile κ) : Prop := t.base + t.len ≤ u.base ∨ u.base + u.len ≤ t.base

theorem Tile.Apart.symm {t u : Tile κ} (h : t.Apart u) : u.Apart t := Or.symm h

/-- A set of non-empty, pairwise disjoint tiles. -/
structure Tiling (κ : Type*) where
  tiles : Set (Tile κ)
  pos : ∀ t ∈ tiles, 0 < t.len
  apart : ∀ t ∈ tiles, ∀ u ∈ tiles, t ≠ u → t.Apart u

namespace Tiling

/-- The addresses some tile covers. -/
def covered (T : Tiling κ) : Set Nat := {x | ∃ t ∈ T.tiles, t.Covers x}

/-- **At most one owner**: two tiles that share an address are the same tile. -/
theorem eq_of_covers (T : Tiling κ) {t u : Tile κ} (ht : t ∈ T.tiles) (hu : u ∈ T.tiles)
    {x : Nat} (hxt : t.Covers x) (hxu : u.Covers x) : t = u := by
  by_contra hne
  rcases T.apart t ht u hu hne with h | h
  · obtain ⟨_, hlt⟩ := hxt
    obtain ⟨hle, _⟩ := hxu
    omega
  · obtain ⟨hle, _⟩ := hxt
    obtain ⟨_, hlt⟩ := hxu
    omega

/-- No two tiles begin at the same address. -/
theorem eq_of_base (T : Tiling κ) {t u : Tile κ} (ht : t ∈ T.tiles) (hu : u ∈ T.tiles)
    (h : t.base = u.base) : t = u := by
  have hpt := T.pos t ht
  have hpu := T.pos u hu
  exact T.eq_of_covers ht hu (x := t.base) ⟨Nat.le_refl _, by omega⟩ ⟨by omega, by omega⟩

/-- **The neighbour below.**  A tile that covers the byte below another tile ends where that tile
begins. -/
theorem ends_at (T : Tiling κ) {t u : Tile κ} (ht : t ∈ T.tiles)
    (hu : u ∈ T.tiles) (hpos : 0 < t.base) (hx : u.Covers (t.base - 1)) :
    u.base + u.len = t.base := by
  obtain ⟨hlo, hhi⟩ := hx
  have htpos := T.pos t ht
  have hne : t ≠ u := by
    intro heq
    rw [← heq] at hlo
    omega
  rcases T.apart t ht u hu hne with h | h <;> omega

/-- **The neighbour above.**  A tile that covers the byte after another tile begins there. -/
theorem begins_at (T : Tiling κ) {t u : Tile κ} (ht : t ∈ T.tiles)
    (hu : u ∈ T.tiles) (hx : u.Covers (t.base + t.len)) : u.base = t.base + t.len := by
  obtain ⟨hlo, hhi⟩ := hx
  have htpos := T.pos t ht
  have hne : t ≠ u := by
    intro heq
    rw [← heq] at hhi
    omega
  rcases T.apart t ht u hu hne with h | h <;> omega

/-- The tiling without tiles. -/
def empty : Tiling κ where
  tiles := ∅
  pos := fun _ h => h.elim
  apart := fun _ h => h.elim

/-- Remove the tiles in `R` and put the tiles in `N` in their place.  The new tiles must be
non-empty, disjoint from each other and from everything that stays. -/
def replace (T : Tiling κ) (R N : Set (Tile κ)) (hpos : ∀ t ∈ N, 0 < t.len)
    (hnew : ∀ t ∈ N, ∀ u ∈ N, t ≠ u → t.Apart u)
    (hold : ∀ t ∈ N, ∀ u ∈ T.tiles, u ∉ R → t.Apart u) : Tiling κ where
  tiles := {t | (t ∈ T.tiles ∧ t ∉ R) ∨ t ∈ N}
  pos := by
    rintro t (⟨ht, _⟩ | ht)
    · exact T.pos t ht
    · exact hpos t ht
  apart := by
    rintro t (⟨ht, htR⟩ | ht) u (⟨hu, huR⟩ | hu) hne
    · exact T.apart t ht u hu hne
    · exact (hold u hu t ht htR).symm
    · exact hold t ht u hu huR
    · exact hnew t ht u hu hne

variable {T : Tiling κ} {R N : Set (Tile κ)}

/-- A tile inside the union of removed tiles is disjoint from what stays. -/
theorem apart_of_subset (T : Tiling κ) {R : Set (Tile κ)} (hR : R ⊆ T.tiles) {t : Tile κ}
    (hpos : 0 < t.len) (hsub : ∀ x, t.Covers x → ∃ r ∈ R, r.Covers x)
    {u : Tile κ} (hu : u ∈ T.tiles) (huR : u ∉ R) : t.Apart u := by
  by_contra hmeet
  have hupos := T.pos u hu
  simp only [Tile.Apart, not_or, Nat.not_le] at hmeet
  -- the larger of the two bases lies in both tiles
  have hx : ∃ x, t.Covers x ∧ u.Covers x := by
    refine ⟨max t.base u.base, ⟨?_, ?_⟩, ⟨?_, ?_⟩⟩ <;> omega
  obtain ⟨x, hxt, hxu⟩ := hx
  obtain ⟨r, hr, hxr⟩ := hsub x hxt
  exact huR (T.eq_of_covers hu (hR hr) hxu hxr ▸ hr)

/-- Replace some of the tiles by tiles that lie inside them. -/
def swap (T : Tiling κ) (R N : Set (Tile κ)) (hR : R ⊆ T.tiles) (hpos : ∀ t ∈ N, 0 < t.len)
    (hnew : ∀ t ∈ N, ∀ u ∈ N, t ≠ u → t.Apart u)
    (hsub : ∀ t ∈ N, ∀ x, t.Covers x → ∃ r ∈ R, r.Covers x) : Tiling κ :=
  T.replace R N hpos hnew fun t ht _ hu huR =>
    T.apart_of_subset hR (hpos t ht) (hsub t ht) hu huR

/-! ## §1. Relabel one tile. -/

/-- The same ranges, one of them under another label. -/
def relabel (T : Tiling κ) (t : Tile κ) (ht : t ∈ T.tiles) (k : κ) : Tiling κ :=
  T.swap {t} {⟨k, t.base, t.len⟩} (Set.singleton_subset_iff.mpr ht)
    (by rintro _ rfl; exact T.pos t ht)
    (by rintro _ rfl _ rfl h; exact absurd rfl h)
    (by rintro _ rfl x hx; exact ⟨t, rfl, hx⟩)

/-- The tiles behind a change of kind: `t` has a new one, and the others are as before. -/
theorem mem_relabel {t u : Tile κ} {ht : t ∈ T.tiles} {k : κ} :
    u ∈ (T.relabel t ht k).tiles ↔ (u ∈ T.tiles ∧ u ≠ t) ∨ u = ⟨k, t.base, t.len⟩ := Iff.rfl

/-- A change of kind does not move anything. -/
theorem covered_relabel {t : Tile κ} (ht : t ∈ T.tiles) (k : κ) :
    (T.relabel t ht k).covered = T.covered := by
  ext x
  constructor
  · rintro ⟨u, ⟨hu, _⟩ | rfl, hx⟩
    · exact ⟨u, hu, hx⟩
    · exact ⟨t, ht, hx⟩
  · rintro ⟨u, hu, hx⟩
    by_cases hut : u = t
    · exact ⟨⟨k, t.base, t.len⟩, Or.inr rfl, hut ▸ hx⟩
    · exact ⟨u, Or.inl ⟨hu, hut⟩, hx⟩

/-! ## §2. Glue two adjacent tiles. -/

/-- Two neighbours become one tile. -/
def glue (T : Tiling κ) (t u : Tile κ) (ht : t ∈ T.tiles) (hu : u ∈ T.tiles)
    (hadj : t.base + t.len = u.base) (k : κ) : Tiling κ :=
  T.swap {t, u} {⟨k, t.base, t.len + u.len⟩}
    (by rintro r (rfl | rfl) <;> assumption)
    (by rintro _ rfl; exact Nat.add_pos_left (T.pos t ht) _)
    (by rintro _ rfl _ rfl h; exact absurd rfl h)
    (by
      rintro _ rfl x ⟨hlo, hhi⟩
      by_cases hx : x < t.base + t.len
      · exact ⟨t, Or.inl rfl, hlo, hx⟩
      · exact ⟨u, Or.inr rfl, by omega, by simp only at hhi; omega⟩)

/-- The tiles behind a merge: one in place of two neighbours. -/
theorem mem_glue {t u v : Tile κ} {ht : t ∈ T.tiles} {hu : u ∈ T.tiles}
    {hadj : t.base + t.len = u.base} {k : κ} :
    v ∈ (T.glue t u ht hu hadj k).tiles ↔
      (v ∈ T.tiles ∧ v ≠ t ∧ v ≠ u) ∨ v = ⟨k, t.base, t.len + u.len⟩ := by
  show (v ∈ T.tiles ∧ ¬ (v = t ∨ v = u)) ∨ _ ↔ _
  rw [not_or]
  rfl

/-- What two neighbours cover, they cover as one. -/
theorem covered_glue {t u : Tile κ} (ht : t ∈ T.tiles) (hu : u ∈ T.tiles)
    (hadj : t.base + t.len = u.base) (k : κ) :
    (T.glue t u ht hu hadj k).covered = T.covered := by
  ext x
  constructor
  · rintro ⟨v, hv, hx⟩
    rcases mem_glue.mp hv with ⟨hv, _⟩ | rfl
    · exact ⟨v, hv, hx⟩
    · obtain ⟨hlo, hhi⟩ := hx
      simp only at hlo hhi
      by_cases hxt : x < t.base + t.len
      · exact ⟨t, ht, hlo, hxt⟩
      · exact ⟨u, hu, by omega, by omega⟩
  · rintro ⟨v, hv, hlo, hhi⟩
    by_cases hvt : v = t
    · subst hvt
      exact ⟨_, mem_glue.mpr (Or.inr rfl), hlo, by simp only; omega⟩
    · by_cases hvu : v = u
      · subst hvu
        exact ⟨_, mem_glue.mpr (Or.inr rfl), by simp only; omega, by simp only; omega⟩
      · exact ⟨v, mem_glue.mpr (Or.inl ⟨hv, hvt, hvu⟩), hlo, hhi⟩

/-! ## §3. Cut one tile in two. -/

/-- One tile becomes two neighbours, the first of length `n`. -/
def cut (T : Tiling κ) (t : Tile κ) (ht : t ∈ T.tiles) (n : Nat) (hpos : 0 < n) (hn : n < t.len)
    (k₁ k₂ : κ) : Tiling κ :=
  T.swap {t} {⟨k₁, t.base, n⟩, ⟨k₂, t.base + n, t.len - n⟩} (Set.singleton_subset_iff.mpr ht)
    (by rintro _ (rfl | rfl) <;> simp only <;> omega)
    (by
      rintro _ (rfl | rfl) _ (rfl | rfl) h
      · exact absurd rfl h
      · exact Or.inl (Nat.le_refl _)
      · exact Or.inr (Nat.le_refl _)
      · exact absurd rfl h)
    (by
      rintro _ (rfl | rfl) x ⟨hlo, hhi⟩ <;> simp only at hlo hhi <;>
        exact ⟨t, rfl, by omega, by omega⟩)

/-- The tiles behind a cut: the two parts in place of the whole. -/
theorem mem_cut {t u : Tile κ} {ht : t ∈ T.tiles} {n : Nat} {hpos : 0 < n} {hn : n < t.len}
    {k₁ k₂ : κ} : u ∈ (T.cut t ht n hpos hn k₁ k₂).tiles ↔
      (u ∈ T.tiles ∧ u ≠ t) ∨ u = ⟨k₁, t.base, n⟩ ∨ u = ⟨k₂, t.base + n, t.len - n⟩ := Iff.rfl

/-- The two parts cover what the whole did. -/
theorem covered_cut {t : Tile κ} (ht : t ∈ T.tiles) {n : Nat} (hpos : 0 < n) (hn : n < t.len)
    (k₁ k₂ : κ) : (T.cut t ht n hpos hn k₁ k₂).covered = T.covered := by
  ext x
  constructor
  · rintro ⟨u, ⟨hu, _⟩ | rfl | rfl, hlo, hhi⟩
    · exact ⟨u, hu, hlo, hhi⟩
    · simp only at hlo hhi
      exact ⟨t, ht, by omega, by omega⟩
    · simp only at hlo hhi
      exact ⟨t, ht, by omega, by omega⟩
  · rintro ⟨u, hu, hlo, hhi⟩
    by_cases hut : u = t
    · subst hut
      by_cases hx : x < u.base + n
      · exact ⟨_, Or.inr (Or.inl rfl), hlo, hx⟩
      · exact ⟨_, Or.inr (Or.inr rfl), by simp only; omega, by simp only; omega⟩
    · exact ⟨u, Or.inl ⟨hu, hut⟩, hlo, hhi⟩

/-! ## §4. Cut one tile into equal pieces. -/

/-- The `m` pieces of length `L` of a range starting at `b`. -/
def pieces (kind : Nat → κ) (b L m : Nat) : Set (Tile κ) :=
  {t | ∃ j, j < m ∧ t = ⟨kind j, b + j * L, L⟩}

/-- One tile becomes `m` neighbours of length `L`. -/
def shatter (T : Tiling κ) (t : Tile κ) (ht : t ∈ T.tiles) (L m : Nat) (hL : 0 < L)
    (hlen : t.len = m * L) (kind : Nat → κ) : Tiling κ :=
  T.swap {t} (pieces kind t.base L m) (Set.singleton_subset_iff.mpr ht)
    (by rintro _ ⟨j, _, rfl⟩; exact hL)
    (by
      rintro _ ⟨i, _, rfl⟩ _ ⟨j, _, rfl⟩ hne
      rcases Nat.lt_trichotomy i j with h | h | h
      · left
        have : (i + 1) * L ≤ j * L := Nat.mul_le_mul_right L h
        rw [Nat.succ_mul] at this
        show t.base + i * L + L ≤ t.base + j * L
        omega
      · exact absurd (by rw [h]) hne
      · right
        have : (j + 1) * L ≤ i * L := Nat.mul_le_mul_right L h
        rw [Nat.succ_mul] at this
        show t.base + j * L + L ≤ t.base + i * L
        omega)
    (by
      rintro _ ⟨j, hj, rfl⟩ x ⟨hlo, hhi⟩
      have : (j + 1) * L ≤ m * L := Nat.mul_le_mul_right L hj
      rw [Nat.succ_mul] at this
      simp only at hlo hhi
      exact ⟨t, rfl, by omega, by omega⟩)

/-- The tiles behind a division into `m` equal pieces. -/
theorem mem_shatter {t u : Tile κ} {ht : t ∈ T.tiles} {L m : Nat} {hL : 0 < L}
    {hlen : t.len = m * L} {kind : Nat → κ} :
    u ∈ (T.shatter t ht L m hL hlen kind).tiles ↔
      (u ∈ T.tiles ∧ u ≠ t) ∨ ∃ j, j < m ∧ u = ⟨kind j, t.base + j * L, L⟩ := Iff.rfl

/-- The pieces cover what the whole did. -/
theorem covered_shatter {t : Tile κ} (ht : t ∈ T.tiles) {L m : Nat} (hL : 0 < L)
    (hlen : t.len = m * L) (kind : Nat → κ) :
    (T.shatter t ht L m hL hlen kind).covered = T.covered := by
  ext x
  constructor
  · rintro ⟨u, ⟨hu, _⟩ | ⟨j, hj, rfl⟩, hlo, hhi⟩
    · exact ⟨u, hu, hlo, hhi⟩
    · have : (j + 1) * L ≤ m * L := Nat.mul_le_mul_right L hj
      rw [Nat.succ_mul] at this
      simp only at hlo hhi
      exact ⟨t, ht, by omega, by omega⟩
  · rintro ⟨u, hu, hlo, hhi⟩
    by_cases hut : u = t
    · subst hut
      -- the piece that holds `x` is number `(x - base) / L`
      have hdiv := Nat.div_add_mod (x - u.base) L
      have hmod := Nat.mod_lt (x - u.base) hL
      have hlt : (x - u.base) / L < m := by
        apply Nat.div_lt_of_lt_mul
        rw [Nat.mul_comm]
        omega
      rw [Nat.mul_comm] at hdiv
      exact ⟨_, Or.inr ⟨(x - u.base) / L, hlt, rfl⟩, by simp only; omega, by simp only; omega⟩
    · exact ⟨u, Or.inl ⟨hu, hut⟩, hlo, hhi⟩

/-! ## §5. Add a tile on fresh ground. -/

/-- A new tile away from all others. -/
def add (T : Tiling κ) (t : Tile κ) (hpos : 0 < t.len) (hfresh : ∀ u ∈ T.tiles, t.Apart u) :
    Tiling κ :=
  T.replace ∅ {t} (by rintro _ rfl; exact hpos) (by rintro _ rfl _ rfl h; exact absurd rfl h)
    (by rintro _ rfl u hu _; exact hfresh u hu)

theorem mem_add {t u : Tile κ} {hpos : 0 < t.len} {hfresh : ∀ u ∈ T.tiles, t.Apart u} :
    u ∈ (T.add t hpos hfresh).tiles ↔ u ∈ T.tiles ∨ u = t := by
  show (u ∈ T.tiles ∧ u ∉ (∅ : Set (Tile κ))) ∨ u = t ↔ _
  simp

end Tiling

end RocketCo.Lib
