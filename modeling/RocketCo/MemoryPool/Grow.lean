/-
  RocketCo.MemoryPool.Grow — the unused region: carving, recycling, new chunks.

  `ChunkAlloc` takes a run of blocks from the front of the unused region `[startfree, endfree)`.
  When there is no room it puts what is left of the region on a free list, asks `malloc` for a
  chunk and, when that fails, makes the first block of a longer list the new region.  Each of
  these is one step on the tiling:

    • `PoolInv.carve` — the front of the unused tile turns user,
    • `PoolInv.recycle` — the whole unused tile turns free,
    • `PoolInv.addChunk` — a fresh unused tile,
    • `PoolInv.fallBack` — a free tile turns unused.

  None of them drops a block: the chains in `lost` are those of before.
-/
import RocketCo.MemoryPool.Merge

namespace RocketCo.MemoryPool

open RocketCo.Lib

/-! ## §1. Lengths that stay slot lengths. -/

/-- What a run of 20 blocks leaves of the region. -/
theorem SlotSized.sub_run {R L : Nat} (hR : SlotSized R) (hL : SlotSized L) (h : 20 * L < R) :
    SlotSized (R - 20 * L) := by
  obtain ⟨_, h512, h1024, h2048⟩ := hR
  have hL512 := hL.mod512
  unfold firstSlot at h1024
  unfold secondSlot at h2048
  refine ⟨by omega, by omega, ?_, ?_⟩
  · intro hbig
    unfold firstSlot at hbig
    have := h1024 (by omega)
    omega
  · intro hbig
    unfold secondSlot at hbig
    have := h2048 (by omega)
    omega

/-- What as many blocks as fit leave of the region. -/
theorem SlotSized.mod {R L : Nat} (hR : SlotSized R) (hL : SlotSized L) (hlt : L < R)
    (hpos : 0 < R % L) : SlotSized (R % L) := by
  obtain ⟨_, h512, h1024, h2048⟩ := hR
  have hmodlt := Nat.mod_lt R hL.pos
  -- the granule of the zone of `L` divides `L`, so it divides what is left of `R`
  have hgran : ∀ g, L % g = 0 → R % g = 0 → R % L % g = 0 := by
    intro g hLg hRg
    rw [Nat.mod_mod_of_dvd R (Nat.dvd_of_mod_eq_zero hLg), hRg]
  refine ⟨hpos, hgran 512 hL.mod512 h512, ?_, ?_⟩
  · intro hbig
    exact hgran 1024 (hL.mod1024 (by omega)) (h1024 (by omega))
  · intro hbig
    exact hgran 2048 (hL.mod2048 (by omega)) (h2048 (by omega))

/-- A chunk for twice 20 blocks. -/
theorem SlotSized.chunk {L : Nat} (hL : SlotSized L) : SlotSized (2 * (L * refillNumber)) := by
  obtain ⟨hpos, h512, _, _⟩ := hL
  unfold refillNumber
  refine ⟨by omega, by omega, ?_, ?_⟩ <;>
  · intro _
    omega

/-! ## §2. The unused tile. -/

section Region

variable {st : RocketCoAlloctor} {T : Tiling Owner} {cur : Nat → List Nat}
  {lost : Nat → List (List Nat)}

theorem PoolInv.unused_tile (hp : PoolInv st T cur lost) (hlt : st.startfree < st.endfree) :
    ⟨.unused, st.startfree, st.endfree - st.startfree⟩ ∈ T.tiles ∧
      SlotSized (st.endfree - st.startfree) :=
  ⟨((hp.region.unused _).mpr ⟨hlt, rfl⟩).1, hp.region.sized hlt⟩

/-- Cutting a tile leaves the tiles of a third kind alone. -/
theorem sameKind_cut {T : Tiling Owner} {k k₁ k₂ k' : Owner} {p L n : Nat}
    {ht : ⟨k, p, L⟩ ∈ T.tiles} {hpos : 0 < n} {hn : n < L} (hk : k ≠ k') (h₁ : k₁ ≠ k')
    (h₂ : k₂ ≠ k') : SameKind k' T (T.cut ⟨k, p, L⟩ ht n hpos hn k₁ k₂) := by
  intro t htk
  rw [Tiling.mem_cut]
  constructor
  · intro hor
    rcases hor with ⟨hold, _⟩ | heq | heq
    · exact hold
    · rw [heq] at htk
      exact absurd htk h₁
    · rw [heq] at htk
      exact absurd htk h₂
  · intro hold
    refine Or.inl ⟨hold, ?_⟩
    intro heq
    rw [heq] at htk
    exact hk htk

/-- The front of a tile goes to the user. -/
theorem users_cut {T : Tiling Owner} {k k₂ : Owner} {p L n : Nat} (ht : ⟨k, p, L⟩ ∈ T.tiles)
    (hpos : 0 < n) (hn : n < L) (hk : k ≠ .user) (h₂ : k₂ ≠ .user) :
    users (T.cut ⟨k, p, L⟩ ht n hpos hn .user k₂) = insert ⟨.user, p, n⟩ (users T) := by
  ext t
  simp only [users, Set.mem_ofPred_eq, Set.mem_insert_iff, Tiling.mem_cut]
  constructor
  · rintro ⟨hor, htk⟩
    rcases hor with ⟨hold, _⟩ | heq | heq
    · exact Or.inr ⟨hold, htk⟩
    · exact Or.inl heq
    · rw [heq] at htk
      exact absurd htk h₂
  · intro hor
    rcases hor with heq | ⟨hold, htk⟩
    · exact ⟨Or.inr (Or.inl heq), by rw [heq]⟩
    · refine ⟨Or.inl ⟨hold, ?_⟩, htk⟩
      intro heq
      rw [heq] at htk
      exact hk htk

/-- The whole unused region is handed out. -/
theorem PoolInv.carve_all (hp : PoolInv st T cur lost) {n : Nat}
    (hn : st.endfree - st.startfree = n)
    (ht : (⟨.unused, st.startfree, n⟩ : Tile Owner) ∈ T.tiles) :
    PoolInv { st with startfree := st.startfree + n } (T.relabel _ ht .user) cur lost := by
  have hfree : SameKind .free T (T.relabel _ ht .user) := sameKind_relabel (by simp) (by simp)
  have hchunk := hp.chunks.relabel ht .user
  have hle := hp.region.start_le
  have hend : st.startfree + n = st.endfree := by omega
  refine ⟨hchunk, hp.lists.retile hfree fun t htt => hchunk.bounds htt, ?_⟩
  simp only [hend]
  refine ⟨Nat.le_refl _, ?_, fun hlt => absurd hlt (Nat.lt_irrefl _)⟩
  intro t
  constructor
  · rintro ⟨hmem, hk⟩
    rcases Tiling.mem_relabel.mp hmem with ⟨hold, hne⟩ | heq
    · have hbase := ((hp.region.unused t).mp ⟨hold, hk⟩).2
      rw [hn] at hbase
      exact absurd hbase hne
    · rw [heq] at hk
      simp at hk
  · rintro ⟨hlt, _⟩
    exact absurd hlt (Nat.lt_irrefl _)

/-- The front of the unused region is handed out, and something is left. -/
theorem PoolInv.carve_part (hp : PoolInv st T cur lost) {n R : Nat} (hpos : 0 < n)
    (hR : st.endfree - st.startfree = R) (hn : n < R) (hs : SlotSized (R - n))
    (ht : (⟨.unused, st.startfree, R⟩ : Tile Owner) ∈ T.tiles) :
    PoolInv { st with startfree := st.startfree + n }
      (T.cut _ ht n hpos hn .user .unused) cur lost := by
  have hmem : ∀ t, t ∈ (T.cut _ ht n hpos hn .user .unused).tiles ↔
      (t ∈ T.tiles ∧ t ≠ ⟨.unused, st.startfree, R⟩) ∨ t = ⟨.user, st.startfree, n⟩ ∨
        t = ⟨.unused, st.startfree + n, R - n⟩ := fun t => Tiling.mem_cut
  -- no free block is touched, and the chunks cover the same bytes
  have hfree : SameKind .free T (T.cut _ ht n hpos hn .user .unused) :=
    sameKind_cut (by simp) (by simp) (by simp)
  have hchunk : ChunkInv st.pointerEffectiveInterval (T.cut _ ht n hpos hn .user .unused) := by
    refine hp.chunks.retile (Tiling.covered_cut ht hpos hn .user .unused) ?_
    intro t htt
    obtain ⟨c, hc, hlo, hhi⟩ := hp.chunks.within _ ht
    simp only at hlo hhi
    rcases (hmem t).mp htt with ⟨hold, _⟩ | heq | heq
    · exact Or.inl hold
    · refine Or.inr ⟨c, hc, ?_, ?_⟩ <;>
      · rw [heq]
        simp only
        omega
    · refine Or.inr ⟨c, hc, ?_, ?_⟩ <;>
      · rw [heq]
        simp only
        omega
  have hend : st.endfree - (st.startfree + n) = R - n := by omega
  refine ⟨hchunk, hp.lists.retile hfree fun t htt => hchunk.bounds htt, ?_⟩
  refine ⟨by simp only; omega, ?_, ?_⟩
  · -- the rest is the only unused tile
    intro t
    simp only
    rw [hmem, hend]
    constructor
    · rintro ⟨hor, hk⟩
      rcases hor with ⟨hold, hne⟩ | heq | heq
      · have hbase := ((hp.region.unused t).mp ⟨hold, hk⟩).2
        rw [hR] at hbase
        exact absurd hbase hne
      · rw [heq] at hk
        simp at hk
      · exact ⟨by omega, heq⟩
    · rintro ⟨_, heq⟩
      exact ⟨Or.inr (Or.inr heq), by rw [heq]⟩
  · intro _
    simp only
    rw [hend]
    exact hs

/-- **Carving a run** from the front of the unused region. -/
theorem PoolInv.carve (hp : PoolInv st T cur lost) {n : Nat} (hpos : 0 < n)
    (hle : n ≤ st.endfree - st.startfree)
    (hs : n < st.endfree - st.startfree → SlotSized (st.endfree - st.startfree - n)) :
    ∃ T', PoolInv { st with startfree := st.startfree + n } T' cur lost ∧ SameKind .free T T' ∧
      (⟨.user, st.startfree, n⟩ : Tile Owner) ∉ T.tiles ∧
      users T' = insert ⟨.user, st.startfree, n⟩ (users T) := by
  have hlt : st.startfree < st.endfree := by omega
  obtain ⟨ht, _⟩ := hp.unused_tile hlt
  have hnot : (⟨.user, st.startfree, n⟩ : Tile Owner) ∉ T.tiles := by
    intro hmem
    exact absurd (congrArg Tile.kind (T.eq_of_base hmem ht rfl)) (by simp)
  by_cases hall : st.endfree - st.startfree = n
  · rw [hall] at ht
    exact ⟨_, hp.carve_all hall ht, sameKind_relabel (by simp) (by simp), hnot,
      users_relabel_to ht (by simp)⟩
  · have hn : n < st.endfree - st.startfree := by omega
    exact ⟨_, hp.carve_part hpos rfl hn (hs hn) ht, sameKind_cut (by simp) (by simp) (by simp),
      hnot, users_cut ht hpos hn (by simp) (by simp)⟩

/-- **Recycling.**  What is left of the region goes on the free list of its length; the other
lists keep their heads and the links behind them. -/
theorem PoolInv.recycle (hp : PoolInv st T cur lost) (hlt : st.startfree < st.endfree) {R : Nat}
    (hR : st.endfree - st.startfree = R) (hle : R ≤ thirdSlot) :
    ∃ st' T', useLeftover st R = some st' ∧
      PoolInv st' T' (setChain cur (findFreeListIndex R)
        (st.startfree :: cur (findFreeListIndex R))) lost ∧ users T' = users T ∧
      st'.startfree = st'.endfree ∧
      st'.pointerEffectiveInterval = st.pointerEffectiveInterval ∧
      ∀ j, j ≠ findFreeListIndex R → st'.freeList j = st.freeList j ∧
        (st.freeList j ≠ 0 → nextOf st'.mem (st.freeList j) = nextOf st.mem (st.freeList j)) := by
  have h : Pool st T := ⟨cur, lost, hp⟩
  obtain ⟨ht, hs⟩ := hp.unused_tile hlt
  rw [hR] at hs ht
  have h512 := hs.le
  obtain ⟨T₁, hpool₁, _, hnot, husers₁⟩ :=
    hp.carve (n := R) hs.pos (by omega) (fun hlt => absurd hlt (by omega))
  have hmem : (⟨.user, st.startfree, R⟩ : Tile Owner) ∈ T₁.tiles := by
    have hin : (⟨.user, st.startfree, R⟩ : Tile Owner) ∈ users T₁ := by
      rw [husers₁]
      exact Set.mem_insert _ _
    exact hin.1
  have hpush := hpool₁.push hmem hs hle
  refine ⟨_, _, ?_, hpush, ?_, ?_, rfl, ?_⟩
  · -- an aligned length leaves no second fragment
    unfold useLeftover
    simp only [hs.dataAlignment_eq, Nat.sub_self, Nat.sub_zero]
    rw [useRemainingSpace_eq, setBlock2FreeList_pushed st st.startfree hs hle]
    rfl
  · rw [users_relabel_from hmem (by simp), husers₁, Set.insert_sdiff_of_mem _ (by simp)]
    exact Set.sdiff_singleton_eq_self fun hin => hnot hin.1
  · show st.startfree + R = st.endfree
    omega
  · intro j hj
    have hhead : (pushed { st with startfree := st.startfree + R } st.startfree R).freeList j =
        st.freeList j := by
      unfold pushed RocketCoAlloctor.setFreeList
      simp only [hj, if_false]
    refine ⟨hhead, ?_⟩
    intro h0
    -- the head of another list is a free block, away from the region and from the other head
    obtain ⟨_, _, hjt, _⟩ := h.head_tile h0
    have hfar := T.apart _ hjt _ ht (fun heq => absurd (congrArg Tile.kind heq) (by simp))
    have hjs := h.free_sized hjt
    have hj512 := hjs.1.le
    simp only [Tile.Apart] at hfar
    unfold pushed RocketCoAlloctor.setFreeList nextOf
    refine load_congr (pushMem_agree st.mem h512 (by omega) ?_)
    intro hi0
    dsimp only at hi0 ⊢
    obtain ⟨_, _, hit, _⟩ := h.head_tile hi0
    have hi512 := (h.free_sized hit).1.le
    by_cases heq : st.freeList j = st.freeList (findFreeListIndex R)
    · omega
    · have hap := T.apart _ hjt _ hit (fun hh => heq (congrArg Tile.base hh))
      simp only [Tile.Apart] at hap
      omega

end Region

/-! ## §3. New chunks. -/

/-- The answer of `malloc`: a region of `n` bytes away from every chunk. -/
def FreshRegion (ivs : List (Nat × Nat)) (a n : Nat) : Prop :=
  0 < a ∧ a + n < longMax ∧ ∀ c ∈ ivs, 0 < c.1 → c.1 < longMax → a + n ≤ c.1 ∨ c.2 ≤ a

instance (ivs : List (Nat × Nat)) (a n : Nat) : Decidable (FreshRegion ivs a n) :=
  inferInstanceAs (Decidable (_ ∧ _ ∧ _))

theorem isChunk_emplace {ivs : List (Nat × Nat)} {iv c : Nat × Nat} :
    IsChunk (emplace iv ivs) c ↔ (c = iv ∧ 0 < c.1 ∧ c.1 < longMax) ∨ IsChunk ivs c := by
  unfold IsChunk
  rw [mem_emplace]
  tauto

/-- A failed `malloc` leaves an interval at the null pointer, which is no chunk. -/
theorem ChunkInv.emplace_null {ivs : List (Nat × Nat)} {T : Tiling Owner} (h : ChunkInv ivs T)
    (n : Nat) : ChunkInv (emplace (0, n) ivs) T := by
  have hsame : ∀ c, IsChunk (emplace (0, n) ivs) c ↔ IsChunk ivs c := by
    intro c
    rw [isChunk_emplace]
    constructor
    · intro hor
      rcases hor with ⟨heq, hpos, _⟩ | hc
      · rw [heq] at hpos
        exact absurd hpos (Nat.lt_irrefl 0)
      · exact hc
    · exact Or.inr
  refine ⟨emplace_sorted _ h.sorted, mem_emplace.mpr (Or.inr h.sentinel), ?_, ?_, ?_, ?_⟩
  · intro c hc
    rcases mem_emplace.mp hc with heq | hold
    · rw [heq]
      exact Or.inr (Or.inl rfl)
    · exact h.interval c hold
  · intro c d hc hd
    exact h.chunks_apart c d ((hsame c).mp hc) ((hsame d).mp hd)
  · intro t ht
    obtain ⟨c, hc, hin⟩ := h.within t ht
    exact ⟨c, (hsame c).mpr hc, hin⟩
  · intro c hc
    exact h.cover c ((hsame c).mp hc)

theorem FreshRegion.tile_apart {ivs : List (Nat × Nat)} {T : Tiling Owner} {a n : Nat}
    (hf : FreshRegion ivs a n) (h : ChunkInv ivs T) (k : Owner) :
    ∀ u ∈ T.tiles, (⟨k, a, n⟩ : Tile Owner).Apart u := by
  intro u hu
  obtain ⟨c, ⟨hc, hpos, hlt⟩, hlo, hhi⟩ := h.within u hu
  have hap := hf.2.2 c hc hpos hlt
  simp only [Tile.Apart]
  omega

/-- **A fresh chunk** is one new tile. -/
theorem ChunkInv.add {ivs : List (Nat × Nat)} {T : Tiling Owner} (h : ChunkInv ivs T) {a n : Nat}
    (hf : FreshRegion ivs a n) (hn : 0 < n) (k : Owner) :
    ChunkInv (emplace (a, a + n) ivs) (T.add ⟨k, a, n⟩ hn (hf.tile_apart h k)) := by
  obtain ⟨hpos, hmax, hapart⟩ := id hf
  have hnew : IsChunk (emplace (a, a + n) ivs) (a, a + n) :=
    isChunk_emplace.mpr (Or.inl ⟨rfl, hpos, by simp only; omega⟩)
  refine ⟨emplace_sorted _ h.sorted, mem_emplace.mpr (Or.inr h.sentinel), ?_, ?_, ?_, ?_⟩
  · intro c hc
    rcases mem_emplace.mp hc with heq | hold
    · rw [heq]
      exact Or.inr (Or.inr ⟨hpos, by simp only; omega, hmax⟩)
    · exact h.interval c hold
  · intro c d hc hd hne
    rcases isChunk_emplace.mp hc with ⟨hceq, _⟩ | hcold
    · rcases isChunk_emplace.mp hd with ⟨hdeq, _⟩ | hdold
      · exact absurd (hceq.trans hdeq.symm) hne
      · rw [hceq]
        exact hapart d hdold.1 hdold.2.1 hdold.2.2
    · rcases isChunk_emplace.mp hd with ⟨hdeq, _⟩ | hdold
      · rw [hdeq]
        exact (hapart c hcold.1 hcold.2.1 hcold.2.2).symm
      · exact h.chunks_apart c d hcold hdold hne
  · intro t ht
    rcases Tiling.mem_add.mp ht with hold | heq
    · obtain ⟨c, hc, hin⟩ := h.within t hold
      exact ⟨c, isChunk_emplace.mpr (Or.inr hc), hin⟩
    · refine ⟨(a, a + n), hnew, ?_, ?_⟩ <;>
      · rw [heq]
  · intro c hc x hlo hhi
    rcases isChunk_emplace.mp hc with ⟨heq, _⟩ | hold
    · rw [heq] at hlo hhi
      exact ⟨_, Tiling.mem_add.mpr (Or.inr rfl), hlo, hhi⟩
    · obtain ⟨t, ht, hx⟩ := h.cover c hold x hlo hhi
      exact ⟨t, Tiling.mem_add.mpr (Or.inl ht), hx⟩

/-- Without an unused region no tile is unused. -/
theorem UnusedInv.none_unused {s e : Nat} {T : Tiling Owner} (h : UnusedInv s e T) (heq : s = e)
    {t : Tile Owner} (ht : t ∈ T.tiles) : t.kind ≠ .unused := by
  intro hk
  have hlt := ((h.unused t).mp ⟨ht, hk⟩).1
  omega

section NewRegion

variable {st : RocketCoAlloctor} {T : Tiling Owner} {cur : Nat → List Nat}
  {lost : Nat → List (List Nat)}

/-- **A new chunk becomes the unused region.** -/
theorem PoolInv.addChunk (hp : PoolInv st T cur lost) (hnone : st.startfree = st.endfree) {a n : Nat}
    (hf : FreshRegion st.pointerEffectiveInterval a n) (hs : SlotSized n)
    (rp : List Nat) :
    ∃ T', PoolInv { st with
        startfree := a
        endfree := a + n
        resourcePointers := rp
        pointerEffectiveInterval := emplace (a, a + n) st.pointerEffectiveInterval } T' cur lost ∧
      users T' = users T := by
  have hpos := hs.pos
  have hchunk := hp.chunks.add hf hpos .unused
  have hfree : SameKind .free T (T.add ⟨.unused, a, n⟩ hpos (hf.tile_apart hp.chunks .unused)) := by
    intro t hk
    rw [Tiling.mem_add]
    constructor
    · intro hor
      rcases hor with hold | heq
      · exact hold
      · rw [heq] at hk
        simp at hk
    · exact Or.inl
  refine ⟨_, ⟨hchunk, ?_, ?_⟩, ?_⟩
  · exact hp.lists.retile hfree fun t ht => hchunk.bounds ht
  · refine ⟨Nat.le_add_right a n, ?_, ?_⟩
    · intro t
      simp only [Nat.add_sub_cancel_left]
      constructor
      · rintro ⟨hmem, hk⟩
        rcases Tiling.mem_add.mp hmem with hold | heq
        · exact absurd hk (hp.region.none_unused hnone hold)
        · exact ⟨by omega, heq⟩
      · rintro ⟨_, heq⟩
        exact ⟨Tiling.mem_add.mpr (Or.inr heq), by rw [heq]⟩
    · intro _
      simp only [Nat.add_sub_cancel_left]
      exact hs
  · ext t
    simp only [users, Set.mem_ofPred_eq, Tiling.mem_add]
    constructor
    · rintro ⟨hor, hk⟩
      rcases hor with hold | heq
      · exact ⟨hold, hk⟩
      · rw [heq] at hk
        simp at hk
    · rintro ⟨hold, hk⟩
      exact ⟨Or.inl hold, hk⟩

/-- A failed `malloc` without a longer list to fall back on. -/
theorem PoolInv.exhausted (hp : PoolInv st T cur lost) (hnone : st.startfree = st.endfree) (n : Nat)
    (rp : List Nat) :
    PoolInv { st with
      startfree := 0
      endfree := 0
      resourcePointers := rp
      pointerEffectiveInterval := emplace (0, n) st.pointerEffectiveInterval } T cur lost := by
  refine ⟨hp.chunks.emplace_null n, hp.lists, Nat.le_refl 0, ?_, ?_⟩
  · intro t
    constructor
    · rintro ⟨ht, hk⟩
      exact absurd hk (hp.region.none_unused hnone ht)
    · rintro ⟨hlt, _⟩
      exact absurd hlt (Nat.lt_irrefl 0)
  · intro hlt
    exact absurd hlt (Nat.lt_irrefl 0)

/-- **The fallback**: the only block of a longer list becomes the unused region. -/
theorem PoolInv.fallBack (hp : PoolInv st T cur lost) (hnone : st.startfree = st.endfree) {i : Nat}
    (h0 : st.freeList i ≠ 0) (hlast : nextOf st.mem (st.freeList i) = 0) (n : Nat)
    (rp : List Nat) :
    ∃ T', PoolInv { st.setFreeList i 0 with
        startfree := st.freeList i
        endfree := st.freeList i + slotLength i
        resourcePointers := rp
        pointerEffectiveInterval := emplace (0, n) st.pointerEffectiveInterval } T'
          (setChain cur i []) lost ∧
      users T' = users T := by
  obtain ⟨l, hl, ht, hun⟩ := hp.popHead h0
  obtain ⟨hs, _⟩ := Pool.free_sized ⟨cur, lost, hp⟩ ht
  -- nothing stands behind the head
  have hnil : l = [] := by
    have hc := hp.lists.chain i
    rw [hl] at hc
    have hnext : nextOf st.mem (st.freeList i) = (l.map id).headD 0 := hc.2.1
    cases l with
    | nil => rfl
    | cons b l =>
        have hpos : 0 < b := hp.lists.node_pos (i := i) (cur_sub (by rw [hl]; simp))
        rw [hlast] at hnext
        simp only [List.map_cons, id_eq, List.headD_cons] at hnext
        omega
  rw [hlast, hnil] at hun
  simp only [ne_eq, not_true_eq_false, if_false] at hun
  have hu : (⟨.user, st.freeList i, slotLength i⟩ : Tile Owner) ∈
      (T.relabel ⟨.free, st.freeList i, slotLength i⟩ ht .user).tiles := Or.inr rfl
  have hchunk := (hun.chunks.emplace_null n).relabel hu .unused
  refine ⟨_, ⟨hchunk, ?_, ?_⟩, ?_⟩
  · exact hun.lists.retile (sameKind_relabel (by simp) (by simp)) fun t htt => hchunk.bounds htt
  · refine ⟨Nat.le_add_right _ _, ?_, ?_⟩
    · intro t
      simp only [Nat.add_sub_cancel_left]
      constructor
      · rintro ⟨hmem, hk⟩
        rcases Tiling.mem_relabel.mp hmem with ⟨hold, _⟩ | heq
        · exact absurd hk (hun.region.none_unused hnone hold)
        · exact ⟨by have := hs.pos; omega, heq⟩
      · rintro ⟨_, heq⟩
        exact ⟨Tiling.mem_relabel.mpr (Or.inr heq), by rw [heq]⟩
    · intro _
      simp only [Nat.add_sub_cancel_left]
      exact hs
  · rw [users_relabel_from hu (by simp), users_relabel_to ht (by simp),
      Set.insert_sdiff_of_mem _ (by simp)]
    exact Set.sdiff_singleton_eq_self (not_users ht (by simp) _)

end NewRegion

end RocketCo.MemoryPool
