/-
  RocketCo.MemoryPool.Layout — who owns which byte of the pool.

  The ghost half of the allocator's invariant: a tiling of all chunks by outstanding blocks, free
  blocks and the unused region, and for every free list the sequence of nodes it links.  `cur i`
  is the chain `free_list[i]` heads.  `lost i` holds chains of list `i` that no head points to any
  more: `Refill` overwrites the head of its list, and a block recycled onto that list a moment
  earlier is dropped with it.  A dropped chain keeps its links, so a later merge may well pick
  one of its blocks up again.

  `PoolInv` ties the ghost half to the fields and the memory of the allocator.
-/
import RocketCo.Lib.Chain
import RocketCo.Lib.Tiling
import RocketCo.MemoryPool.Alloctor

namespace RocketCo.MemoryPool

open RocketCo.Lib

/-! ## §1. Chains and nodes in memory. -/

/-- `l` is a null-terminated doubly linked list of nodes in memory `m`. -/
abbrev Chain (m : Mem) (l : List Nat) : Prop := Seg id (prevOf m) (nextOf m) 0 l 0

/-- The two nodes of a free block of length `L` at `a` are filled in. -/
structure NodeOk (m : Mem) (a L : Nat) : Prop where
  slot : slotOf m a = findFreeListIndex L
  length : itemLengthOf m a = L
  trailer : itemLengthOf m (a + (L - nodeSize)) = L

/-- The links of a node lie inside of its block, ... -/
theorem prevOf_congr {m m' : Mem} {a L : Nat} (h : AgreeOn m m' a L) (hL : nodeSize ≤ L) :
    prevOf m' a = prevOf m a := by
  unfold nodeSize at hL
  exact load_congr (h.mono (Nat.le_refl a) (by omega))

theorem nextOf_congr {m m' : Mem} {a L : Nat} (h : AgreeOn m m' a L) (hL : nodeSize ≤ L) :
    nextOf m' a = nextOf m a := by
  unfold nodeSize at hL
  exact load_congr (h.mono (by omega) (by omega))

/-- ... and so does its length. -/
theorem itemLengthOf_congr {m m' : Mem} {a : Nat} (h : AgreeOn m m' (a + 24) 4) :
    itemLengthOf m' a = itemLengthOf m a := by
  unfold itemLengthOf
  rw [load_congr h]

/-- A node depends only on the last two fields of its head and on the length of its tail. -/
theorem NodeOk.congr {m m' : Mem} {a L : Nat} (h : NodeOk m a L)
    (hhead : AgreeOn m m' (a + 16) 12) (htail : AgreeOn m m' (a + (L - nodeSize) + 24) 4) :
    NodeOk m' a L := by
  refine ⟨?_, ?_, ?_⟩
  · rw [← h.slot]
    exact load_congr (hhead.mono (by omega) (by omega))
  · rw [itemLengthOf_congr (hhead.mono (by omega) (by omega)), h.length]
  · rw [itemLengthOf_congr htail, h.trailer]

/-- A node is as good as the bytes of its block. -/
theorem NodeOk.of_agree {m m' : Mem} {a L : Nat} (h : NodeOk m a L) (hL : nodeSize ≤ L)
    (hag : AgreeOn m m' a L) : NodeOk m' a L := by
  unfold nodeSize at hL
  refine h.congr (hag.mono (by omega) (by omega)) (hag.mono (by omega) ?_)
  unfold nodeSize
  omega

/-- An `int` field read back, for lengths an `int` can hold. -/
theorem itemLengthOf_set (m : Mem) (p : Nat) {v : Nat} (h : v < 2 ^ 31) :
    itemLengthOf (setItemLength m p v) p = v := by
  unfold itemLengthOf setItemLength
  have hload : load (store m (p + 24) 4 v) (p + 24) 4 = v :=
    load_store_fits m (p + 24) 4 (by omega)
  rw [hload]
  show (if v < 2 ^ 31 then v else _) = v
  rw [if_pos h]

/-! ## §2. The invariant. -/

/-- What a tile of the pool is. -/
inductive Owner where
  | user
  | free
  | unused

/-- A chunk obtained by `ChunkAlloc`: an interval of the table that is neither the sentinel nor
left by a failed `malloc`. -/
def IsChunk (ivs : List (Nat × Nat)) (c : Nat × Nat) : Prop :=
  c ∈ ivs ∧ 0 < c.1 ∧ c.1 < longMax

/-- The interval table: a sorted set of disjoint chunks that the tiles cover exactly. -/
structure ChunkInv (ivs : List (Nat × Nat)) (T : Tiling Owner) : Prop where
  sorted : ivs.Pairwise fun a b => pairLt a b = true
  sentinel : (longMax, longMax) ∈ ivs
  interval : ∀ c ∈ ivs,
    c = (longMax, longMax) ∨ c.1 = 0 ∨ (0 < c.1 ∧ c.1 < c.2 ∧ c.2 < longMax)
  chunks_apart : ∀ c d, IsChunk ivs c → IsChunk ivs d → c ≠ d → c.2 ≤ d.1 ∨ d.2 ≤ c.1
  within : ∀ t ∈ T.tiles, ∃ c, IsChunk ivs c ∧ c.1 ≤ t.base ∧ t.base + t.len ≤ c.2
  cover : ∀ c, IsChunk ivs c → ∀ x, c.1 ≤ x → x < c.2 → x ∈ T.covered

/-- All nodes of list `i`, linked or dropped. -/
def nodes (cur : Nat → List Nat) (lost : Nat → List (List Nat)) (i : Nat) : List Nat :=
  cur i ++ (lost i).flatten

/-- The free lists: every chain is linked in memory, and the free tiles are exactly its nodes. -/
structure ListInv (freeList : Nat → Nat) (m : Mem) (T : Tiling Owner) (cur : Nat → List Nat)
    (lost : Nat → List (List Nat)) : Prop where
  head : ∀ i, freeList i = (cur i).headD 0
  chain : ∀ i, Chain m (cur i)
  lost_chain : ∀ i, ∀ l ∈ lost i, Chain m l
  nodup : ∀ i, (nodes cur lost i).Nodup
  node : ∀ i, ∀ a ∈ nodes cur lost i,
    i < slotCount ∧ findFreeListIndex (slotLength i) = i ∧ ⟨.free, a, slotLength i⟩ ∈ T.tiles
  free : ∀ t ∈ T.tiles, t.kind = .free →
    SlotSized t.len ∧ t.len ≤ thirdSlot ∧ t.base ∈ nodes cur lost (findFreeListIndex t.len) ∧
      NodeOk m t.base t.len
  bounds : ∀ t ∈ T.tiles, 0 < t.base ∧ t.base + t.len < longMax

/-- The unused region is one tile, of a slot length, or empty. -/
structure UnusedInv (startfree endfree : Nat) (T : Tiling Owner) : Prop where
  start_le : startfree ≤ endfree
  unused : ∀ t, (t ∈ T.tiles ∧ t.kind = .unused) ↔
    (startfree < endfree ∧ t = ⟨.unused, startfree, endfree - startfree⟩)
  sized : startfree < endfree → SlotSized (endfree - startfree)

/-- The allocator's fields and memory agree with the tiling and the chains. -/
structure PoolInv (st : RocketCoAlloctor) (T : Tiling Owner) (cur : Nat → List Nat)
    (lost : Nat → List (List Nat)) : Prop where
  chunks : ChunkInv st.pointerEffectiveInterval T
  lists : ListInv st.freeList st.mem T cur lost
  region : UnusedInv st.startfree st.endfree T

/-! ## §3. Chunks. -/

theorem ChunkInv.bounds {ivs : List (Nat × Nat)} {T : Tiling Owner} (h : ChunkInv ivs T)
    {t : Tile Owner} (ht : t ∈ T.tiles) : 0 < t.base ∧ t.base + t.len < longMax := by
  obtain ⟨c, ⟨hc, hpos, hlt⟩, hlo, hhi⟩ := h.within t ht
  rcases h.interval c hc with hs | h0 | ⟨_, _, hmax⟩
  · rw [hs] at hlt
    simp at hlt
  · omega
  · omega

/-- Two tiles that share an address with one chunk lie in that chunk. -/
theorem ChunkInv.within_of_mem {ivs : List (Nat × Nat)} {T : Tiling Owner} (h : ChunkInv ivs T)
    {t : Tile Owner} (ht : t ∈ T.tiles) {c : Nat × Nat} (hc : IsChunk ivs c) {x : Nat}
    (hx : t.Covers x) (hlo : c.1 ≤ x) (hhi : x < c.2) : c.1 ≤ t.base ∧ t.base + t.len ≤ c.2 := by
  obtain ⟨d, hd, hdlo, hdhi⟩ := h.within t ht
  obtain ⟨hxlo, hxhi⟩ := hx
  by_cases hcd : c = d
  · rw [hcd]
    exact ⟨hdlo, hdhi⟩
  · rcases h.chunks_apart c d hc hd hcd with hap | hap <;> omega

/-- The table says the same of another tiling of the same addresses. -/
theorem ChunkInv.retile {ivs : List (Nat × Nat)} {T T' : Tiling Owner} (h : ChunkInv ivs T)
    (hcov : T'.covered = T.covered)
    (hin : ∀ t ∈ T'.tiles, t ∈ T.tiles ∨
      ∃ c, IsChunk ivs c ∧ c.1 ≤ t.base ∧ t.base + t.len ≤ c.2) : ChunkInv ivs T' := by
  refine ⟨h.sorted, h.sentinel, h.interval, h.chunks_apart, ?_, ?_⟩
  · intro t ht
    rcases hin t ht with hold | hnew
    · exact h.within t hold
    · exact hnew
  · intro c hc x hlo hhi
    rw [hcov]
    exact h.cover c hc x hlo hhi

/-- Relabelling a tile does not move it. -/
theorem ChunkInv.relabel {ivs : List (Nat × Nat)} {T : Tiling Owner} (h : ChunkInv ivs T)
    {t : Tile Owner} (ht : t ∈ T.tiles) (k : Owner) : ChunkInv ivs (T.relabel t ht k) := by
  refine h.retile (Tiling.covered_relabel ht k) ?_
  intro u hu
  rcases Tiling.mem_relabel.mp hu with ⟨hold, _⟩ | hnew
  · exact Or.inl hold
  · rw [hnew]
    exact Or.inr (h.within t ht)

/-! ## §4. Free lists. -/

section ListInv

variable {freeList : Nat → Nat} {m : Mem} {T : Tiling Owner} {cur : Nat → List Nat}
  {lost : Nat → List (List Nat)}

theorem cur_sub {i a : Nat} (ha : a ∈ cur i) : a ∈ nodes cur lost i :=
  List.mem_append_left _ ha

theorem lost_sub {i a : Nat} {l : List Nat} (hl : l ∈ lost i) (ha : a ∈ l) :
    a ∈ nodes cur lost i :=
  List.mem_append_right _ (List.mem_flatten.mpr ⟨l, hl, ha⟩)

namespace ListInv

/-- The free tile of a node. -/
theorem node_tile (h : ListInv freeList m T cur lost) {i a : Nat} (ha : a ∈ nodes cur lost i) :
    ⟨.free, a, slotLength i⟩ ∈ T.tiles := (h.node i a ha).2.2

/-- No node is at null. -/
theorem node_pos (h : ListInv freeList m T cur lost) {i a : Nat} (ha : a ∈ nodes cur lost i) :
    0 < a := (h.bounds _ (h.node_tile ha)).1

theorem node_lt (h : ListInv freeList m T cur lost) {i a : Nat} (ha : a ∈ nodes cur lost i) :
    a < 256 ^ 8 := by
  have hb := (h.bounds _ (h.node_tile ha)).2
  unfold longMax at hb
  simp only at hb
  omega

/-- A free block has room for both its nodes. -/
theorem free_le (h : ListInv freeList m T cur lost) {t : Tile Owner} (ht : t ∈ T.tiles)
    (hk : t.kind = .free) : 512 ≤ t.len := (h.free t ht hk).1.le

/-- A node has 512 bytes at least. -/
theorem node_le (h : ListInv freeList m T cur lost) {i a : Nat} (ha : a ∈ nodes cur lost i) :
    512 ≤ slotLength i := h.free_le (h.node_tile ha) rfl

/-- Distinct nodes, of whatever lists, are disjoint blocks. -/
theorem nodes_apart (h : ListInv freeList m T cur lost) {i j a b : Nat}
    (ha : a ∈ nodes cur lost i) (hb : b ∈ nodes cur lost j) (hne : a ≠ b) :
    a + slotLength i ≤ b ∨ b + slotLength j ≤ a := by
  refine T.apart _ (h.node_tile ha) _ (h.node_tile hb) ?_
  intro heq
  exact hne (congrArg Tile.base heq)

/-- A block on two lists would be two tiles: the list of a node is unique. -/
theorem node_unique (h : ListInv freeList m T cur lost) {i j a : Nat}
    (hi : a ∈ nodes cur lost i) (hj : a ∈ nodes cur lost j) : i = j := by
  have heq := T.eq_of_base (h.node_tile hi) (h.node_tile hj) rfl
  have hlen : slotLength i = slotLength j := congrArg Tile.len heq
  rw [← (h.node i a hi).2.1, ← (h.node j a hj).2.1, hlen]

/-- The head of a non-empty list. -/
theorem cur_of_head (h : ListInv freeList m T cur lost) {i : Nat} (hne : freeList i ≠ 0) :
    ∃ l, cur i = freeList i :: l := by
  have hh := h.head i
  cases hc : cur i with
  | nil =>
      rw [hc] at hh
      exact absurd hh hne
  | cons a l =>
      rw [hc] at hh
      exact ⟨l, by rw [hh]; rfl⟩

/-- An empty list has no nodes. -/
theorem cur_of_zero (h : ListInv freeList m T cur lost) {i : Nat} (h0 : freeList i = 0) :
    cur i = [] := by
  cases hc : cur i with
  | nil => rfl
  | cons a l =>
      have hh := h.head i
      rw [hc, h0] at hh
      have hpos := h.node_pos (i := i) (a := a) (cur_sub (by rw [hc]; exact List.mem_cons_self))
      simp at hh
      omega

/-- Memory that agrees on every free tile keeps the lists: nothing else is read. -/
theorem of_agree (h : ListInv freeList m T cur lost) {m' : Mem}
    (hag : ∀ t ∈ T.tiles, t.kind = .free → AgreeOn m m' t.base t.len) :
    ListInv freeList m' T cur lost := by
  have hnode : ∀ i, ∀ a ∈ nodes cur lost i,
      prevOf m' a = prevOf m a ∧ nextOf m' a = nextOf m a := by
    intro i a ha
    have hsz : nodeSize ≤ slotLength i := Nat.le_trans (by decide) (h.node_le ha)
    have hta := hag _ (h.node_tile ha) rfl
    exact ⟨prevOf_congr hta hsz, nextOf_congr hta hsz⟩
  refine ⟨h.head, ?_, ?_, h.nodup, h.node, ?_, h.bounds⟩
  · intro i
    exact (h.chain i).congr fun a ha => hnode i a (cur_sub ha)
  · intro i l hl
    exact (h.lost_chain i l hl).congr fun a ha => hnode i a (lost_sub hl ha)
  · intro t ht hk
    obtain ⟨hs, hle, hmem, hok⟩ := h.free t ht hk
    exact ⟨hs, hle, hmem, hok.of_agree (Nat.le_trans (by decide) hs.le) (hag t ht hk)⟩

end ListInv

end ListInv

end RocketCo.MemoryPool
