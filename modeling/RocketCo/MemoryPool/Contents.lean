/-
  RocketCo.MemoryPool.Contents — the allocator leaves the bytes of its client alone.

  Free blocks carry their nodes in themselves, so every routine of the allocator writes into the
  memory it manages: links into neighbours on a list, slots and lengths at both ends of a block.
  Here each routine is followed through the bytes it writes.  All of them lie in free blocks, in the
  unused region, in the block just returned, or in a chunk just obtained.

  Over whole runs of `Safely` steps this makes the pool what a program takes an allocator for:

    • `pool_refines_heap` — every such run is one of the abstract heap of `Lib.Heap`,
    • `contents_kept` — what was written last into a block is what is read, until it is returned.

  Both need `SafeMerge` and `SafeUnlink` of every step: a merge with a neighbour in use writes into that
  neighbour, and a tail that is unlinked is written to through a null link.
-/
import RocketCo.Lib.Heap
import RocketCo.MemoryPool.Delegated

namespace RocketCo.MemoryPool

open RocketCo.Lib

/-! ## §1. Edits of the free lists. -/

/-- No free block and no unused region has a byte at `x`. -/
def Spared (T : Tiling Owner) (x : Nat) : Prop := ∀ t ∈ T.tiles, t.Covers x → t.kind = .user

section Lists

variable {st st' : RocketCoAlloctor} {T : Tiling Owner} {x : Nat}

theorem Spared.apart (hx : Spared T x) {k : Owner} {a L : Nat} (ht : ⟨k, a, L⟩ ∈ T.tiles)
    (hk : k ≠ .user) : x < a ∨ a + L ≤ x := by
  by_contra hin
  have hcov : (⟨k, a, L⟩ : Tile Owner).Covers x := ⟨by simp only; omega, by simp only; omega⟩
  exact hk (hx _ ht hcov)

theorem Spared.relabel (hx : Spared T x) {t : Tile Owner} (ht : t ∈ T.tiles) :
    Spared (T.relabel t ht .user) x := by
  intro u hu hcov
  rcases Tiling.mem_relabel.mp hu with ⟨hold, _⟩ | hnew
  · exact hx u hold hcov
  · rw [hnew]

/-- The chain a node stands on. -/
theorem ListInv.chain_of_node {freeList : Nat → Nat} {m : Mem} {cur : Nat → List Nat}
    {lost : Nat → List (List Nat)} (h : ListInv freeList m T cur lost) {i a : Nat}
    (ha : a ∈ nodes cur lost i) :
    ∃ l₁ l₂, Chain m (l₁ ++ a :: l₂) ∧ ∀ b ∈ l₁ ++ a :: l₂, b ∈ nodes cur lost i := by
  rcases List.mem_append.mp ha with hcur | hlost
  · obtain ⟨l₁, l₂, hsplit⟩ := List.append_of_mem hcur
    refine ⟨l₁, l₂, hsplit ▸ h.chain i, ?_⟩
    intro b hb
    exact cur_sub (by rw [hsplit]; exact hb)
  · obtain ⟨l, hl, hal⟩ := List.mem_flatten.mp hlost
    obtain ⟨l₁, l₂, hsplit⟩ := List.append_of_mem hal
    refine ⟨l₁, l₂, hsplit ▸ h.lost_chain i l hl, ?_⟩
    intro b hb
    exact lost_sub hl (by rw [hsplit]; exact hb)

/-- The neighbours of a free block on its chain are free blocks. -/
theorem Pool.neighbour_tiles (h : Pool st T) {a L : Nat} (ht : ⟨.free, a, L⟩ ∈ T.tiles) :
    (prevOf st.mem a ≠ 0 → ∃ k, ⟨.free, prevOf st.mem a, k⟩ ∈ T.tiles ∧ 512 ≤ k) ∧
      (nextOf st.mem a ≠ 0 → ∃ k, ⟨.free, nextOf st.mem a, k⟩ ∈ T.tiles ∧ 512 ≤ k) := by
  obtain ⟨cur, lost, hp⟩ := h
  obtain ⟨_, _, hmem, _⟩ := hp.lists.free _ ht rfl
  obtain ⟨l₁, l₂, hc, hsub⟩ := hp.lists.chain_of_node hmem
  have htile : ∀ b ∈ l₁ ++ a :: l₂, ∃ k, ⟨.free, b, k⟩ ∈ T.tiles ∧ 512 ≤ k := by
    intro b hb
    exact ⟨_, hp.lists.node_tile (hsub b hb), hp.lists.node_le (hsub b hb)⟩
  constructor
  · intro h0
    refine htile _ (List.mem_append_left _ ?_)
    have hprev : prevOf st.mem a = lastLink id 0 l₁ := hc.prev_eq
    rw [lastLink_eq] at hprev
    cases hl : l₁.getLast? with
    | none =>
        rw [hl] at hprev
        exact absurd hprev h0
    | some b =>
        rw [hl] at hprev
        rw [hprev]
        exact List.mem_of_mem_getLast? hl
  · intro h0
    refine htile _ (List.mem_append_right _ (List.mem_cons_of_mem _ ?_))
    have hnext : nextOf st.mem a = (l₂.map id).headD 0 := hc.next_eq
    cases l₂ with
    | nil => exact absurd hnext h0
    | cons b l =>
        rw [hnext]
        exact List.mem_cons_self

/-- Joining two free blocks writes into these two. -/
theorem Spared.unlinkMem_keeps (hx : Spared T x) (m : Mem) {prev next : Nat}
    (hprev : prev ≠ 0 → ∃ k, ⟨.free, prev, k⟩ ∈ T.tiles ∧ 512 ≤ k)
    (hnext : next ≠ 0 → ∃ k, ⟨.free, next, k⟩ ∈ T.tiles ∧ 512 ≤ k) :
    unlinkMem m prev next x = m x := by
  have hagree : AgreeOn m (unlinkMem m prev next) x 1 := by
    refine unlinkMem_agree m ?_ ?_
    · intro h0
      obtain ⟨k, htk, hk⟩ := hprev h0
      have hfar := hx.apart htk (by simp)
      omega
    · intro h0
      obtain ⟨k, htk, hk⟩ := hnext h0
      have hfar := hx.apart htk (by simp)
      omega
  exact hagree x (Nat.le_refl x) (by omega)

theorem unlinked_mem (st : RocketCoAlloctor) (a L : Nat) :
    (unlinked st a L).mem = unlinkMem st.mem (prevOf st.mem a) (nextOf st.mem a) := by
  unfold unlinked
  dsimp only

/-- **`MoveToFreeList`** writes into the two neighbours on the list. -/
theorem Pool.unlinked_keeps (h : Pool st T) {a L : Nat} (ht : ⟨.free, a, L⟩ ∈ T.tiles)
    (hx : Spared T x) : (unlinked st a L).mem x = st.mem x := by
  obtain ⟨hprev, hnext⟩ := h.neighbour_tiles ht
  rw [unlinked_mem]
  exact hx.unlinkMem_keeps st.mem hprev hnext

/-- **`SetBlock2FreeList`** writes into the block and into the old head of its list. -/
theorem Pool.pushed_keeps (h : Pool st T) {p L : Nat} (hL : 512 ≤ L) (hx : Spared T x)
    (hout : x < p ∨ p + L ≤ x) : (pushed st p L).mem x = st.mem x := by
  have hagree : AgreeOn st.mem (pushMem st.mem p (st.freeList (findFreeListIndex L))
      (findFreeListIndex L) L) x 1 := by
    refine pushMem_agree st.mem hL (by omega) ?_
    intro h0
    obtain ⟨_, _, htile, _⟩ := h.head_tile h0
    have hfar := hx.apart htile (by simp)
    have hsize := (h.free_sized htile).1.le
    omega
  exact hagree x (Nat.le_refl x) (by omega)

/-- The block put back after a merge takes the place of the two it came from. -/
theorem Pool.merged_keeps (h : Pool st T) {a k : Nat} (ht : ⟨.free, a, k⟩ ∈ T.tiles)
    {st₁ : RocketCoAlloctor} (hmove : moveToFreeList st a k = some st₁) {b L : Nat}
    (hs : SlotSized L) (hle : L ≤ thirdSlot) (hset : setBlock2FreeList st₁ b L = some st')
    (hx : Spared T x) (hout : x < b ∨ b + L ≤ x) : st'.mem x = st.mem x := by
  rw [h.moveToFreeList_eq ht] at hmove
  split at hmove
  · cases hmove
  · rw [← Option.some.inj hmove] at hset
    rw [setBlock2FreeList_pushed _ b hs hle] at hset
    rw [← Option.some.inj hset, (h.unlink ht).pushed_keeps hs.le (hx.relabel ht) hout]
    exact h.unlinked_keeps ht hx

end Lists

/-! ## §2. `RocketCoFree`. -/

section Free

variable {st st' : RocketCoAlloctor} {T : Tiling Owner} {c : Nat × Nat} {x : Nat}

/-- A merge that goes through took the free block off its list and put both back as one. -/
theorem mergeData_merged {lhs lenA rhs lenB : Nat} {flag : LeftOrRightMod}
    (hm : isMerge ((lenA + lenB) % sizeMod) = true)
    (h : (mergeData st lhs lenA rhs lenB flag).map Prod.fst = some st') :
    ∃ st₁, (match flag with
        | .leftNeedModified => moveToFreeList st lhs lenA
        | .rightNeedModified => moveToFreeList st rhs lenB) = some st₁ ∧
      setBlock2FreeList st₁ lhs ((lenA + lenB) % sizeMod) = some st' := by
  unfold mergeData at h
  simp only [hm, if_true] at h
  split at h
  · cases h
  · next st₁ hmove =>
      split at h
      · cases h
      · next st₂ hset =>
          have heq : st₂ = st' := Option.some.inj h
          exact ⟨st₁, hmove, heq ▸ hset⟩

/-- What `RocketCoFree` finds below a block, when the neighbour there is free. -/
theorem Pool.block_below (h : Pool st T) {ptr L : Nat} (hu : ⟨.user, ptr, L⟩ ∈ T.tiles)
    (hle : L ≤ thirdSlot) {t : Tile Owner} (ht : t ∈ T.tiles) (hk : t.kind = .free)
    (hcov : t.Covers (ptr - 1)) :
    ∃ b k, ⟨.free, b, k⟩ ∈ T.tiles ∧ b + k = ptr ∧ itemLengthOf st.mem (leftNode ptr) = k ∧
      (ptr + (sizeMod - k)) % sizeMod = b ∧ (k + L) % sizeMod = k + L := by
  have hbounds := h.chunkInv.bounds hu
  simp only at hbounds
  obtain ⟨kind, b, k⟩ := t
  simp only at hk
  subst hk
  have hend : b + k = ptr := T.ends_at hu ht hbounds.1 hcov
  obtain ⟨_, hlek⟩ := h.free_sized ht
  unfold thirdSlot at hle hlek
  unfold longMax at hbounds
  refine ⟨b, k, ht, hend, h.left_length ht hend, ?_, ?_⟩
  · unfold sizeMod
    omega
  · unfold sizeMod
    omega

/-- What it finds above. -/
theorem Pool.block_above (h : Pool st T) {ptr L : Nat} (hu : ⟨.user, ptr, L⟩ ∈ T.tiles)
    (hle : L ≤ thirdSlot) {t : Tile Owner} (ht : t ∈ T.tiles) (hk : t.kind = .free)
    (hcov : t.Covers (ptr + L)) :
    ∃ k, ⟨.free, ptr + L, k⟩ ∈ T.tiles ∧ itemLengthOf st.mem (ptr + L) = k ∧
      (L + k) % sizeMod = L + k := by
  obtain ⟨kind, a, k⟩ := t
  simp only at hk
  subst hk
  have hstart : a = ptr + L := T.begins_at hu ht hcov
  subst hstart
  obtain ⟨_, hlek⟩ := h.free_sized ht
  unfold thirdSlot at hle hlek
  refine ⟨k, ht, h.right_length ht, ?_⟩
  unfold sizeMod
  omega

/-- **`RocketCoFree`** writes into the block returned and into free blocks. -/
theorem Pool.free_keeps (h : Pool st T) {ptr n L : Nat} (hL : dataAlignment n = L)
    (hu : ⟨.user, ptr, L⟩ ∈ T.tiles) (hs : SlotSized L) (hle : L ≤ thirdSlot)
    (hfind : findInterval st.pointerEffectiveInterval ptr = some c)
    (hleft : MergesLeft st c ptr L → ∃ t ∈ T.tiles, t.kind = .free ∧ t.Covers (ptr - 1))
    (hright : ¬ MergesLeft st c ptr L → MergesRight st c ptr L →
      ∃ t ∈ T.tiles, t.kind = .free ∧ t.Covers (ptr + L))
    (hres : rocketCoFree st ptr n = some st') (hx : Spared T x)
    (hout : x < ptr ∨ ptr + L ≤ x) : st'.mem x = st.mem x := by
  have hbounds := h.chunkInv.bounds hu
  simp only at hbounds
  have hpool : Pool (unmarked st ptr L) T := h.mark rfl rfl rfl rfl rfl
  have hmem : (unmarked st ptr L).mem = st.mem := rfl
  rw [rocketCoFree_eq st hL hbounds.1 hs.pos hfind] at hres
  rw [← hmem]
  by_cases hml : MergesLeft st c ptr L
  · -- the block below is unlinked, the whole goes on a list
    rw [if_pos hml] at hres
    obtain ⟨t, ht, hk, hcov⟩ := hleft hml
    obtain ⟨b, k, htile, hend, hlen, haddr, hsum⟩ := h.block_below hu hle ht hk hcov
    have hmerge := hml.2
    rw [hlen] at hres hmerge
    obtain ⟨st₁, hmove, hset⟩ := mergeData_merged hmerge hres
    rw [haddr] at hmove hset
    rw [hsum] at hmerge hset
    obtain ⟨hsize, hmax⟩ := isMerge_slotSized (t := k + L) (by have := hs.pos; omega) hmerge
    have hfar := hx.apart htile (by simp)
    exact hpool.merged_keeps htile hmove hsize (Nat.le_of_lt hmax) hset hx (by omega)
  · rw [if_neg hml] at hres
    by_cases hmr : MergesRight st c ptr L
    · -- the block above is unlinked
      rw [if_pos hmr] at hres
      obtain ⟨t, ht, hk, hcov⟩ := hright hml hmr
      obtain ⟨k, htile, hlen, hsum⟩ := h.block_above hu hle ht hk hcov
      have hmerge := hmr.2
      rw [hlen] at hres hmerge
      obtain ⟨st₁, hmove, hset⟩ := mergeData_merged hmerge hres
      rw [hsum] at hmerge hset
      obtain ⟨hsize, hmax⟩ := isMerge_slotSized (t := L + k) (by have := hs.pos; omega) hmerge
      have hfar := hx.apart htile (by simp)
      exact hpool.merged_keeps htile hmove hsize (Nat.le_of_lt hmax) hset hx (by omega)
    · rw [if_neg hmr, setBlock2FreeList_pushed _ ptr hs hle] at hres
      rw [← Option.some.inj hres]
      exact hpool.pushed_keeps hs.le hx hout

end Free

/-! ## §3. `ChunkAlloc` and `Refill`. -/

section Malloc

variable {st st' : RocketCoAlloctor} {T : Tiling Owner} {cur : Nat → List Nat}
  {lost : Nat → List (List Nat)} {L x : Nat}

/-- The rest of the region becomes a block of a free list. -/
theorem PoolInv.recycled_keeps (hp : PoolInv st T cur lost)
    (hle : st.endfree - st.startfree ≤ thirdSlot) (hrec : recycled st = some st') (hx : Spared T x) :
    st'.mem x = st.mem x := by
  unfold recycled at hrec
  split at hrec
  · next hpos =>
      obtain ⟨ht, hs⟩ := hp.unused_tile (by omega)
      have hpool : Pool st T := ⟨cur, lost, hp⟩
      have hset : useLeftover st (st.endfree - st.startfree) =
          some { pushed st st.startfree (st.endfree - st.startfree) with
            startfree := st.startfree + (st.endfree - st.startfree) } := by
        unfold useLeftover
        simp only [hs.dataAlignment_eq, Nat.sub_self, Nat.sub_zero]
        rw [useRemainingSpace_eq, setBlock2FreeList_pushed st st.startfree hs hle]
        rfl
      rw [hset] at hrec
      rw [← Option.some.inj hrec]
      exact hpool.pushed_keeps hs.le hx (hx.apart ht (by simp))
  · rw [← Option.some.inj hrec]

/-- The state in which `ChunkAlloc` calls itself has the memory the recycling left. -/
theorem nestedCall_mem {answer : Option Nat} {number : Nat}
    (h : nestedCall answer st L number = some st') :
    ∃ st₁, recycled st = some st₁ ∧ st'.mem = st₁.mem := by
  unfold nestedCall at h
  split at h
  · cases h
  · split at h
    · cases h
    · next st₁ hrec =>
        refine ⟨st₁, hrec, ?_⟩
        simp only at h
        split at h
        · split at h
          · split at h
            · cases h
            · rw [← Option.some.inj h]
              rfl
          · cases h
        · rw [← Option.some.inj h]
          rfl

/-- **`ChunkAlloc`** writes only where it recycles the rest of the region. -/
theorem chunkAlloc_mem {answer : Option Nat} {chunk k : Nat} (hs : SlotSized L) (hle : L ≤ thirdSlot)
    (h : chunkAlloc 2 (fun _ => answer) st L refillNumber = some (st', chunk, k)) :
    st'.mem = st.mem ∨
      (st.endfree - st.startfree ≤ L ∧ ∃ st₁, recycled st = some st₁ ∧ st'.mem = st₁.mem) := by
  cases hcall : nestedCall answer st L refillNumber with
  | none =>
      rw [chunkAlloc_not_nested hcall] at h
      unfold chunkAlloc at h
      simp only at h
      split at h
      · rw [← (Prod.mk.inj (Option.some.inj h)).1]
        exact Or.inl rfl
      · split at h
        · rw [← (Prod.mk.inj (Option.some.inj h)).1]
          exact Or.inl rfl
        · next hroom =>
            split at h
            · cases h
            · next st₁ hrec =>
                -- neither a chunk nor a longer block is to be had
                right
                refine ⟨by omega, st₁, hrec, ?_⟩
                split at h
                · split at h
                  · split at h
                    · cases h
                    · cases h
                  · rw [← (Prod.mk.inj (Option.some.inj h)).1]
                · cases h
  | some s =>
      -- the inner call has room
      obtain ⟨st₁, hrec, hmem⟩ := nestedCall_mem hcall
      obtain ⟨_, hroom⟩ := nestedCall_region hs hle hcall
      have hfull : st.endfree - st.startfree ≤ L := by
        unfold nestedCall at hcall
        split at hcall
        · cases hcall
        · next hno =>
            obtain ⟨_, hone⟩ := not_or.mp hno
            omega
      right
      refine ⟨hfull, st₁, hrec, ?_⟩
      rw [← hmem]
      rw [chunkAlloc_nested hcall] at h
      unfold chunkAlloc at h
      simp only [hroom, if_true] at h
      split at h
      · rw [← (Prod.mk.inj (Option.some.inj h)).1]
      · rw [← (Prod.mk.inj (Option.some.inj h)).1]

/-- The client holds the byte at `x`, or it lies outside every chunk of `ivs`. -/
def Private (T : Tiling Owner) (ivs : List (Nat × Nat)) (x : Nat) : Prop :=
  (∃ t ∈ users T, t.Covers x) ∨ ∀ iv, IsChunk ivs iv → x < iv.1 ∨ iv.2 ≤ x

theorem Private.spared {ivs : List (Nat × Nat)} (h : ChunkInv ivs T) (hx : Private T ivs x) :
    Spared T x := by
  intro t ht hcov
  rcases hx with ⟨u, ⟨hu, hk⟩, hcovu⟩ | hout
  · rw [T.eq_of_covers ht hu hcov hcovu]
    exact hk
  · obtain ⟨iv, hiv, hlo, hhi⟩ := h.within t ht
    obtain ⟨h1, h2⟩ := hcov
    have hfar := hout iv hiv
    omega

/-- More chunks, fewer addresses outside them. -/
theorem Private.mono {ivs ivs' : List (Nat × Nat)} (hsub : ivs ⊆ ivs') (hx : Private T ivs' x) :
    Private T ivs x := by
  rcases hx with hin | hout
  · exact Or.inl hin
  · right
    intro iv hiv
    exact hout iv ⟨hsub hiv.1, hiv.2⟩

/-- A block just handed out is none the client had. -/
theorem Private.fresh {T' : Tiling Owner} {ivs : List (Nat × Nat)} (h : ChunkInv ivs T')
    {chunk n : Nat} (hgr : Granted T T' chunk n) (hx : Private T ivs x) :
    x < chunk ∨ chunk + n ≤ x := by
  obtain ⟨hnot, husers⟩ := hgr
  have hnew : (⟨.user, chunk, n⟩ : Tile Owner) ∈ users T' := by
    rw [husers]
    exact Set.mem_insert _ _
  by_contra hin
  have hcov : (⟨.user, chunk, n⟩ : Tile Owner).Covers x := ⟨by simp only; omega, by simp only; omega⟩
  rcases hx with ⟨t, ht, hcovt⟩ | hout
  · have ht' : t ∈ users T' := by
      rw [husers]
      exact Set.mem_insert_of_mem _ ht
    have heq := T'.eq_of_covers ht'.1 hnew.1 hcovt hcov
    exact hnot (heq ▸ ht)
  · obtain ⟨iv, hiv, hlo, hhi⟩ := h.within _ hnew.1
    have hfar := hout iv hiv
    simp only at hlo hhi
    omega

/-- **`Refill`** writes besides into the run it got. -/
theorem PoolInv.refill_keeps (hp : PoolInv st T cur lost) (hs : SlotSized L) (hle : L ≤ thirdSlot)
    (h0 : st.freeList (findFreeListIndex L) = 0) {answer : Option Nat}
    (hfresh : ∀ a, answer = some a →
      FreshRegion st.pointerEffectiveInterval a (2 * (L * refillNumber)))
    (hfall : SafeFallback st L answer) {r : MallocResult}
    (hres : refill (fun _ => answer) st L = some (st', r)) :
    (r = .badAlloc → answer = none) ∧
      (Private T st'.pointerEffectiveInterval x → st'.mem x = st.mem x) := by
  obtain ⟨st₁, chunk, k, T₁, cur₁, hchunk, hp₁, _, _, hor⟩ :=
    hp.chunkAlloc_spec hs hle h0 hfresh hfall
  -- the run is still as `ChunkAlloc` left it
  have hrun : Private T st₁.pointerEffectiveInterval x → st₁.mem x = st.mem x := by
    intro hx
    have hspared : Spared T x := (hx.mono (chunkAlloc_pairs hchunk)).spared hp.chunks
    rcases chunkAlloc_mem hs hle hchunk with hmem | ⟨hshort, st₂, hrec, hmem⟩
    · rw [hmem]
    · rw [hmem]
      exact hp.recycled_keeps (by omega) hrec hspared
  unfold refill at hres
  rw [hchunk] at hres
  simp only at hres
  rcases hor with ⟨hc0, hnone, _⟩ | ⟨hpos, hk, hgr⟩
  · rw [if_pos hc0] at hres
    obtain ⟨hst, hr⟩ := Prod.mk.inj (Option.some.inj hres)
    refine ⟨fun _ => hnone, ?_⟩
    rw [← hst]
    exact hrun
  · rw [if_neg (by omega)] at hres
    by_cases h1 : k = 1
    · rw [if_pos h1] at hres
      obtain ⟨hst, hr⟩ := Prod.mk.inj (Option.some.inj hres)
      rw [← hst, ← hr]
      exact ⟨fun hbad => (by cases hbad), hrun⟩
    · obtain ⟨j, hj⟩ : ∃ j, k = j + 2 := ⟨k - 2, by omega⟩
      subst hj
      rw [if_neg h1, if_neg (Nat.not_le.mpr (findFreeListIndex_lt hs hle))] at hres
      obtain ⟨hst, hr⟩ := Prod.mk.inj (Option.some.inj hres)
      rw [← hst, ← hr]
      refine ⟨fun hbad => (by cases hbad), ?_⟩
      intro hx
      have hnew : (⟨.user, chunk, L * (j + 2)⟩ : Tile Owner) ∈ users T₁ := by
        rw [hgr.2]
        exact Set.mem_insert _ _
      have hbounds := hp₁.chunks.bounds hnew.1
      have hfar := hx.fresh hp₁.chunks hgr
      simp only [longMax] at hbounds
      unfold thirdSlot at hle
      obtain ⟨_, _, hag⟩ := refillMem_spec st₁.mem hs.le (by omega) (Eq.refl (findFreeListIndex L))
        (findFreeListIndex_lt hs hle) (c := chunk) (k := j) (by omega) rfl
      rw [← hrun hx]
      exact hag x 1 (by omega) x (Nat.le_refl x) (by omega)

/-- **`RocketCoMalloc`** writes into free blocks, the unused region and new chunks. -/
theorem PoolInv.malloc_keeps (hp : PoolInv st T cur lost) {n : Nat} (hn : 0 < n)
    (hle : n ≤ thirdSlot) {answer : Option Nat}
    (hfresh : ∀ a, answer = some a →
      FreshRegion st.pointerEffectiveInterval a (2 * (dataAlignment n * refillNumber)))
    (hfall : SafeFallback st (dataAlignment n) answer) {r : MallocResult}
    (hres : rocketCoMalloc (fun _ => answer) st n = some (st', r)) :
    (r = .badAlloc → answer = none) ∧
      (Private T st'.pointerEffectiveInterval x → st'.mem x = st.mem x) := by
  have hs := dataAlignment_slotSized hn hle
  have hmax := dataAlignment_le hle
  have hidx := findFreeListIndex_lt hs hmax
  unfold rocketCoMalloc at hres
  simp only [show ¬ thirdSlot < n by omega, Nat.not_le.mpr hidx, if_false] at hres
  generalize dataAlignment n = L at *
  by_cases h0 : st.freeList (findFreeListIndex L) = 0
  · rw [if_pos h0] at hres
    exact hp.refill_keeps hs hmax h0 hfresh hfall hres
  · -- the head of the list is unlinked
    rw [if_neg h0] at hres
    obtain ⟨hst, hr⟩ := Prod.mk.inj (Option.some.inj hres)
    rw [← hst, ← hr]
    refine ⟨fun hbad => (by cases hbad), ?_⟩
    intro hx
    have hpool : Pool st T := ⟨cur, lost, hp⟩
    obtain ⟨_, hii, ht, hprev⟩ := hpool.head_tile h0
    have hkeeps := hpool.unlinked_keeps ht (hx.spared hp.chunks)
    have hmem := congrArg RocketCoAlloctor.mem (unlinked_head st hii hprev)
    rw [hmem] at hkeeps
    unfold RocketCoAlloctor.mark
    dsimp only at hkeeps ⊢
    exact hkeeps

end Malloc

/-! ## §4. The client's heap. -/

/-- The heap is what the client sees of the pool. -/
structure Represents (H : Heap Owner (BitVec 8)) (c : Client) : Prop where
  blocks : ∀ t, t ∈ H.blocks.tiles ↔ ∃ b ∈ c.out, t = tileOf b
  foreign : ∀ x, x ∈ H.foreign ↔ Outside c x
  byte : H.byte = c.pool.mem

/-- The operation on the heap an action comes to.  An allocation fails only together with the
underlying `malloc`. -/
inductive Answers : Action → HeapOp Owner (BitVec 8) → Prop
  | alloc (n : Nat) (answer : Option Nat) (p : Nat) :
      Answers (.malloc n answer) (.alloc (tileOf (p, n)))
  | fail (n : Nat) : Answers (.malloc n none) .fail
  | free (p n : Nat) : Answers (.free p n) (.free (tileOf (p, n)))
  | write (a : Nat) (v : BitVec 8) : Answers (.write a v) (.write a v)

theorem represents_start (m : Mem) : Represents (Heap.bare m) (Client.start m) := by
  refine ⟨?_, ?_, rfl⟩
  · intro t
    constructor
    · intro ht
      exact ht.elim
    · rintro ⟨b, hb, _⟩
      cases hb
  · intro x
    refine iff_of_true trivial ?_
    intro iv hiv
    rw [List.mem_singleton.mp hiv]
    simp only
    omega

section Heap

variable {c c' : Client} {T : Tiling Owner} {x : Nat}

theorem Outside.private_of (hx : Outside c x) : Private T c.pool.pointerEffectiveInterval x := by
  right
  intro iv ⟨hiv, hpos, _⟩
  have hfar := hx iv hiv
  omega

/-- More chunks, fewer addresses outside them. -/
theorem Outside.mono (hsub : c.pool.pointerEffectiveInterval ⊆ c'.pool.pointerEffectiveInterval)
    (hx : Outside c' x) : Outside c x := fun iv hiv => hx iv (hsub hiv)

/-- A well-formed client has a heap: its blocks are disjoint and inside the chunks. -/
theorem ClientInv.heap (h : ClientInv c T) : ∃ H : Heap Owner (BitVec 8), Represents H c := by
  have hlive : ∀ t, t ∈ users T → t ∈ T.tiles := fun t ht => ht.1
  refine ⟨⟨⟨users T, fun t ht => T.pos t (hlive t ht), ?_⟩, {x | Outside c x}, ?_, c.pool.mem⟩,
    h.held, fun x => Iff.rfl, rfl⟩
  · intro t ht u hu hne
    exact T.apart t (hlive t ht) u (hlive u hu) hne
  · intro t ht x hcov hout
    obtain ⟨iv, ⟨hiv, hpos, _⟩, hlo, hhi⟩ := h.pool.chunkInv.within t (hlive t ht)
    obtain ⟨h1, h2⟩ := hcov
    have hfar := hout iv hiv
    omega

/-- A byte of a block the client holds. -/
theorem ClientInv.private_of (h : ClientInv c T) (ivs : List (Nat × Nat)) {b : Nat × Nat}
    (hb : b ∈ c.out) (hx : (tileOf b).Covers x) : Private T ivs x :=
  Or.inl ⟨tileOf b, (h.held _).mpr ⟨b, hb, rfl⟩, hx⟩

/-- A return leaves the other bytes of the client alone. -/
theorem ClientInv.free_keeps (h : ClientInv c T) {p n : Nat} (hb : (p, n) ∈ c.out)
    (hm : SafeMerge c (.free p n)) {st : RocketCoAlloctor} (hres : rocketCoFree c.pool p n = some st)
    (hx : Private T c.pool.pointerEffectiveInterval x)
    (hout : x < p ∨ p + dataAlignment n ≤ x) : st.mem x = c.pool.mem x := by
  obtain ⟨hn, hle⟩ := h.sizes _ hb
  have hsized : SlotSized (dataAlignment n) := dataAlignment_slotSized hn hle
  have hpos := hsized.pos
  obtain ⟨iv, hiv, hlo, hhi⟩ := h.pool.chunkInv.within _ (h.tile hb)
  simp only [tileOf] at hlo hhi
  have hfind := h.pool.chunkInv.findInterval_eq hiv hlo (by omega)
  obtain ⟨hleft, hright⟩ := hm iv (by rw [hfind]; rfl)
  refine h.pool.free_keeps rfl (h.tile hb) hsized (dataAlignment_le hle) hfind ?_ ?_ hres
    (hx.spared h.pool.chunkInv) hout
  · intro hml
    have hne : p ≠ iv.1 := by
      have hlook := hml.1
      unfold looksLeft at hlook
      simp only [Bool.and_eq_true, decide_eq_true_eq] at hlook
      exact hlook.1
    exact h.free_of_notInUse hiv (by omega) (by omega) (hleft hml)
  · intro hml hmr
    obtain ⟨hlt, hnot⟩ := hright hml hmr
    exact h.free_of_notInUse hiv (by omega) hlt hnot

/-- An allocation leaves the bytes of the client alone, and fails only with the underlying
`malloc`. -/
theorem ClientInv.malloc_keeps (h : ClientInv c T) {n : Nat} {answer : Option Nat}
    (ha : Allowed c (.malloc n answer)) (hf : SafeFallback c.pool (dataAlignment n) answer)
    {st : RocketCoAlloctor} {r : MallocResult}
    (hres : rocketCoMalloc (fun _ => answer) c.pool n = some (st, r)) :
    (r = .badAlloc → answer = none) ∧
      ∀ x, Private T st.pointerEffectiveInterval x → st.mem x = c.pool.mem x := by
  obtain ⟨hn, hle, hfresh⟩ := ha
  obtain ⟨cur, lost, hp⟩ := h.pool
  have hfresh' : ∀ a, answer = some a → FreshRegion c.pool.pointerEffectiveInterval a
      (2 * (dataAlignment n * refillNumber)) := by
    intro a heq
    exact hfresh a (by rw [heq]; rfl)
  have hall := fun x => hp.malloc_keeps (x := x) hn hle hfresh' hf hres
  exact ⟨(hall 0).1, fun x => (hall x).2⟩

/-- What the heap sees of an allocation, besides the blocks. -/
theorem ClientInv.heap_keeps (h : ClientInv c T) {H H' : Heap Owner (BitVec 8)}
    (hH : Represents H c) (hH' : Represents H' c')
    (hsub : c.pool.pointerEffectiveInterval ⊆ c'.pool.pointerEffectiveInterval)
    (hkeeps : ∀ x, Private T c'.pool.pointerEffectiveInterval x → c'.pool.mem x = c.pool.mem x) :
    H'.foreign ⊆ H.foreign ∧
      (∀ b ∈ H.blocks.tiles, b ∈ H'.blocks.tiles → ∀ x, b.Covers x → H'.byte x = H.byte x) ∧
      ∀ x ∈ H'.foreign, H'.byte x = H.byte x := by
  rw [hH.byte, hH'.byte]
  refine ⟨?_, ?_, ?_⟩
  · intro x hx
    exact (hH.foreign x).mpr (Outside.mono hsub ((hH'.foreign x).mp hx))
  · intro t ht _ x hcov
    obtain ⟨b, hb, heq⟩ := (hH.blocks t).mp ht
    rw [heq] at hcov
    exact hkeeps x (h.private_of _ hb hcov)
  · intro x hx
    exact hkeeps x (Outside.private_of ((hH'.foreign x).mp hx))

/-- **One action is one step of the heap.** -/
theorem ClientInv.heap_step (h : ClientInv c T) {T' : Tiling Owner} (h' : ClientInv c' T')
    {a : Action} (ha : Allowed c a) (hm : SafeMerge c a) (hu : SafeUnlink c a)
    (hstep : c.step a = some c') {H H' : Heap Owner (BitVec 8)} (hH : Represents H c)
    (hH' : Represents H' c') : ∃ op, H.Step op H' ∧ Answers a op := by
  cases Client.stepped hstep with
  | @malloc n answer st p hres =>
      obtain ⟨_, hkeeps⟩ := h.malloc_keeps ha hu hres
      obtain ⟨hforeign, hblock, hout⟩ :=
        h.heap_keeps hH hH' (rocketCoMalloc_pairs hres) hkeeps
      refine ⟨.alloc (tileOf (p, n)), ⟨?_, ?_, hforeign, hblock, hout⟩, .alloc n answer p⟩
      · -- no block of the client starts at `p`
        intro hin
        obtain ⟨b, hb, heq⟩ := (hH.blocks _).mp hin
        have hbase : p = b.1 := congrArg Tile.base heq
        have hnot := (List.nodup_cons.mp h'.nodup).1
        exact hnot (List.mem_map.mpr ⟨b, hb, hbase.symm⟩)
      · ext t
        show t ∈ H'.blocks.tiles ↔ t ∈ insert (tileOf (p, n)) H.blocks.tiles
        rw [hH'.blocks, Set.mem_insert_iff, hH.blocks]
        simp only [List.mem_cons]
        constructor
        · rintro ⟨b, hor, heq⟩
          rcases hor with hnew | hold
          · rw [hnew] at heq
            exact Or.inl heq
          · exact Or.inr ⟨b, hold, heq⟩
        · intro hor
          rcases hor with hnew | ⟨b, hold, heq⟩
          · exact ⟨(p, n), Or.inl rfl, hnew⟩
          · exact ⟨b, Or.inr hold, heq⟩
  | @badAlloc n answer st hres =>
      -- a refused malloc may still have moved free blocks, which the heap does not see
      obtain ⟨hnone, hkeeps⟩ := h.malloc_keeps ha hu hres
      obtain ⟨hforeign, hblock, hout⟩ :=
        h.heap_keeps hH hH' (rocketCoMalloc_pairs hres) hkeeps
      rw [hnone rfl]
      refine ⟨.fail, ⟨trivial, ?_, hforeign, hblock, hout⟩, .fail n⟩
      ext t
      show t ∈ H'.blocks.tiles ↔ t ∈ H.blocks.tiles
      rw [hH'.blocks, hH.blocks]
  | @free p n st hres =>
      have hb : (p, n) ∈ c.out := ha
      -- whatever is merged with the block, the client only loses this one
      have hlive : H'.blocks.tiles = H.blocks.tiles \ {tileOf (p, n)} := by
        ext t
        rw [hH'.blocks, Set.mem_sdiff, hH.blocks, Set.mem_singleton_iff]
        constructor
        · rintro ⟨d, hd, heq⟩
          obtain ⟨hin, hne⟩ := (h.erase_out hb d).mp hd
          exact ⟨⟨d, hin, heq⟩, heq ▸ hne⟩
        · rintro ⟨⟨d, hd, heq⟩, hne⟩
          exact ⟨d, (h.erase_out hb d).mpr ⟨hd, heq ▸ hne⟩, heq⟩
      refine ⟨.free (tileOf (p, n)), ⟨(hH.blocks _).mpr ⟨(p, n), hb, rfl⟩, hlive, ?_, ?_, ?_⟩,
        .free p n⟩
      · intro x hx
        rw [hH.foreign]
        refine Outside.mono ?_ ((hH'.foreign x).mp hx)
        rw [rocketCoFree_pairs hres]
        exact List.Subset.refl _
      · -- a block that stays is away from the one returned
        intro t ht ht' x hcov
        have hne : t ≠ tileOf (p, n) := by
          rw [hlive] at ht'
          exact ht'.2
        have hfar := H.blocks.apart t ht _ ((hH.blocks _).mpr ⟨(p, n), hb, rfl⟩) hne
        obtain ⟨b, hbo, heq⟩ := (hH.blocks t).mp ht
        obtain ⟨hlo, hhi⟩ := id hcov
        rw [heq] at hcov
        rw [hH.byte, hH'.byte]
        refine h.free_keeps hb hm hres (h.private_of _ hbo hcov) ?_
        simp only [Tile.Apart, tileOf] at hfar
        omega
      · intro x hx
        have hout : Outside c x := by
          refine Outside.mono ?_ ((hH'.foreign x).mp hx)
          rw [rocketCoFree_pairs hres]
          exact List.Subset.refl _
        obtain ⟨iv, ⟨hiv, hpos, _⟩, hlo, hhi⟩ := h.pool.chunkInv.within _ (h.tile hb)
        have hfar := hout iv hiv
        simp only [tileOf] at hlo hhi
        rw [hH.byte, hH'.byte]
        exact h.free_keeps hb hm hres (Outside.private_of hout) (by omega)
  | write y v =>
      -- one byte in the pool's memory and the same one in the heap
      have hbyte : ∀ x, H'.byte x = (HeapOp.write y v : HeapOp Owner (BitVec 8)).after x (H.byte x) := by
        intro x
        rw [hH.byte, hH'.byte]
        show (if x = y then v else c.pool.mem x) = if y = x then v else c.pool.mem x
        by_cases hy : y = x
        · rw [if_pos hy, if_pos hy.symm]
        · rw [if_neg hy, if_neg (Ne.symm hy)]
      refine ⟨.write y v, ⟨?_, ?_, ?_, fun t _ _ x _ => hbyte x, fun x _ => hbyte x⟩, .write y v⟩
      · rcases ha with ⟨b, hb, hlo, hhi⟩ | hout
        · exact Or.inl ⟨tileOf b, (hH.blocks _).mpr ⟨b, hb, rfl⟩, hlo, hhi⟩
        · exact Or.inr ((hH.foreign y).mpr hout)
      · ext t
        show t ∈ H'.blocks.tiles ↔ t ∈ H.blocks.tiles
        rw [hH'.blocks, hH.blocks]
      · intro x hx
        exact (hH.foreign x).mpr ((hH'.foreign x).mp hx)

end Heap

/-! ## §5. Whole runs. -/

/-- One step of a well-behaved client, with a safe merge or a safe fallback. -/
def Safely (c : Client) (a : Action) (c' : Client) : Prop :=
  Calls c a c' ∧ SafeMerge c a ∧ SafeUnlink c a

theorem safely_of_check {c : Client} {as : List Action} {p : Client → Bool}
    (h : checkRun Client.step (fun c a => decide (Allowed c a ∧ SafeMerge c a ∧ SafeUnlink c a)) c as
      p = true) : ∃ c', Run Safely c as c' ∧ p c' = true := by
  refine Run.of_check ?_ h
  intro c a c' hok hstep
  obtain ⟨h1, h2, h3⟩ := of_decide_eq_true hok
  exact ⟨⟨h1, hstep⟩, h2, h3⟩

theorem Safely.inv {c c' : Client} {T : Tiling Owner} {a : Action} (hs : Safely c a c')
    (h : ClientInv c T) : ∃ T', ClientInv c' T' := by
  obtain ⟨⟨ha, hstep⟩, hm, hu⟩ := hs
  refine h.step ha hm ?_ hstep
  intro n answer heq
  rw [heq] at hu
  exact hu

/-- **The pool simulates the heap**, from any well-formed state on. -/
theorem ClientInv.simulates {c d : Client} {as : List Action} (hrun : Run Safely c as d)
    {T : Tiling Owner} (h : ClientInv c T) {H : Heap Owner (BitVec 8)} (hH : Represents H c) :
    ∃ H' ops, Run Heap.Step H ops H' ∧ Represents H' d ∧ List.Forall₂ Answers as ops ∧
      ∃ T', ClientInv d T' := by
  induction hrun with
  | nil => exact ⟨H, [], .nil H, hH, .nil, T, h⟩
  | snoc _ hstep ih =>
      obtain ⟨K, ops, hops, hK, hans, U, hU⟩ := ih
      obtain ⟨U', hU'⟩ := hstep.inv hU
      obtain ⟨K', hK'⟩ := hU'.heap
      obtain ⟨⟨ha, hres⟩, hm, hu⟩ := hstep
      obtain ⟨op, hop, hanswer⟩ := hU.heap_step hU' ha hm hu hres hK hK'
      exact ⟨K', ops ++ [op], .snoc hops hop, hK',
        List.rel_append hans (.cons hanswer .nil), U', hU'⟩

/-- **Every safe run of the pool is a run of a heap**: the blocks handed out are new and disjoint, a block
leaves the client only when it is returned, and in between no byte of it changes but by a write. -/
theorem pool_refines_heap {m : Mem} {as : List Action} {c : Client}
    (h : Run Safely (Client.start m) as c) :
    ∃ H ops, Run Heap.Step (Heap.bare m) ops H ∧ Represents H c ∧ List.Forall₂ Answers as ops := by
  obtain ⟨H, ops, hops, hH, hans, _⟩ := (ClientInv.start m).simulates h (represents_start m)
  exact ⟨H, ops, hops, hH, hans⟩

/-- Three blocks, writes into two of them, a return that merges, and a block again. -/
def reuse : List Action :=
  [.malloc 512 (some 4096), .malloc 512 none, .malloc 512 none, .write 4100 7, .write 5200 9,
    .free 5120 512, .malloc 512 none]

theorem pool_refines_heap_reuse : ∃ c, Run Safely (Client.start fun _ => 0) reuse c ∧
    ∃ H ops, Run Heap.Step (Heap.bare fun _ => 0) ops H ∧ Represents H c ∧
      List.Forall₂ Answers reuse ops := by
  have hcheck : checkRun Client.step (fun c a => decide (Allowed c a ∧ SafeMerge c a ∧ SafeUnlink c a))
      (Client.start fun _ => 0) reuse (fun _ => true) = true := by
    decide +kernel
  obtain ⟨c, hrun, -⟩ := safely_of_check hcheck
  exact ⟨c, hrun, pool_refines_heap hrun⟩

/-- The byte at `x` after the writes among `as`, when it was `v`. -/
def written (x : Nat) (v : BitVec 8) (as : List Action) : BitVec 8 :=
  as.foldl (fun v a =>
    match a with
    | .write y w => if y = x then w else v
    | _ => v) v

theorem written_answers {as : List Action} {ops : List (HeapOp Owner (BitVec 8))}
    (h : List.Forall₂ Answers as ops) (x : Nat) (v : BitVec 8) :
    Heap.written x v ops = written x v as := by
  induction h generalizing v with
  | nil => rfl
  | cons ha _ ih =>
      cases ha with
      | alloc n answer p => exact ih v
      | fail n => exact ih v
      | free p n => exact ih v
      | write y w => exact ih _

/-- A block is taken back only when its address is returned. -/
theorem not_freed {as : List Action} {ops : List (HeapOp Owner (BitVec 8))}
    (h : List.Forall₂ Answers as ops) {b : Nat × Nat} (hb : ∀ k, Action.free b.1 k ∉ as) :
    HeapOp.free (tileOf b) ∉ ops := by
  induction h with
  | nil => exact List.not_mem_nil
  | cons ha _ ih =>
      intro hin
      rcases List.mem_cons.mp hin with heq | hrest
      · rw [← heq] at ha
        generalize ht : tileOf b = t at ha
        cases ha with
        | free p n =>
            have hbase : b.1 = p := congrArg Tile.base ht
            exact hb n (by rw [hbase]; exact List.mem_cons_self)
      · exact ih (fun k hk => hb k (List.mem_cons_of_mem _ hk)) hrest

/-- **What was written last is what is read.**  Between two states of a safe run, a byte of a block that
is not returned in between changes by the client's own writes only, and so does a byte outside all
chunks. -/
theorem contents_kept {m : Mem} {as bs : List Action} {c d : Client} {x : Nat}
    (h₁ : Run Safely (Client.start m) as c) (h₂ : Run Safely c bs d)
    (hx : (∃ b ∈ c.out, b.1 ≤ x ∧ x < b.1 + dataAlignment b.2 ∧ ∀ k, Action.free b.1 k ∉ bs) ∨
      Outside d x) : d.pool.mem x = written x (c.pool.mem x) bs := by
  obtain ⟨_, _, _, _, _, T, hT⟩ := (ClientInv.start m).simulates h₁ (represents_start m)
  obtain ⟨H, hH⟩ := hT.heap
  obtain ⟨K, ops, hops, hK, hans, _⟩ := hT.simulates h₂ hH
  rw [← hH.byte, ← hK.byte, ← written_answers hans]
  rcases hx with ⟨b, hb, hlo, hhi, hfree⟩ | hout
  · have hlive : tileOf b ∈ H.blocks.tiles := (hH.blocks _).mpr ⟨b, hb, rfl⟩
    exact (Heap.kept hops hlive ⟨hlo, hhi⟩ (not_freed hans hfree)).2
  · exact (Heap.kept_foreign hops ((hK.foreign x).mpr hout)).2

/-- A byte written into the first block is still there after the third one was returned, merged
with the free block above it, and a block handed out again. -/
theorem contents_kept_reuse : ∃ c d, Run Safely (Client.start fun _ => 0)
    [.malloc 512 (some 4096), .malloc 512 none, .malloc 512 none, .write 4100 7] c ∧
    Run Safely c [.free 5120 512, .malloc 512 none, .write 4700 9] d ∧ d.pool.mem 4100 = 7 := by
  have hcheck : checkRun Client.step (fun c a => decide (Allowed c a ∧ SafeMerge c a ∧ SafeUnlink c a))
      (Client.start fun _ => 0)
      [.malloc 512 (some 4096), .malloc 512 none, .malloc 512 none, .write 4100 7]
      (fun c => checkRun Client.step
        (fun c a => decide (Allowed c a ∧ SafeMerge c a ∧ SafeUnlink c a)) c
        [.free 5120 512, .malloc 512 none, .write 4700 9] (fun _ => true) &&
        decide ((4096, 512) ∈ c.out) && c.pool.mem 4100 == 7) = true := by
    decide +kernel
  obtain ⟨c, h₁, hc⟩ := safely_of_check hcheck
  simp only [Bool.and_eq_true, beq_iff_eq, decide_eq_true_eq] at hc
  obtain ⟨⟨hagain, hin⟩, hbyte⟩ := hc
  obtain ⟨d, h₂, -⟩ := safely_of_check hagain
  have hfree : ∀ k, Action.free 4096 k ∉ [.free 5120 512, .malloc 512 none, .write 4700 9] := by
    intro k
    simp
  refine ⟨c, d, h₁, h₂, ?_⟩
  rw [contents_kept h₁ h₂ (Or.inl ⟨(4096, 512), hin, by decide, by decide, hfree⟩), hbyte]
  rfl

end RocketCo.MemoryPool
