/-
  RocketCo.MemoryPool.Surgery — the two edits of the free lists, and what they keep.

  `SetBlock2FreeList` and `UseRemainingSpace` push a block in front of a list; `MoveToFreeList`
  and the fast path of `RocketCoMalloc` take one out.  Both are described by their stores
  (`pushMem`, `unlinkMem`): what the edited fields read afterwards, and that everything else is
  unchanged.  `ListInv.push` and `ListInv.unlink` carry the invariant across.
-/
import RocketCo.MemoryPool.Layout

namespace RocketCo.MemoryPool

open RocketCo.Lib

/-! ## §1. Pushing a block. -/

/-- The stores that put the block `[p, p + L)` in front of a list headed by `head`. -/
def pushMem (m : Mem) (p head index L : Nat) : Mem :=
  let m := setNext (setPrev m p 0) p head
  let m := if head ≠ 0 then setPrev m head p else m
  let m := setItemLength (setSlot m p index) p L
  markBlock m p L

/-- `SetBlock2FreeList`, in one equation. -/
theorem setBlock2FreeList_eq (st : RocketCoAlloctor) (p : Nat) {L : Nat}
    (h : findFreeListIndex L < slotCount) :
    setBlock2FreeList st p L =
      some { st.setFreeList (findFreeListIndex L) p with
        mem := pushMem st.mem p (st.freeList (findFreeListIndex L)) (findFreeListIndex L) L } := by
  unfold setBlock2FreeList
  rw [if_neg (by omega)]
  rfl

/-- `UseRemainingSpace` is `SetBlock2FreeList` at the start of the unused region. -/
theorem useRemainingSpace_eq (st : RocketCoAlloctor) (L : Nat) :
    useRemainingSpace st (findFreeListIndex L) L = setBlock2FreeList st st.startfree L := rfl

section Push

variable (m : Mem) {p head index L : Nat}

/-- A push writes to its own block and to the link of the old head. -/
theorem pushMem_agree (hL : 512 ≤ L) {b n : Nat} (hblock : b + n ≤ p ∨ p + L ≤ b)
    (hhead : head ≠ 0 → b + n ≤ head ∨ head + 8 ≤ b) :
    AgreeOn m (pushMem m p head index L) b n := by
  intro x hlo hhi
  unfold pushMem markBlock setItemLength setSlot setNext setPrev nodeSize
  by_cases h0 : head = 0
  · simp (disch := omega) only [h0, ne_eq, not_true_eq_false, ↓reduceIte, store_outside]
  · have := hhead h0
    simp (disch := omega) only [h0, ne_eq, not_false_eq_true, ↓reduceIte, store_outside]

/-- Both links of the pushed block. -/
theorem pushMem_links (hL : 512 ≤ L) (hh : head < 256 ^ 8)
    (hap : head ≠ 0 → head + 8 ≤ p ∨ p + L ≤ head) :
    prevOf (pushMem m p head index L) p = 0 ∧ nextOf (pushMem m p head index L) p = head := by
  unfold pushMem markBlock setItemLength setSlot setNext setPrev nodeSize prevOf nextOf
  by_cases h0 : head = 0
  · constructor <;>
      simp (disch := omega) only [h0, ne_eq, not_true_eq_false, ↓reduceIte, load_store_disjoint,
        load_store_fits]
  · have := hap h0
    constructor <;>
      simp (disch := omega) only [h0, ne_eq, not_false_eq_true, ↓reduceIte, load_store_disjoint,
        load_store_fits]

/-- The old head points back to the pushed block. -/
theorem pushMem_head (hL : 512 ≤ L) (hp : p < 256 ^ 8) (h0 : head ≠ 0)
    (hap : head + 8 ≤ p ∨ p + L ≤ head) : prevOf (pushMem m p head index L) head = p := by
  unfold pushMem markBlock setItemLength setSlot setNext setPrev nodeSize prevOf
  simp (disch := omega) only [h0, ne_eq, not_false_eq_true, ↓reduceIte, load_store_disjoint,
    load_store_fits]

/-- Slot and both lengths of the pushed block. -/
theorem pushMem_node (hL : 512 ≤ L) (hLmax : L < 2 ^ 31) (hidx : findFreeListIndex L < 256 ^ 8) :
    NodeOk (pushMem m p head (findFreeListIndex L) L) p L := by
  unfold pushMem markBlock nodeSize
  refine ⟨?_, ?_, ?_⟩
  · unfold setItemLength setSlot slotOf
    simp (disch := omega) only [load_store_disjoint, load_store_fits]
  · -- the length at the end of the block is stored after the one at its start
    have hag : ∀ m₁ : Mem, AgreeOn m₁ (setItemLength m₁ (p + (L - 32)) L) (p + 24) 4 := by
      intro m₁
      exact agreeOn_store m₁ L (by omega)
    rw [itemLengthOf_congr (hag _), itemLengthOf_set _ _ hLmax]
  · unfold nodeSize
    exact itemLengthOf_set _ _ hLmax

end Push

/-! ## §2. Unlinking a block. -/

/-- The stores that join the neighbours `prev` and `next` of an unlinked block. -/
def unlinkMem (m : Mem) (prev next : Nat) : Mem :=
  let m := if prev ≠ 0 then setNext m prev next else m
  if next ≠ 0 then setPrev m next prev else m

section Unlink

variable (m : Mem) {prev next : Nat}

/-- An unlinking writes to the links of the two neighbours. -/
theorem unlinkMem_agree {b n : Nat} (hprev : prev ≠ 0 → b + n ≤ prev + 8 ∨ prev + 16 ≤ b)
    (hnext : next ≠ 0 → b + n ≤ next ∨ next + 8 ≤ b) : AgreeOn m (unlinkMem m prev next) b n := by
  intro x hlo hhi
  unfold unlinkMem setNext setPrev
  by_cases hp : prev = 0
  · by_cases hn : next = 0
    · simp only [hp, hn, ne_eq, not_true_eq_false, ↓reduceIte]
    · have := hnext hn
      simp (disch := omega) only [hp, hn, ne_eq, not_true_eq_false, not_false_eq_true, ↓reduceIte,
        store_outside]
  · have := hprev hp
    by_cases hn : next = 0
    · simp (disch := omega) only [hp, hn, ne_eq, not_true_eq_false, not_false_eq_true, ↓reduceIte,
        store_outside]
    · have := hnext hn
      simp (disch := omega) only [hp, hn, ne_eq, not_false_eq_true, ↓reduceIte, store_outside]

/-- The lower neighbour now points to the upper one. -/
theorem unlinkMem_prev (hp : prev ≠ 0) (hn : next < 256 ^ 8)
    (hap : next ≠ 0 → next ≤ prev ∨ prev + 16 ≤ next) : nextOf (unlinkMem m prev next) prev = next := by
  unfold unlinkMem setNext setPrev nextOf
  by_cases h0 : next = 0
  · subst h0
    simp (disch := omega) only [hp, ne_eq, not_true_eq_false, not_false_eq_true, ↓reduceIte,
      load_store_fits]
  · have := hap h0
    simp (disch := omega) only [hp, h0, ne_eq, not_false_eq_true, ↓reduceIte, load_store_disjoint,
      load_store_fits]

/-- The upper neighbour now points back to the lower one. -/
theorem unlinkMem_next (h0 : next ≠ 0) (hp : prev < 256 ^ 8) :
    prevOf (unlinkMem m prev next) next = prev := by
  unfold unlinkMem setPrev prevOf
  simp (disch := omega) only [h0, ne_eq, not_false_eq_true, ↓reduceIte, load_store_fits]

end Unlink

/-- What `MoveToFreeList` does when the block is not the tail of a longer list. -/
theorem moveToFreeList_eq (st : RocketCoAlloctor) {a L : Nat}
    (hidx : findFreeListIndex L < slotCount)
    (htail : prevOf st.mem a ≠ 0 → nextOf st.mem a ≠ 0)
    (hap : prevOf st.mem a ≠ 0 → prevOf st.mem a + 16 ≤ a ∨ a + 16 ≤ prevOf st.mem a) :
    moveToFreeList st a L =
      some { (if prevOf st.mem a = 0 then st.setFreeList (findFreeListIndex L) (nextOf st.mem a)
          else st) with mem := unlinkMem st.mem (prevOf st.mem a) (nextOf st.mem a) } := by
  unfold moveToFreeList unlinkMem
  by_cases h0 : prevOf st.mem a = 0
  · simp only [h0, ↓reduceIte, ne_eq, not_true_eq_false]
    rw [if_neg (by omega)]
  · have hnext := htail h0
    have hfar := hap h0
    -- the store into the lower neighbour does not touch the block's own links
    have hagree : AgreeOn st.mem (setNext st.mem (prevOf st.mem a) (nextOf st.mem a)) a 16 :=
      agreeOn_store _ _ (by omega)
    have hprev' : prevOf (setNext st.mem (prevOf st.mem a) (nextOf st.mem a)) a =
        prevOf st.mem a := load_congr (hagree.mono (Nat.le_refl a) (by omega))
    have hnext' : nextOf (setNext st.mem (prevOf st.mem a) (nextOf st.mem a)) a =
        nextOf st.mem a := load_congr (hagree.mono (by omega) (by omega))
    simp only [h0, hnext, hprev', hnext', ↓reduceIte, ne_eq, not_false_eq_true]

/-! ## §3. Edits that touch two links only. -/

section ListInv

variable {freeList : Nat → Nat} {m m' : Mem} {T : Tiling Owner} {cur : Nat → List Nat}
  {lost : Nat → List (List Nat)}

/-- On the free blocks of `T`, the two memories differ at most in the back link of `np` and in the
forward link of `nn`. -/
def OnlyLinks (m m' : Mem) (T : Tiling Owner) (np nn : Nat) : Prop :=
  ∀ t ∈ T.tiles, t.kind = .free → 512 ≤ t.len →
    (t.base ≠ np → prevOf m' t.base = prevOf m t.base) ∧
    (t.base ≠ nn → nextOf m' t.base = nextOf m t.base) ∧
    (NodeOk m t.base t.len → NodeOk m' t.base t.len)

/-- A block's own bytes away from the links are its slot and its two lengths. -/
theorem NodeOk.of_fields {a L : Nat} (h : NodeOk m a L) (hL : 512 ≤ L)
    (hag : AgreeOn m m' (a + 16) (L - 16)) : NodeOk m' a L := by
  refine h.congr (hag.mono (Nat.le_refl _) (by omega)) ?_
  unfold nodeSize
  exact hag.mono (by omega) (by omega)

/-- So nothing but links of free blocks changes, whether a block is pushed ... -/
theorem onlyLinks_push (m : Mem) {p head index L : Nat} (hL : 512 ≤ L)
    (ht : ⟨.user, p, L⟩ ∈ T.tiles)
    (hhead : head ≠ 0 → ∃ k, ⟨.free, head, k⟩ ∈ T.tiles ∧ 512 ≤ k) :
    OnlyLinks m (pushMem m p head index L) T head 0 := by
  intro t htt hk hlen
  have hfar : t.base + t.len ≤ p ∨ p + L ≤ t.base := by
    refine T.apart t htt _ ht ?_
    intro heq
    rw [heq] at hk
    simp at hk
  -- the old head is this block or disjoint from it
  have hheadfar : head ≠ 0 → t.base = head ∨ t.base + t.len ≤ head ∨ head + 8 ≤ t.base := by
    intro h0
    obtain ⟨k, hmem, hk512⟩ := hhead h0
    by_cases heq : t.base = head
    · exact Or.inl heq
    · right
      have hap := T.apart t htt _ hmem (fun h => heq (congrArg Tile.base h))
      simp only [Tile.Apart] at hap
      omega
  refine ⟨?_, ?_, ?_⟩
  · intro hne
    refine load_congr (pushMem_agree m hL (by omega) ?_)
    intro h0
    have := hheadfar h0
    omega
  · intro _
    refine load_congr (pushMem_agree m hL (by omega) ?_)
    intro h0
    have := hheadfar h0
    omega
  · intro hok
    refine hok.of_fields hlen (pushMem_agree m hL (by omega) ?_)
    intro h0
    have := hheadfar h0
    omega

/-- ... or unlinked. -/
theorem onlyLinks_unlink (m : Mem) {prev next : Nat}
    (hprev : prev ≠ 0 → ∃ k, ⟨.free, prev, k⟩ ∈ T.tiles ∧ 512 ≤ k)
    (hnext : next ≠ 0 → ∃ k, ⟨.free, next, k⟩ ∈ T.tiles ∧ 512 ≤ k) :
    OnlyLinks m (unlinkMem m prev next) T next prev := by
  intro t htt hk hlen
  have hfar : ∀ q, (q ≠ 0 → ∃ k, ⟨.free, q, k⟩ ∈ T.tiles ∧ 512 ≤ k) → q ≠ 0 →
      t.base = q ∨ t.base + t.len ≤ q ∨ q + 16 ≤ t.base := by
    intro q hq h0
    obtain ⟨k, hmem, hk512⟩ := hq h0
    by_cases heq : t.base = q
    · exact Or.inl heq
    · right
      have hap := T.apart t htt _ hmem (fun h => heq (congrArg Tile.base h))
      simp only [Tile.Apart] at hap
      omega
  have hp := hfar prev hprev
  have hn := hfar next hnext
  refine ⟨?_, ?_, ?_⟩
  · intro hne
    refine load_congr (unlinkMem_agree m ?_ ?_)
    · intro h0
      have := hp h0
      omega
    · intro h0
      have := hn h0
      omega
  · intro hne
    refine load_congr (unlinkMem_agree m ?_ ?_)
    · intro h0
      have := hp h0
      omega
    · intro h0
      have := hn h0
      omega
  · intro hok
    refine hok.of_fields hlen (unlinkMem_agree m ?_ ?_)
    · intro h0
      have := hp h0
      omega
    · intro h0
      have := hn h0
      omega

/-- A chain that holds neither of the two edited nodes is still a chain. -/
theorem ListInv.chain_keep (h : ListInv freeList m T cur lost) {np nn : Nat}
    (he : OnlyLinks m m' T np nn) {j : Nat} {l : List Nat} (hl : ∀ b ∈ l, b ∈ nodes cur lost j)
    (hp : np ∉ l) (hn : nn ∉ l) (hc : Chain m l) : Chain m' l := by
  refine hc.congr ?_
  intro b hb
  obtain ⟨h1, h2, _⟩ := he _ (h.node_tile (hl b hb)) rfl (h.node_le (hl b hb))
  exact ⟨h1 fun heq => hp (heq ▸ hb), h2 fun heq => hn (heq ▸ hb)⟩

/-- A node of a current chain is on no other current chain. -/
theorem ListInv.not_mem_cur (h : ListInv freeList m T cur lost) {i j a : Nat}
    (ha : a ∈ nodes cur lost i) (hj : j ≠ i) : a ∉ cur j :=
  fun hb => hj (h.node_unique (cur_sub hb) ha)

/-- A node of a current chain is on no dropped chain. -/
theorem ListInv.not_mem_lost (h : ListInv freeList m T cur lost) {i j a : Nat} {l : List Nat}
    (ha : a ∈ cur i) (hl : l ∈ lost j) : a ∉ l := by
  intro hb
  have hij : i = j := h.node_unique (cur_sub ha) (lost_sub hl hb)
  rw [hij] at ha
  exact (List.nodup_append.mp (h.nodup j)).2.2 a ha a (List.mem_flatten.mpr ⟨l, hl, hb⟩) rfl

/-- Zero is not a node. -/
theorem ListInv.zero_not_mem (h : ListInv freeList m T cur lost) {j : Nat} {l : List Nat}
    (hl : ∀ b ∈ l, b ∈ nodes cur lost j) : 0 ∉ l :=
  fun h0 => absurd (h.node_pos (hl 0 h0)) (Nat.lt_irrefl 0)

/-! ## §4. The lists after a push. -/

/-- The chains after a change of list `i`. -/
def setChain (cur : Nat → List Nat) (i : Nat) (l : List Nat) : Nat → List Nat :=
  fun j => if j = i then l else cur j

@[simp] theorem setChain_same (cur : Nat → List Nat) (i : Nat) (l : List Nat) :
    setChain cur i l i = l := by
  simp [setChain]

theorem setChain_other (cur : Nat → List Nat) {i j : Nat} (l : List Nat) (h : j ≠ i) :
    setChain cur i l j = cur j := by
  simp [setChain, h]

/-- The nodes of a list after its current chain gained a node. -/
theorem nodes_setChain_cons (cur : Nat → List Nat) (lost : Nat → List (List Nat)) (i p : Nat) :
    nodes (setChain cur i (p :: cur i)) lost i = p :: nodes cur lost i := by
  unfold nodes
  rw [setChain_same]
  rfl

theorem nodes_setChain_other (cur : Nat → List Nat) (lost : Nat → List (List Nat)) {i j : Nat}
    (l : List Nat) (h : j ≠ i) : nodes (setChain cur i l) lost j = nodes cur lost j := by
  unfold nodes
  rw [setChain_other cur l h]

theorem mem_nodes_setChain_cons {cur : Nat → List Nat} {lost : Nat → List (List Nat)}
    {i j p a : Nat} : a ∈ nodes (setChain cur i (p :: cur i)) lost j ↔
      (j = i ∧ a = p) ∨ a ∈ nodes cur lost j := by
  by_cases hj : j = i
  · rw [hj, nodes_setChain_cons]
    simp
  · rw [nodes_setChain_other cur lost _ hj]
    simp [hj]

/-- A user block is away from every node. -/
theorem ListInv.user_apart (h : ListInv freeList m T cur lost) {p L : Nat}
    (ht : ⟨.user, p, L⟩ ∈ T.tiles) {j b : Nat} (hb : b ∈ nodes cur lost j) :
    b + slotLength j ≤ p ∨ p + L ≤ b := by
  refine T.apart _ (h.node_tile hb) _ ht ?_
  intro heq
  exact absurd (congrArg Tile.kind heq) (by simp)

theorem ListInv.user_not_node (h : ListInv freeList m T cur lost) {p L : Nat}
    (ht : ⟨.user, p, L⟩ ∈ T.tiles) (j : Nat) : p ∉ nodes cur lost j := by
  intro hp
  have hf := h.user_apart ht hp
  have hn := h.node_le hp
  have hL := T.pos _ ht
  simp only at hL
  omega

/-- The head of a list, when there is one, is a free block. -/
theorem ListInv.head_tile (h : ListInv freeList m T cur lost) {i : Nat} (h0 : freeList i ≠ 0) :
    ∃ k, ⟨.free, freeList i, k⟩ ∈ T.tiles ∧ 512 ≤ k := by
  obtain ⟨l, hl⟩ := h.cur_of_head h0
  have hmem : freeList i ∈ nodes cur lost i := cur_sub (by rw [hl]; exact List.mem_cons_self)
  exact ⟨slotLength i, h.node_tile hmem, h.node_le hmem⟩

theorem ListInv.head_lt (h : ListInv freeList m T cur lost) (i : Nat) :
    freeList i < 256 ^ 8 := by
  by_cases h0 : freeList i = 0
  · omega
  · obtain ⟨l, hl⟩ := h.cur_of_head h0
    exact h.node_lt (i := i) (cur_sub (by rw [hl]; exact List.mem_cons_self))

/-- The pushed block and the old chain form the new chain. -/
theorem ListInv.push_chain (h : ListInv freeList m T cur lost) {p L i : Nat}
    (ht : ⟨.user, p, L⟩ ∈ T.tiles) (hL : 512 ≤ L) :
    Chain (pushMem m p (freeList i) i L) (p :: cur i) := by
  have hpb := h.bounds _ ht
  simp only [longMax] at hpb
  have hapart : freeList i ≠ 0 → freeList i + 8 ≤ p ∨ p + L ≤ freeList i := by
    intro h0
    obtain ⟨l, hl⟩ := h.cur_of_head h0
    have hmem : freeList i ∈ nodes cur lost i := cur_sub (by rw [hl]; exact List.mem_cons_self)
    have hf := h.user_apart ht hmem
    have hn := h.node_le hmem
    omega
  have hlinks : prevOf (pushMem m p (freeList i) i L) p = 0 ∧
      nextOf (pushMem m p (freeList i) i L) p = freeList i :=
    pushMem_links m hL (h.head_lt i) hapart
  obtain ⟨hp0, hn0⟩ := hlinks
  have he : OnlyLinks m (pushMem m p (freeList i) i L) T (freeList i) 0 :=
    onlyLinks_push m hL ht h.head_tile
  -- of the old chain only the back link of its head changes
  have hold : ∀ b ∈ cur i, (b ≠ freeList i →
      prevOf (pushMem m p (freeList i) i L) b = prevOf m b) ∧
      nextOf (pushMem m p (freeList i) i L) b = nextOf m b := by
    intro b hb
    have hbn : b ∈ nodes cur lost i := cur_sub hb
    obtain ⟨h1, h2, _⟩ := he _ (h.node_tile hbn) rfl (h.node_le hbn)
    exact ⟨h1, h2 (Nat.pos_iff_ne_zero.mp (h.node_pos hbn))⟩
  have hnd : (p :: cur i).Nodup :=
    List.nodup_cons.mpr
      ⟨fun hp => h.user_not_node ht i (cur_sub hp), (List.nodup_append.mp (h.nodup i)).1⟩
  have hhead : ∀ b, (cur i).head? = some b → freeList i = b := by
    intro b hb
    rw [h.head i]
    cases hc : cur i with
    | nil =>
        rw [hc] at hb
        simp at hb
    | cons a l =>
        rw [hc] at hb
        simpa using hb
  refine seg_push (h.chain i) hnd hp0 ?_ ?_ ?_ fun b hb => (hold b hb).2
  · rw [hn0, h.head i, List.map_id]
  · intro b hb
    have hbi : freeList i = b := hhead b hb
    have hbpos := h.node_pos (i := i) (cur_sub (List.mem_of_mem_head? hb))
    rw [← hbi] at hbpos ⊢
    exact pushMem_head m hL (by omega) (Nat.pos_iff_ne_zero.mp hbpos)
      (hapart (Nat.pos_iff_ne_zero.mp hbpos))
  · intro b hb hne
    refine (hold b hb).1 ?_
    intro hbf
    refine hne ?_
    obtain ⟨l, hl⟩ := h.cur_of_head (i := i)
      (hbf ▸ Nat.pos_iff_ne_zero.mp (h.node_pos (i := i) (cur_sub hb)))
    rw [hl, hbf]
    rfl

/-- **Pushing a block keeps the lists.**  The block was a user tile and becomes a free one. -/
theorem ListInv.push (h : ListInv freeList m T cur lost) {p L i : Nat}
    (ht : ⟨.user, p, L⟩ ∈ T.tiles) (hs : SlotSized L) (hle : L ≤ thirdSlot)
    (hi : findFreeListIndex L = i) :
    ListInv (fun j => if j = i then p else freeList j) (pushMem m p (freeList i) i L)
      (T.relabel ⟨.user, p, L⟩ ht .free) (setChain cur i (p :: cur i)) lost := by
  have hilt : i < slotCount := hi ▸ findFreeListIndex_lt hs hle
  have hLi : slotLength i = L := hi ▸ slotLength_findFreeListIndex hs hle
  have hL := hs.le
  have he : OnlyLinks m (pushMem m p (freeList i) i L) T (freeList i) 0 :=
    onlyLinks_push m hL ht h.head_tile
  -- the push writes into the old head besides: on every other list that is no node
  have hhead : ∀ j, ∀ l : List Nat, (∀ b ∈ l, b ∈ nodes cur lost j) →
      (freeList i ≠ 0 → freeList i ∉ l) → freeList i ∉ l := by
    intro j l hl hne
    by_cases h0 : freeList i = 0
    · rw [h0]
      exact h.zero_not_mem hl
    · exact hne h0
  have hcur : freeList i ≠ 0 → freeList i ∈ cur i := by
    intro h0
    obtain ⟨l, hl⟩ := h.cur_of_head h0
    rw [hl]
    exact List.mem_cons_self
  refine ⟨?_, ?_, ?_, ?_, ?_, ?_, ?_⟩
  · -- head
    intro j
    by_cases hj : j = i
    · simp [hj]
    · rw [setChain_other cur _ hj]
      simp only [hj, ↓reduceIte]
      exact h.head j
  · -- current chains
    intro j
    by_cases hj : j = i
    · rw [hj, setChain_same]
      exact h.push_chain ht hL
    · rw [setChain_other cur _ hj]
      have hsub : ∀ b ∈ cur j, b ∈ nodes cur lost j := fun b hb => cur_sub hb
      refine h.chain_keep he hsub ?_ (h.zero_not_mem hsub) (h.chain j)
      exact hhead j _ hsub fun h0 => h.not_mem_cur (cur_sub (hcur h0)) hj
  · -- dropped chains
    intro j l hl
    have hsub : ∀ b ∈ l, b ∈ nodes cur lost j := fun b hb => lost_sub hl hb
    refine h.chain_keep he hsub ?_ (h.zero_not_mem hsub) (h.lost_chain j l hl)
    exact hhead j _ hsub fun h0 => h.not_mem_lost (hcur h0) hl
  · -- no node twice
    intro j
    by_cases hj : j = i
    · rw [hj, nodes_setChain_cons]
      exact List.nodup_cons.mpr ⟨h.user_not_node ht i, h.nodup i⟩
    · rw [nodes_setChain_other cur lost _ hj]
      exact h.nodup j
  · -- nodes are free tiles
    intro j a ha
    rcases mem_nodes_setChain_cons.mp ha with ⟨hj, hap⟩ | ha
    · rw [hj, hap, hLi]
      exact ⟨hilt, hi, Or.inr rfl⟩
    · obtain ⟨h1, h2, h3⟩ := h.node j a ha
      refine ⟨h1, h2, Or.inl ⟨h3, ?_⟩⟩
      intro heq
      exact absurd (congrArg Tile.kind heq) (by simp)
  · -- free tiles are nodes
    intro t htt hk
    rcases Tiling.mem_relabel.mp htt with ⟨hold, _⟩ | hnew
    · obtain ⟨h1, h2, h3, h4⟩ := h.free t hold hk
      obtain ⟨_, _, hok⟩ := he t hold hk h1.le
      exact ⟨h1, h2, mem_nodes_setChain_cons.mpr (Or.inr h3), hok h4⟩
    · rw [hnew]
      refine ⟨hs, hle, mem_nodes_setChain_cons.mpr (Or.inl ⟨hi, rfl⟩), ?_⟩
      rw [← hi]
      refine pushMem_node m hL ?_ ?_
      · unfold thirdSlot at hle
        omega
      · rw [hi]
        unfold slotCount at hilt
        omega
  · -- bounds
    intro t htt
    rcases Tiling.mem_relabel.mp htt with ⟨hold, _⟩ | hnew
    · exact h.bounds t hold
    · rw [hnew]
      exact h.bounds ⟨.user, p, L⟩ ht

/-! ## §5. The lists after an unlink. -/

section Neighbours

variable {i a : Nat} {l₁ l₂ : List Nat}

/-- The back link of a block in a chain is the block in front of it ... -/
theorem prevOf_of_getLast? {b : Nat} (hc : Chain m (l₁ ++ a :: l₂)) (hb : l₁.getLast? = some b) :
    prevOf m a = b := by
  rw [hc.prev_eq, lastLink_eq, hb]
  rfl

theorem getLast?_of_prevOf (hc : Chain m (l₁ ++ a :: l₂)) (h0 : prevOf m a ≠ 0) :
    l₁.getLast? = some (prevOf m a) := by
  cases hl : l₁.getLast? with
  | none =>
      rw [hc.prev_eq, lastLink_eq, hl] at h0
      exact absurd rfl h0
  | some b => rw [prevOf_of_getLast? hc hl]

/-- ... and its forward link the block behind it. -/
theorem nextOf_of_head? {b : Nat} (hc : Chain m (l₁ ++ a :: l₂)) (hb : l₂.head? = some b) :
    nextOf m a = b := by
  rw [hc.next_eq, headD_map_eq, hb]
  rfl

theorem head?_of_nextOf (hc : Chain m (l₁ ++ a :: l₂)) (h0 : nextOf m a ≠ 0) :
    l₂.head? = some (nextOf m a) := by
  cases hl : l₂.head? with
  | none =>
      rw [hc.next_eq, headD_map_eq, hl] at h0
      exact absurd rfl h0
  | some b => rw [nextOf_of_head? hc hl]

theorem prevOf_mem (hc : Chain m (l₁ ++ a :: l₂)) (h0 : prevOf m a ≠ 0) :
    prevOf m a ∈ l₁ ++ l₂ :=
  List.mem_append_left _ (List.mem_of_mem_getLast? (getLast?_of_prevOf hc h0))

theorem nextOf_mem (hc : Chain m (l₁ ++ a :: l₂)) (h0 : nextOf m a ≠ 0) :
    nextOf m a ∈ l₁ ++ l₂ :=
  List.mem_append_right _ (List.mem_of_mem_head? (head?_of_nextOf hc h0))

/-- What an unlink writes: a link of each of the two neighbours. -/
theorem ListInv.unlink_links (h : ListInv freeList m T cur lost) (hc : Chain m (l₁ ++ a :: l₂))
    (hsub : ∀ b ∈ l₁ ++ l₂, b ∈ nodes cur lost i) :
    OnlyLinks m (unlinkMem m (prevOf m a) (nextOf m a)) T (nextOf m a) (prevOf m a) := by
  have htile : ∀ b, b ∈ l₁ ++ l₂ → ∃ k, ⟨.free, b, k⟩ ∈ T.tiles ∧ 512 ≤ k := by
    intro b hb
    exact ⟨slotLength i, h.node_tile (hsub b hb), h.node_le (hsub b hb)⟩
  exact onlyLinks_unlink m (fun h0 => htile _ (prevOf_mem hc h0))
    (fun h0 => htile _ (nextOf_mem hc h0))

/-- **The rest of the chain** is a chain. -/
theorem ListInv.unlink_rest (h : ListInv freeList m T cur lost) (hc : Chain m (l₁ ++ a :: l₂))
    (hsub : ∀ b ∈ l₁ ++ l₂, b ∈ nodes cur lost i) (hnd : (l₁ ++ a :: l₂).Nodup) :
    Chain (unlinkMem m (prevOf m a) (nextOf m a)) (l₁ ++ l₂) := by
  have hndrest : (l₁ ++ l₂).Nodup := (List.nodup_middle.mp hnd).of_cons
  -- the two stores only change the links of the neighbours
  have hlinks : ∀ b ∈ l₁ ++ l₂,
      (b ≠ nextOf m a → prevOf (unlinkMem m (prevOf m a) (nextOf m a)) b = prevOf m b) ∧
      (b ≠ prevOf m a → nextOf (unlinkMem m (prevOf m a) (nextOf m a)) b = nextOf m b) := by
    intro b hb
    obtain ⟨h1, h2, _⟩ := h.unlink_links hc hsub _ (h.node_tile (hsub b hb)) rfl
      (h.node_le (hsub b hb))
    exact ⟨h1, h2⟩
  refine seg_unlink hc hnd ?_ ?_ ?_ ?_
  · -- the forward link of the block in front
    intro b hb
    have hpb : prevOf m a = b := prevOf_of_getLast? hc hb
    have hpos := h.node_pos (hsub b (List.mem_append_left _ (List.mem_of_mem_getLast? hb)))
    have h0 : prevOf m a ≠ 0 := by omega
    rw [← hpb]
    refine unlinkMem_prev m h0 ?_ ?_
    · by_cases hn0 : nextOf m a = 0
      · omega
      · exact h.node_lt (hsub _ (nextOf_mem hc hn0))
    · intro hn0
      have hne : prevOf m a ≠ nextOf m a := by
        intro heq
        have hdis := (List.nodup_append.mp hndrest).2.2
        exact hdis _ (List.mem_of_mem_getLast? (getLast?_of_prevOf hc h0)) _
          (List.mem_of_mem_head? (head?_of_nextOf hc hn0)) heq
      have hpn : prevOf m a ∈ nodes cur lost i := hsub _ (prevOf_mem hc h0)
      have hnn : nextOf m a ∈ nodes cur lost i := hsub _ (nextOf_mem hc hn0)
      have hap := h.nodes_apart hpn hnn hne
      have h1 := h.node_le hpn
      omega
  · -- the back link of the block behind
    intro b hb
    have hnb : nextOf m a = b := nextOf_of_head? hc hb
    have hpos := h.node_pos (hsub b (List.mem_append_right _ (List.mem_of_mem_head? hb)))
    rw [← hnb]
    refine unlinkMem_next m (by omega) ?_
    by_cases hp0 : prevOf m a = 0
    · omega
    · exact h.node_lt (hsub _ (prevOf_mem hc hp0))
  · intro b hb hne
    refine (hlinks b hb).1 ?_
    intro heq
    have hpos := h.node_pos (hsub b hb)
    rw [heq] at hne
    exact hne (head?_of_nextOf hc (by omega))
  · intro b hb hne
    refine (hlinks b hb).2 ?_
    intro heq
    have hpos := h.node_pos (hsub b hb)
    rw [heq] at hne
    exact hne (getLast?_of_prevOf hc (by omega))

/-- A chain that shares no block with the rest of that chain stays one. -/
theorem ListInv.unlink_keep (h : ListInv freeList m T cur lost) (hc : Chain m (l₁ ++ a :: l₂))
    (hsub : ∀ b ∈ l₁ ++ l₂, b ∈ nodes cur lost i) {j : Nat} {l : List Nat} (hcl : Chain m l)
    (hlsub : ∀ b ∈ l, b ∈ nodes cur lost j) (hdis : ∀ b ∈ l₁ ++ l₂, b ∉ l) :
    Chain (unlinkMem m (prevOf m a) (nextOf m a)) l := by
  refine h.chain_keep (h.unlink_links hc hsub) hlsub ?_ ?_ hcl
  · by_cases h0 : nextOf m a = 0
    · rw [h0]
      exact h.zero_not_mem hlsub
    · exact hdis _ (nextOf_mem hc h0)
  · by_cases h0 : prevOf m a = 0
    · rw [h0]
      exact h.zero_not_mem hlsub
    · exact hdis _ (prevOf_mem hc h0)

/-- **Taking a block out keeps the lists.**  The chain `l₁ ++ a :: l₂` of list `i` loses `a`; the
new chains are the rest of that chain and old chains that share no node with it.  The block was a
free tile and becomes a user one. -/
theorem ListInv.unlink (h : ListInv freeList m T cur lost)
    (hc : Chain m (l₁ ++ a :: l₂)) (hsub : ∀ b ∈ l₁ ++ a :: l₂, b ∈ nodes cur lost i)
    (hnd : (l₁ ++ a :: l₂).Nodup) (ht : ⟨.free, a, slotLength i⟩ ∈ T.tiles)
    {freeList' : Nat → Nat} {cur' : Nat → List Nat} {lost' : Nat → List (List Nat)}
    (hhead : ∀ j, freeList' j = (cur' j).headD 0)
    (hperm : (nodes cur lost i).Perm (a :: nodes cur' lost' i))
    (hother : ∀ j, j ≠ i → nodes cur' lost' j = nodes cur lost j)
    (hchains : ∀ j, ∀ l : List Nat, (l = cur' j ∨ l ∈ lost' j) → l = l₁ ++ l₂ ∨
      (Chain m l ∧ (∀ b ∈ l, b ∈ nodes cur lost j) ∧ ∀ b ∈ l₁ ++ l₂, b ∉ l)) :
    ListInv freeList' (unlinkMem m (prevOf m a) (nextOf m a))
      (T.relabel ⟨.free, a, slotLength i⟩ ht .user) cur' lost' := by
  have hsub' : ∀ b ∈ l₁ ++ l₂, b ∈ nodes cur lost i := by
    intro b hb
    refine hsub b ?_
    rcases List.mem_append.mp hb with hb | hb <;> simp [hb]
  have hkeep : ∀ j, ∀ l : List Nat, (l = cur' j ∨ l ∈ lost' j) →
      Chain (unlinkMem m (prevOf m a) (nextOf m a)) l := by
    intro j l hl
    rcases hchains j l hl with heq | ⟨hcl, hlsub, hdis⟩
    · rw [heq]
      exact h.unlink_rest hc hsub' hnd
    · exact h.unlink_keep hc hsub' hcl hlsub hdis
  -- the nodes that stay
  have hnodup' : (a :: nodes cur' lost' i).Nodup := hperm.nodup_iff.mp (h.nodup i)
  have hmem' : ∀ j b, b ∈ nodes cur' lost' j → b ∈ nodes cur lost j ∧ b ≠ a := by
    intro j b hb
    by_cases hj : j = i
    · subst j
      refine ⟨hperm.mem_iff.mpr (List.mem_cons_of_mem a hb), ?_⟩
      intro heq
      rw [heq] at hb
      exact (List.nodup_cons.mp hnodup').1 hb
    · rw [hother j hj] at hb
      refine ⟨hb, ?_⟩
      intro heq
      rw [heq] at hb
      exact hj (h.node_unique hb (hsub a (by simp)))
  refine ⟨hhead, ?_, ?_, ?_, ?_, ?_, ?_⟩
  · intro j
    exact hkeep j _ (Or.inl rfl)
  · intro j l hl
    exact hkeep j l (Or.inr hl)
  · intro j
    by_cases hj : j = i
    · rw [hj]
      exact (List.nodup_cons.mp hnodup').2
    · rw [hother j hj]
      exact h.nodup j
  · intro j b hb
    obtain ⟨hold, hne⟩ := hmem' j b hb
    obtain ⟨h1, h2, h3⟩ := h.node j b hold
    exact ⟨h1, h2, Or.inl ⟨h3, fun heq => hne (congrArg Tile.base heq)⟩⟩
  · intro t htt hk
    rcases Tiling.mem_relabel.mp htt with ⟨hold, hne⟩ | hnew
    · obtain ⟨h1, h2, h3, h4⟩ := h.free t hold hk
      obtain ⟨_, _, hok⟩ := h.unlink_links hc hsub' t hold hk h1.le
      refine ⟨h1, h2, ?_, hok h4⟩
      have hbase : t.base ≠ a := fun heq => hne (T.eq_of_base hold ht heq)
      by_cases hj : findFreeListIndex t.len = i
      · rw [hj] at h3 ⊢
        rcases List.mem_cons.mp (hperm.mem_iff.mp h3) with heq | hin
        · exact absurd heq hbase
        · exact hin
      · rw [hother _ hj]
        exact h3
    · rw [hnew] at hk
      simp at hk
  · intro t htt
    rcases Tiling.mem_relabel.mp htt with ⟨hold, _⟩ | hnew
    · exact h.bounds t hold
    · rw [hnew]
      exact h.bounds ⟨.free, a, slotLength i⟩ ht

end Neighbours

end ListInv

end RocketCo.MemoryPool
