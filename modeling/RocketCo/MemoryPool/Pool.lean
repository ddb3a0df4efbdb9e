/-
  RocketCo.MemoryPool.Pool — the operations on blocks, over the tiling.

  `Pool st T` says that the allocator `st` is well formed and owns its memory as `T` describes.
  Each routine of the source that edits the free lists becomes one step on tilings:

    • `Pool.push` — `SetBlock2FreeList`: a user tile turns free,
    • `Pool.unlink` — `MoveToFreeList`: a free tile turns user, whichever chain it stands on,
    • `PoolInv.popHead` — the head of a list turns user (`RocketCoMalloc`, and `ChunkAlloc` when
      `malloc` fails),
    • `Pool.glue` — two adjacent user tiles are one.
-/
import RocketCo.MemoryPool.Surgery

namespace RocketCo.MemoryPool

open RocketCo.Lib

/-- The allocator is well formed and owns its memory as `T` describes. -/
def Pool (st : RocketCoAlloctor) (T : Tiling Owner) : Prop := ∃ cur lost, PoolInv st T cur lost

/-! ## §1. Tilings that agree on a kind of tiles. -/

/-- The two tilings have the same tiles of kind `k`. -/
def SameKind (k : Owner) (T T' : Tiling Owner) : Prop :=
  ∀ t : Tile Owner, t.kind = k → (t ∈ T'.tiles ↔ t ∈ T.tiles)

/-- The free lists depend on the free tiles only. -/
theorem ListInv.retile {freeList : Nat → Nat} {m : Mem} {T T' : Tiling Owner}
    {cur : Nat → List Nat} {lost : Nat → List (List Nat)} (h : ListInv freeList m T cur lost)
    (hsame : SameKind .free T T') (hb : ∀ t ∈ T'.tiles, 0 < t.base ∧ t.base + t.len < longMax) :
    ListInv freeList m T' cur lost := by
  refine ⟨h.head, h.chain, h.lost_chain, h.nodup, ?_, ?_, hb⟩
  · intro i a ha
    obtain ⟨h1, h2, h3⟩ := h.node i a ha
    exact ⟨h1, h2, (hsame _ rfl).mpr h3⟩
  · intro t ht hk
    exact h.free t ((hsame t hk).mp ht) hk

theorem UnusedInv.retile {s e : Nat} {T T' : Tiling Owner} (h : UnusedInv s e T)
    (hsame : SameKind .unused T T') : UnusedInv s e T' := by
  refine ⟨h.start_le, ?_, h.sized⟩
  intro t
  rw [← h.unused t]
  constructor
  · rintro ⟨ht, hk⟩
    exact ⟨(hsame t hk).mp ht, hk⟩
  · rintro ⟨ht, hk⟩
    exact ⟨(hsame t hk).mpr ht, hk⟩

/-- Relabelling a tile leaves the tiles of any third kind alone. -/
theorem sameKind_relabel {T : Tiling Owner} {k k' k'' : Owner} {p L : Nat}
    {ht : ⟨k, p, L⟩ ∈ T.tiles} (hk : k ≠ k'') (hk' : k' ≠ k'') :
    SameKind k'' T (T.relabel ⟨k, p, L⟩ ht k') := by
  intro t htk
  rw [Tiling.mem_relabel]
  constructor
  · intro hor
    rcases hor with ⟨h, _⟩ | heq
    · exact h
    · rw [heq] at htk
      exact absurd htk hk'
  · intro h
    refine Or.inl ⟨h, ?_⟩
    intro heq
    rw [heq] at htk
    exact absurd htk hk

/-- The blocks in user hands. -/
def users (T : Tiling Owner) : Set (Tile Owner) := {t | t ∈ T.tiles ∧ t.kind = .user}

theorem users_relabel_to {T : Tiling Owner} {k : Owner} {p L : Nat} (ht : ⟨k, p, L⟩ ∈ T.tiles)
    (hk : k ≠ .user) :
    users (T.relabel ⟨k, p, L⟩ ht .user) = insert ⟨.user, p, L⟩ (users T) := by
  ext t
  simp only [users, Set.mem_ofPred_eq, Set.mem_insert_iff, Tiling.mem_relabel]
  constructor
  · rintro ⟨hor, htk⟩
    rcases hor with ⟨hold, _⟩ | heq
    · exact Or.inr ⟨hold, htk⟩
    · exact Or.inl heq
  · intro hor
    rcases hor with heq | ⟨hold, htk⟩
    · exact ⟨Or.inr heq, by rw [heq]⟩
    · refine ⟨Or.inl ⟨hold, ?_⟩, htk⟩
      intro heq
      rw [heq] at htk
      exact hk htk

theorem users_relabel_from {T : Tiling Owner} {k : Owner} {p L : Nat}
    (ht : ⟨.user, p, L⟩ ∈ T.tiles) (hk : k ≠ .user) :
    users (T.relabel ⟨.user, p, L⟩ ht k) = users T \ {⟨.user, p, L⟩} := by
  ext t
  simp only [users, Set.mem_ofPred_eq, Set.mem_sdiff, Set.mem_singleton_iff, Tiling.mem_relabel]
  constructor
  · rintro ⟨hor, htk⟩
    rcases hor with ⟨hold, hne⟩ | heq
    · exact ⟨⟨hold, htk⟩, hne⟩
    · rw [heq] at htk
      exact absurd htk hk
  · rintro ⟨⟨hold, htk⟩, hne⟩
    exact ⟨Or.inl ⟨hold, hne⟩, htk⟩

/-- No user tile starts where a tile of another kind starts. -/
theorem not_users {T : Tiling Owner} {k : Owner} {a n : Nat} (ht : ⟨k, a, n⟩ ∈ T.tiles)
    (hk : k ≠ .user) (m : Nat) : (⟨.user, a, m⟩ : Tile Owner) ∉ users T := by
  rintro ⟨hmem, _⟩
  exact hk (congrArg Tile.kind (T.eq_of_base hmem ht rfl)).symm

/-- Two adjacent user tiles of one chunk may be seen as one. -/
theorem Pool.glue {st : RocketCoAlloctor} {T : Tiling Owner} (h : Pool st T) {p a b : Nat}
    (h₁ : ⟨.user, p, a⟩ ∈ T.tiles) (h₂ : ⟨.user, p + a, b⟩ ∈ T.tiles) {c : Nat × Nat}
    (hc : IsChunk st.pointerEffectiveInterval c) (hlo : c.1 ≤ p) (hhi : p + a + b ≤ c.2) :
    Pool st (T.glue ⟨.user, p, a⟩ ⟨.user, p + a, b⟩ h₁ h₂ rfl .user) := by
  obtain ⟨cur, lost, hp⟩ := h
  have hsame : ∀ k, k ≠ .user →
      SameKind k T (T.glue ⟨.user, p, a⟩ ⟨.user, p + a, b⟩ h₁ h₂ rfl .user) := by
    intro k hne t hk
    rw [Tiling.mem_glue]
    constructor
    · intro hor
      rcases hor with ⟨ht, _⟩ | heq
      · exact ht
      · rw [heq] at hk
        exact absurd hk.symm hne
    · intro ht
      refine Or.inl ⟨ht, ?_, ?_⟩ <;>
      · intro heq
        rw [heq] at hk
        exact absurd hk.symm hne
  have hchunk : ChunkInv st.pointerEffectiveInterval
      (T.glue ⟨.user, p, a⟩ ⟨.user, p + a, b⟩ h₁ h₂ rfl .user) := by
    refine hp.chunks.retile (Tiling.covered_glue h₁ h₂ rfl .user) ?_
    intro t ht
    rcases Tiling.mem_glue.mp ht with ⟨hold, _⟩ | heq
    · exact Or.inl hold
    · right
      refine ⟨c, hc, ?_, ?_⟩
      · rw [heq]
        exact hlo
      · rw [heq]
        show p + (a + b) ≤ c.2
        omega
  exact ⟨cur, lost, hchunk, hp.lists.retile (hsame .free (by simp)) fun t ht => hchunk.bounds ht,
    hp.region.retile (hsame .unused (by simp))⟩

/-! ## §2. A user tile turns free. -/

/-- The allocator after `SetBlock2FreeList`. -/
def pushed (st : RocketCoAlloctor) (p L : Nat) : RocketCoAlloctor :=
  { st.setFreeList (findFreeListIndex L) p with
    mem := pushMem st.mem p (st.freeList (findFreeListIndex L)) (findFreeListIndex L) L }

theorem setBlock2FreeList_pushed (st : RocketCoAlloctor) (p : Nat) {L : Nat} (hs : SlotSized L)
    (hle : L ≤ thirdSlot) : setBlock2FreeList st p L = some (pushed st p L) :=
  setBlock2FreeList_eq st p (findFreeListIndex_lt hs hle)

theorem PoolInv.push {st : RocketCoAlloctor} {T : Tiling Owner} {cur : Nat → List Nat}
    {lost : Nat → List (List Nat)} (hp : PoolInv st T cur lost) {p L : Nat}
    (ht : ⟨.user, p, L⟩ ∈ T.tiles) (hs : SlotSized L) (hle : L ≤ thirdSlot) :
    PoolInv (pushed st p L) (T.relabel ⟨.user, p, L⟩ ht .free)
      (setChain cur (findFreeListIndex L) (p :: cur (findFreeListIndex L))) lost :=
  ⟨hp.chunks.relabel ht .free, hp.lists.push ht hs hle rfl,
    hp.region.retile (sameKind_relabel (by simp) (by simp))⟩

theorem Pool.push {st : RocketCoAlloctor} {T : Tiling Owner} (h : Pool st T) {p L : Nat}
    (ht : ⟨.user, p, L⟩ ∈ T.tiles) (hs : SlotSized L) (hle : L ≤ thirdSlot) :
    Pool (pushed st p L) (T.relabel ⟨.user, p, L⟩ ht .free) := by
  obtain ⟨cur, lost, hp⟩ := h
  exact ⟨_, lost, hp.push ht hs hle⟩

/-! ## §3. A free tile turns user. -/

section Unlink

variable {freeList freeList' : Nat → Nat} {m : Mem} {T : Tiling Owner} {cur cur' : Nat → List Nat}
  {lost lost' : Nat → List (List Nat)}

/-- `ListInv.unlink` when the nodes of list `i` are one chain, which loses a node, and the rest
`R`, whose chains stay as they are. -/
theorem ListInv.unlink_of_rest (h : ListInv freeList m T cur lost) {i a : Nat}
    {l₁ l₂ R : List Nat} (hc : Chain m (l₁ ++ a :: l₂)) (ht : ⟨.free, a, slotLength i⟩ ∈ T.tiles)
    (hnodes : (nodes cur lost i).Perm ((l₁ ++ a :: l₂) ++ R))
    (hnodes' : (nodes cur' lost' i).Perm ((l₁ ++ l₂) ++ R))
    (hhead : ∀ j, freeList' j = (cur' j).headD 0)
    (hkeep : ∀ l : List Nat, (l = cur' i ∨ l ∈ lost' i) →
      l = l₁ ++ l₂ ∨ (Chain m l ∧ ∀ b ∈ l, b ∈ R))
    (hother : ∀ j, j ≠ i → cur' j = cur j ∧ lost' j = lost j) :
    ListInv freeList' (unlinkMem m (prevOf m a) (nextOf m a))
      (T.relabel ⟨.free, a, slotLength i⟩ ht .user) cur' lost' := by
  have hnd : ((l₁ ++ a :: l₂) ++ R).Nodup := hnodes.nodup_iff.mp (h.nodup i)
  have hsub : ∀ b ∈ l₁ ++ a :: l₂, b ∈ nodes cur lost i := by
    intro b hb
    exact hnodes.mem_iff.mpr (List.mem_append_left R hb)
  have hsub' : ∀ b ∈ l₁ ++ l₂, b ∈ l₁ ++ a :: l₂ := by
    intro b hb
    rcases List.mem_append.mp hb with hb | hb <;> simp [hb]
  -- the chains of the other lists are not touched
  have hsame : ∀ j, j ≠ i → nodes cur' lost' j = nodes cur lost j := by
    intro j hj
    unfold nodes
    rw [(hother j hj).1, (hother j hj).2]
  refine h.unlink hc hsub (List.nodup_append.mp hnd).1 ht hhead ?_ hsame ?_
  · -- the nodes are those of before without `a`
    have hmid : ((l₁ ++ a :: l₂) ++ R).Perm (a :: ((l₁ ++ l₂) ++ R)) := by
      have hfront : (l₁ ++ a :: l₂).Perm (a :: (l₁ ++ l₂)) := List.perm_middle
      exact hfront.append_right R
    exact (hnodes.trans hmid).trans (hnodes'.symm.cons a)
  · intro j l hl
    by_cases hj : j = i
    · subst j
      rcases hkeep l hl with heq | ⟨hcl, hR⟩
      · exact Or.inl heq
      · refine Or.inr ⟨hcl, ?_, ?_⟩
        · intro b hb
          exact hnodes.mem_iff.mpr (List.mem_append_right _ (hR b hb))
        · intro b hb hbl
          exact (List.nodup_append.mp hnd).2.2 b (hsub' b hb) b (hR b hbl) rfl
    · -- a chain of another list shares no node with this one
      right
      rw [(hother j hj).1, (hother j hj).2] at hl
      have hlsub : ∀ b ∈ l, b ∈ nodes cur lost j := by
        intro b hb
        rcases hl with heq | hmem
        · rw [heq] at hb
          exact cur_sub hb
        · exact lost_sub hmem hb
      refine ⟨?_, hlsub, ?_⟩
      · rcases hl with heq | hmem
        · rw [heq]
          exact h.chain j
        · exact h.lost_chain j l hmem
      · intro b hb hbl
        exact hj (h.node_unique (hlsub b hbl) (hsub b (hsub' b hb)))

/-- The dropped chains after a change of those of list `i`. -/
def setLost (lost : Nat → List (List Nat)) (i : Nat) (ls : List (List Nat)) :
    Nat → List (List Nat) :=
  fun j => if j = i then ls else lost j

@[simp] theorem setLost_same (lost : Nat → List (List Nat)) (i : Nat) (ls : List (List Nat)) :
    setLost lost i ls i = ls := by
  simp [setLost]

theorem setLost_other (lost : Nat → List (List Nat)) {i j : Nat} (ls : List (List Nat))
    (h : j ≠ i) : setLost lost i ls j = lost j := by
  simp [setLost, h]

/-- The back link of a node is null exactly when nothing stands before it. -/
theorem ListInv.prev_eq_zero (h : ListInv freeList m T cur lost) {i a : Nat} {l₁ l₂ : List Nat}
    (hc : Chain m (l₁ ++ a :: l₂)) (hsub : ∀ b ∈ l₁, b ∈ nodes cur lost i) :
    prevOf m a = 0 ↔ l₁ = [] := by
  rw [hc.prev_eq, lastLink_eq]
  cases hl : l₁.getLast? with
  | none =>
      rw [List.getLast?_eq_none_iff] at hl
      simp [hl]
  | some b =>
      have hb : b ∈ l₁ := List.mem_of_mem_getLast? hl
      have hpos := h.node_pos (hsub b hb)
      have hne : l₁ ≠ [] := List.ne_nil_of_mem hb
      simp only [Option.map_some, id_eq, Option.getD_some, hne, iff_false]
      omega

/-- The fields after a free block left its list. -/
def unlinkedList (freeList : Nat → Nat) (m : Mem) (i a : Nat) : Nat → Nat :=
  fun j => if prevOf m a = 0 ∧ j = i then nextOf m a else freeList j

/-- **Taking out a node of a current chain.** -/
theorem ListInv.unlink_cur (h : ListInv freeList m T cur lost) {i a : Nat} {l₁ l₂ : List Nat}
    (hcur : cur i = l₁ ++ a :: l₂) (ht : ⟨.free, a, slotLength i⟩ ∈ T.tiles) :
    ListInv (unlinkedList freeList m i a) (unlinkMem m (prevOf m a) (nextOf m a))
      (T.relabel ⟨.free, a, slotLength i⟩ ht .user) (setChain cur i (l₁ ++ l₂)) lost := by
  have hc : Chain m (l₁ ++ a :: l₂) := hcur ▸ h.chain i
  have hsub : ∀ b ∈ l₁, b ∈ nodes cur lost i := by
    intro b hb
    exact cur_sub (by rw [hcur]; exact List.mem_append_left _ hb)
  refine h.unlink_of_rest (R := (lost i).flatten) hc ht ?_ ?_ ?_ ?_ ?_
  · unfold nodes
    rw [hcur]
  · unfold nodes
    rw [setChain_same]
  · intro j
    unfold unlinkedList
    by_cases hj : j = i
    · subst j
      rw [setChain_same]
      by_cases h0 : prevOf m a = 0
      · have hnil : l₁ = [] := (h.prev_eq_zero hc hsub).mp h0
        have hnext : nextOf m a = (l₂.map id).headD 0 := hc.next_eq
        simp [h0, hnil, hnext]
      · have hne : l₁ ≠ [] := fun heq => h0 ((h.prev_eq_zero hc hsub).mpr heq)
        simp only [h0, false_and, ↓reduceIte]
        rw [h.head i, hcur]
        cases l₁ with
        | nil => exact absurd rfl hne
        | cons b l => rfl
    · rw [setChain_other cur _ hj]
      simp only [hj, and_false, ↓reduceIte]
      exact h.head j
  · intro l hl
    rcases hl with heq | hmem
    · left
      rw [heq, setChain_same]
    · right
      refine ⟨h.lost_chain i l hmem, ?_⟩
      intro b hb
      exact List.mem_flatten.mpr ⟨l, hmem, hb⟩
  · intro j hj
    exact ⟨setChain_other cur _ hj, rfl⟩

/-- A chain out of a list of chains, and the rest. -/
theorem perm_flatten_middle (s t : List (List Nat)) (l : List Nat) :
    (s ++ l :: t).flatten.Perm (l ++ (s ++ t).flatten) := by
  have hmid : (s ++ l :: t).Perm (l :: (s ++ t)) := List.perm_middle
  simpa using hmid.flatten

/-- **Taking out a node of a dropped chain.**  At its head the chain becomes current again, and
the chain that was current is dropped; elsewhere it stays dropped. -/
theorem ListInv.unlink_lost (h : ListInv freeList m T cur lost) {i a : Nat} {l₁ l₂ : List Nat}
    {s t : List (List Nat)} (hlost : lost i = s ++ (l₁ ++ a :: l₂) :: t)
    (ht : ⟨.free, a, slotLength i⟩ ∈ T.tiles) :
    ∃ cur' lost', ListInv (unlinkedList freeList m i a)
      (unlinkMem m (prevOf m a) (nextOf m a))
      (T.relabel ⟨.free, a, slotLength i⟩ ht .user) cur' lost' := by
  have hin : l₁ ++ a :: l₂ ∈ lost i := by
    rw [hlost]
    simp
  have hc : Chain m (l₁ ++ a :: l₂) := h.lost_chain i _ hin
  have hsub : ∀ b ∈ l₁, b ∈ nodes cur lost i := by
    intro b hb
    exact lost_sub hin (List.mem_append_left _ hb)
  have hrest : ∀ l ∈ s ++ t, l ∈ lost i := by
    intro l hl
    rw [hlost]
    rcases List.mem_append.mp hl with hl | hl <;> simp [hl]
  -- the nodes of list `i`: the chain in question, the current chain, the other dropped ones
  have hnodes : (nodes cur lost i).Perm ((l₁ ++ a :: l₂) ++ (cur i ++ (s ++ t).flatten)) := by
    unfold nodes
    rw [hlost]
    refine ((perm_flatten_middle s t _).append_left (cur i)).trans ?_
    exact List.perm_append_comm_assoc _ _ _
  have hkeep : ∀ l : List Nat, (l = cur i ∨ l ∈ s ++ t) →
      Chain m l ∧ ∀ b ∈ l, b ∈ cur i ++ (s ++ t).flatten := by
    intro l hl
    rcases hl with heq | hmem
    · rw [heq]
      exact ⟨h.chain i, fun b hb => List.mem_append_left _ hb⟩
    · refine ⟨h.lost_chain i l (hrest l hmem), ?_⟩
      intro b hb
      exact List.mem_append_right _ (List.mem_flatten.mpr ⟨l, hmem, hb⟩)
  by_cases h0 : prevOf m a = 0
  · have hnil : l₁ = [] := (h.prev_eq_zero hc hsub).mp h0
    subst hnil
    refine ⟨setChain cur i l₂, setLost lost i (cur i :: (s ++ t)),
      h.unlink_of_rest hc ht hnodes ?_ ?_ ?_ ?_⟩
    · unfold nodes
      rw [setChain_same, setLost_same]
      simp
    · intro j
      unfold unlinkedList
      by_cases hj : j = i
      · subst j
        rw [setChain_same]
        have hnext : nextOf m a = (l₂.map id).headD 0 := hc.2.1
        simp [h0, hnext]
      · rw [setChain_other cur _ hj]
        simp only [hj, and_false, ↓reduceIte]
        exact h.head j
    · intro l hl
      rw [setChain_same, setLost_same] at hl
      rcases hl with heq | hmem
      · exact Or.inl heq
      · exact Or.inr (hkeep l (List.mem_cons.mp hmem))
    · intro j hj
      exact ⟨setChain_other cur _ hj, setLost_other lost _ hj⟩
  · refine ⟨cur, setLost lost i ((l₁ ++ l₂) :: (s ++ t)),
      h.unlink_of_rest hc ht hnodes ?_ ?_ ?_ ?_⟩
    · unfold nodes
      rw [setLost_same, List.flatten_cons]
      exact List.perm_append_comm_assoc _ _ _
    · intro j
      unfold unlinkedList
      simp only [h0, false_and, ↓reduceIte]
      exact h.head j
    · intro l hl
      rw [setLost_same] at hl
      rcases hl with heq | hmem
      · exact Or.inr (hkeep l (Or.inl heq))
      · rcases List.mem_cons.mp hmem with heq | hst
        · exact Or.inl heq
        · exact Or.inr (hkeep l (Or.inr hst))
    · intro j hj
      exact ⟨rfl, setLost_other lost _ hj⟩

/-- A free tile can be taken out, on a current chain or a dropped one. -/
theorem ListInv.unlink_tile (h : ListInv freeList m T cur lost) {i a L : Nat}
    (hi : findFreeListIndex L = i) (ht : ⟨.free, a, L⟩ ∈ T.tiles) :
    ∃ cur' lost', ListInv (unlinkedList freeList m i a)
      (unlinkMem m (prevOf m a) (nextOf m a)) (T.relabel ⟨.free, a, L⟩ ht .user) cur' lost' := by
  obtain ⟨hs, hle, hmem, _⟩ := h.free ⟨.free, a, L⟩ ht rfl
  have hlen : slotLength i = L := hi ▸ slotLength_findFreeListIndex hs hle
  simp only [hi] at hmem
  subst hlen
  rcases List.mem_append.mp hmem with hcur | hlost
  · obtain ⟨l₁, l₂, hsplit⟩ := List.append_of_mem hcur
    exact ⟨_, lost, h.unlink_cur hsplit ht⟩
  · obtain ⟨l, hl, hal⟩ := List.mem_flatten.mp hlost
    obtain ⟨s, t, hst⟩ := List.append_of_mem hl
    obtain ⟨l₁, l₂, hsplit⟩ := List.append_of_mem hal
    rw [hsplit] at hst
    exact h.unlink_lost hst ht

end Unlink

/-- The allocator after a free block of length `L` left its list. -/
def unlinked (st : RocketCoAlloctor) (a L : Nat) : RocketCoAlloctor :=
  { st with
    freeList := unlinkedList st.freeList st.mem (findFreeListIndex L) a
    mem := unlinkMem st.mem (prevOf st.mem a) (nextOf st.mem a) }

/-- **Any free tile can be taken out.** -/
theorem Pool.unlink {st : RocketCoAlloctor} {T : Tiling Owner} (h : Pool st T) {a L : Nat}
    (ht : ⟨.free, a, L⟩ ∈ T.tiles) :
    Pool (unlinked st a L) (T.relabel ⟨.free, a, L⟩ ht .user) := by
  obtain ⟨cur, lost, hp⟩ := h
  have hregion : UnusedInv st.startfree st.endfree (T.relabel ⟨.free, a, L⟩ ht .user) :=
    hp.region.retile (sameKind_relabel (by simp) (by simp))
  obtain ⟨cur', lost', hl⟩ := hp.lists.unlink_tile (i := findFreeListIndex L) (Eq.refl _) ht
  unfold unlinked
  refine ⟨cur', lost', hp.chunks.relabel ht .user, ?_, hregion⟩
  dsimp only
  exact hl

/-- A free block and the block its back link names are disjoint. -/
theorem Pool.prev_apart {st : RocketCoAlloctor} {T : Tiling Owner} (h : Pool st T) {a L : Nat}
    (ht : ⟨.free, a, L⟩ ∈ T.tiles) (h0 : prevOf st.mem a ≠ 0) :
    prevOf st.mem a + 16 ≤ a ∨ a + 16 ≤ prevOf st.mem a := by
  obtain ⟨cur, lost, hp⟩ := h
  obtain ⟨hs, _, hmem, _⟩ := hp.lists.free _ ht rfl
  -- the back link is a node of the same chain
  have hsplit : ∃ l₁ l₂, Chain st.mem (l₁ ++ a :: l₂) ∧ (l₁ ++ a :: l₂).Nodup ∧
      ∀ b ∈ l₁, b ∈ nodes cur lost (findFreeListIndex L) := by
    have hnd := hp.lists.nodup (findFreeListIndex L)
    rcases List.mem_append.mp hmem with hcur | hlost
    · obtain ⟨l₁, l₂, hsplit⟩ := List.append_of_mem hcur
      simp only at hsplit
      refine ⟨l₁, l₂, hsplit ▸ hp.lists.chain _, hsplit ▸ (List.nodup_append.mp hnd).1, ?_⟩
      intro b hb
      exact cur_sub (by rw [hsplit]; exact List.mem_append_left _ hb)
    · obtain ⟨l, hl, hal⟩ := List.mem_flatten.mp hlost
      obtain ⟨l₁, l₂, hsplit⟩ := List.append_of_mem hal
      simp only at hsplit
      have hlnd : l.Nodup := (List.nodup_flatten.mp (List.nodup_append.mp hnd).2.1).1 l hl
      refine ⟨l₁, l₂, hsplit ▸ hp.lists.lost_chain _ l hl, hsplit ▸ hlnd, ?_⟩
      intro b hb
      exact lost_sub hl (by rw [hsplit]; exact List.mem_append_left _ hb)
  obtain ⟨l₁, l₂, hc, hnd, hsub⟩ := hsplit
  have hin : prevOf st.mem a ∈ l₁ := by
    rw [hc.prev_eq, lastLink_eq] at h0 ⊢
    cases hl : l₁.getLast? with
    | none =>
        rw [hl] at h0
        exact absurd rfl h0
    | some b => exact List.mem_of_mem_getLast? hl
  have hne : prevOf st.mem a ≠ a := by
    intro heq
    rw [heq] at hin
    exact (List.nodup_append.mp hnd).2.2 a hin a List.mem_cons_self rfl
  have hap := hp.lists.nodes_apart (hsub _ hin) hmem hne
  have h1 := hp.lists.node_le (hsub _ hin)
  have h2 := hp.lists.node_le hmem
  simp only at hap h2
  omega

/-- **`MoveToFreeList`** takes the block out, unless it is the tail of a longer chain: there it
dereferences the null link behind it. -/
theorem Pool.moveToFreeList_eq {st : RocketCoAlloctor} {T : Tiling Owner} (h : Pool st T)
    {a L : Nat} (ht : ⟨.free, a, L⟩ ∈ T.tiles) :
    moveToFreeList st a L =
      if prevOf st.mem a ≠ 0 ∧ nextOf st.mem a = 0 then none else some (unlinked st a L) := by
  have hidx : findFreeListIndex L < slotCount := by
    obtain ⟨cur, lost, hp⟩ := h
    obtain ⟨hs, hle, _, _⟩ := hp.lists.free _ ht rfl
    exact findFreeListIndex_lt hs hle
  have hap := h.prev_apart ht
  by_cases htail : prevOf st.mem a ≠ 0 ∧ nextOf st.mem a = 0
  · rw [if_pos htail]
    obtain ⟨hp0, hn0⟩ := htail
    have hfar := hap hp0
    have hagree : AgreeOn st.mem (setNext st.mem (prevOf st.mem a) (nextOf st.mem a)) a 16 :=
      agreeOn_store _ _ (by omega)
    have hnext : nextOf (setNext st.mem (prevOf st.mem a) (nextOf st.mem a)) a = 0 := by
      rw [← hn0]
      exact load_congr (hagree.mono (by omega) (by omega))
    unfold moveToFreeList
    rw [hn0] at hnext
    simp only [hp0, hn0, hnext, ↓reduceIte]
  · rw [if_neg htail, MemoryPool.moveToFreeList_eq st hidx (fun h0 hn => htail ⟨h0, hn⟩) hap]
    unfold unlinked unlinkedList RocketCoAlloctor.setFreeList
    by_cases h0 : prevOf st.mem a = 0
    · simp only [h0, ↓reduceIte, true_and]
    · simp only [h0, ↓reduceIte, false_and]

/-! ## §4. The head of a list. -/

/-- The head of a non-empty list is a free tile with a null back link. -/
theorem Pool.head_tile {st : RocketCoAlloctor} {T : Tiling Owner} (h : Pool st T) {i : Nat}
    (h0 : st.freeList i ≠ 0) : i < slotCount ∧ findFreeListIndex (slotLength i) = i ∧
      ⟨.free, st.freeList i, slotLength i⟩ ∈ T.tiles ∧ prevOf st.mem (st.freeList i) = 0 := by
  obtain ⟨cur, lost, hp⟩ := h
  obtain ⟨l, hl⟩ := hp.lists.cur_of_head h0
  have hmem : st.freeList i ∈ nodes cur lost i := cur_sub (by rw [hl]; exact List.mem_cons_self)
  obtain ⟨h1, h2, h3⟩ := hp.lists.node i _ hmem
  have hc : Chain st.mem (st.freeList i :: l) := hl ▸ hp.lists.chain i
  exact ⟨h1, h2, h3, hc.1⟩

/-- A head without a back link is taken out by its forward link alone. -/
theorem unlinked_head (st : RocketCoAlloctor) {a L i : Nat} (hi : findFreeListIndex L = i)
    (h0 : prevOf st.mem a = 0) :
    unlinked st a L = { st.setFreeList i (nextOf st.mem a) with
      mem := if nextOf st.mem a ≠ 0 then setPrev st.mem (nextOf st.mem a) 0 else st.mem } := by
  unfold unlinked unlinkedList unlinkMem RocketCoAlloctor.setFreeList
  simp only [hi, h0, true_and, ne_eq, not_true_eq_false, ↓reduceIte]

/-- **Taking the head of a list**: no other chain changes, and no chain is dropped. -/
theorem PoolInv.popHead {st : RocketCoAlloctor} {T : Tiling Owner} {cur : Nat → List Nat}
    {lost : Nat → List (List Nat)} (hp : PoolInv st T cur lost) {i : Nat}
    (h0 : st.freeList i ≠ 0) :
    ∃ l, cur i = st.freeList i :: l ∧ ∃ ht : ⟨.free, st.freeList i, slotLength i⟩ ∈ T.tiles,
      PoolInv { st.setFreeList i (nextOf st.mem (st.freeList i)) with
        mem := if nextOf st.mem (st.freeList i) ≠ 0 then
          setPrev st.mem (nextOf st.mem (st.freeList i)) 0 else st.mem }
        (T.relabel ⟨.free, st.freeList i, slotLength i⟩ ht .user) (setChain cur i l) lost := by
  obtain ⟨_, hii, ht, hprev⟩ := Pool.head_tile ⟨cur, lost, hp⟩ h0
  obtain ⟨l, hl⟩ := hp.lists.cur_of_head h0
  have hlists : ListInv (unlinkedList st.freeList st.mem i (st.freeList i))
      (unlinkMem st.mem (prevOf st.mem (st.freeList i)) (nextOf st.mem (st.freeList i)))
      (T.relabel ⟨.free, st.freeList i, slotLength i⟩ ht .user) (setChain cur i l) lost := by
    have hfront : cur i = [] ++ st.freeList i :: l := hl
    exact hp.lists.unlink_cur hfront ht
  have hregion : UnusedInv st.startfree st.endfree
      (T.relabel ⟨.free, st.freeList i, slotLength i⟩ ht .user) :=
    hp.region.retile (sameKind_relabel (by simp) (by simp))
  refine ⟨l, hl, ht, ?_⟩
  rw [← unlinked_head st hii hprev]
  unfold unlinked
  rw [hii]
  refine ⟨hp.chunks.relabel ht .user, ?_, hregion⟩
  dsimp only
  exact hlists

/-- Nothing in the invariant reads the table of allocated blocks. -/
theorem PoolInv.mark {st st' : RocketCoAlloctor} {T : Tiling Owner} {cur : Nat → List Nat}
    {lost : Nat → List (List Nat)} (hp : PoolInv st T cur lost)
    (h₁ : st'.startfree = st.startfree) (h₂ : st'.endfree = st.endfree)
    (h₃ : st'.freeList = st.freeList)
    (h₄ : st'.pointerEffectiveInterval = st.pointerEffectiveInterval) (h₅ : st'.mem = st.mem) :
    PoolInv st' T cur lost := by
  refine ⟨?_, ?_, ?_⟩
  · rw [h₄]
    exact hp.chunks
  · rw [h₃, h₅]
    exact hp.lists
  · rw [h₁, h₂]
    exact hp.region

theorem Pool.mark {st st' : RocketCoAlloctor} {T : Tiling Owner} (h : Pool st T)
    (h₁ : st'.startfree = st.startfree) (h₂ : st'.endfree = st.endfree)
    (h₃ : st'.freeList = st.freeList)
    (h₄ : st'.pointerEffectiveInterval = st.pointerEffectiveInterval) (h₅ : st'.mem = st.mem) :
    Pool st' T := by
  obtain ⟨cur, lost, hp⟩ := h
  exact ⟨cur, lost, hp.mark h₁ h₂ h₃ h₄ h₅⟩

end RocketCo.MemoryPool
