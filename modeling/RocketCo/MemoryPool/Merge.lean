/-
  RocketCo.MemoryPool.Merge — `RocketCoFree` over the tiling.

  `RocketCoFree` looks its chunk up in the interval table, tries to merge with the block below,
  then with the block above, and otherwise puts the block on its own list.  Whether a neighbour is
  free it decides by the absence of a mark, and the length of the neighbour it reads from the
  neighbour's own bytes.  `free_spec` says what happens when the neighbour it merges with really
  is free; `SafeMerge` is that condition.
-/
import RocketCo.MemoryPool.Pool

namespace RocketCo.MemoryPool

open RocketCo.Lib

/-! ## §1. The interval table. -/

/-- Pairs are compared by their first part, and then by the second. -/
theorem pairLt_iff {a b : Nat × Nat} :
    pairLt a b = true ↔ a.1 < b.1 ∨ (a.1 = b.1 ∧ a.2 < b.2) := by
  unfold pairLt
  rw [decide_eq_true_iff]

theorem pairLt_trans {a b c : Nat × Nat} (hab : pairLt a b = true) (hbc : pairLt b c = true) :
    pairLt a c = true := by
  rw [pairLt_iff] at *
  omega

/-- The new interval is in the set, with those from before. -/
theorem mem_emplace {iv x : Nat × Nat} : ∀ {ivs : List (Nat × Nat)},
    x ∈ emplace iv ivs ↔ x = iv ∨ x ∈ ivs := by
  intro ivs
  induction ivs with
  | nil => simp [emplace]
  | cons y ys ih =>
      unfold emplace
      by_cases h₁ : pairLt iv y = true
      · simp [h₁]
      · by_cases h₂ : pairLt y iv = true
        · simp only [h₁, h₂, if_true, if_false, List.mem_cons, ih, Bool.false_eq_true]
          tauto
        · -- neither below nor above: the interval is already there
          have heq : iv = y := by
            rw [pairLt_iff] at h₁ h₂
            ext <;> omega
          simp only [h₁, h₂, if_false, List.mem_cons, Bool.false_eq_true]
          rw [heq]
          tauto

/-- The table stays sorted. -/
theorem emplace_sorted (iv : Nat × Nat) : ∀ {ivs : List (Nat × Nat)},
    ivs.Pairwise (fun a b => pairLt a b = true) →
      (emplace iv ivs).Pairwise fun a b => pairLt a b = true := by
  intro ivs
  induction ivs with
  | nil => simp [emplace]
  | cons y ys ih =>
      intro h
      obtain ⟨hy, hys⟩ := List.pairwise_cons.mp h
      unfold emplace
      by_cases h₁ : pairLt iv y = true
      · rw [if_pos h₁]
        refine List.pairwise_cons.mpr ⟨?_, h⟩
        intro z hz
        rcases List.mem_cons.mp hz with heq | hzs
        · rw [heq]
          exact h₁
        · exact pairLt_trans h₁ (hy z hzs)
      · rw [if_neg h₁]
        by_cases h₂ : pairLt y iv = true
        · rw [if_pos h₂]
          refine List.pairwise_cons.mpr ⟨?_, ih hys⟩
          intro z hz
          rcases mem_emplace.mp hz with heq | hzs
          · rw [heq]
            exact h₂
          · exact hy z hzs
        · rw [if_neg h₂]
          exact h

/-- **The lookup of `RocketCoFree` finds the chunk of a pointer.** -/
theorem ChunkInv.findInterval_eq {ivs : List (Nat × Nat)} {T : Tiling Owner} (h : ChunkInv ivs T)
    {c : Nat × Nat} (hc : IsChunk ivs c) {p : Nat} (hlo : c.1 ≤ p) (hhi : p < c.2) :
    findInterval ivs p = some c := by
  obtain ⟨hmem, hpos, hlt⟩ := hc
  have hc2 : c.2 < longMax := by
    rcases h.interval c hmem with hs | h0 | ⟨_, _, h2⟩
    · rw [hs] at hlt
      simp at hlt
    · omega
    · exact h2
  obtain ⟨l₁, l₂, hsplit⟩ := List.append_of_mem hmem
  have hsorted := h.sorted
  rw [hsplit] at hsorted
  obtain ⟨_, hs₂, hbefore⟩ := List.pairwise_append.mp hsorted
  obtain ⟨hafter, _⟩ := List.pairwise_cons.mp hs₂
  have hckey : pairLt c (p, longMax) = true := by
    rw [pairLt_iff]
    simp only
    omega
  -- everything up to the chunk is below the key
  have hfront : ∀ d ∈ l₁ ++ [c], pairLt d (p, longMax) = true := by
    intro d hd
    rcases List.mem_append.mp hd with hd | hd
    · exact pairLt_trans (hbefore d hd c List.mem_cons_self) hckey
    · rw [List.mem_singleton.mp hd]
      exact hckey
  -- and nothing behind it
  have hback : ∀ d ∈ l₂, pairLt d (p, longMax) = false := by
    intro d hd
    have hcd := hafter d hd
    have hdm : d ∈ ivs := by
      rw [hsplit]
      simp [hd]
    rw [← Bool.not_eq_true, pairLt_iff]
    rw [pairLt_iff] at hcd
    simp only
    rcases h.interval d hdm with hs | h0 | ⟨h1, h2, h3⟩
    · rw [hs]
      simp only
      omega
    · omega
    · have hne : c ≠ d := by
        intro heq
        rw [heq] at hcd
        omega
      rcases h.chunks_apart c d ⟨hmem, hpos, hlt⟩ ⟨hdm, h1, by omega⟩ hne with hap | hap <;> omega
  have hne : l₂ ≠ [] := by
    intro hnil
    have hsent := h.sentinel
    rw [hsplit, hnil] at hsent
    have hkey := hfront _ hsent
    rw [pairLt_iff] at hkey
    simp only at hkey
    omega
  have hivs : ivs = (l₁ ++ [c]) ++ l₂ := by
    rw [hsplit]
    simp
  obtain ⟨d, l, hl⟩ := List.exists_cons_of_ne_nil hne
  have hd : pairLt d (p, longMax) = false := hback d (by rw [hl]; exact List.mem_cons_self)
  have htake : ivs.takeWhile (pairLt · (p, longMax)) = l₁ ++ [c] := by
    rw [hivs, List.takeWhile_append_of_pos hfront, hl]
    simp [hd]
  have hdrop : ivs.dropWhile (pairLt · (p, longMax)) = d :: l := by
    rw [hivs, List.dropWhile_append_of_pos hfront, hl]
    simp [hd]
  unfold findInterval
  rw [hdrop, htake]
  simp

/-! ## §2. Merging. -/

/-- **A free block and a user block that meet become one free block.**  `base` is the lower one's
start; which of the two was free does not matter here. -/
theorem Pool.merge {st : RocketCoAlloctor} {T : Tiling Owner} (h : Pool st T) {b x y : Nat}
    (h₁ : ⟨.user, b, x⟩ ∈ T.tiles) (h₂ : ⟨.user, b + x, y⟩ ∈ T.tiles) {c : Nat × Nat}
    (hc : IsChunk st.pointerEffectiveInterval c) (hlo : c.1 ≤ b) (hhi : b + x + y ≤ c.2)
    (hm : isMerge (x + y) = true) :
    ∃ st' T', setBlock2FreeList st b (x + y) = some st' ∧ Pool st' T' ∧
      st'.pointerEffectiveInterval = st.pointerEffectiveInterval ∧
      users T' = users T \ {⟨.user, b, x⟩, ⟨.user, b + x, y⟩} := by
  have hx := T.pos _ h₁
  simp only at hx
  obtain ⟨hs, hlt⟩ := isMerge_slotSized (t := x + y) (by omega) hm
  have hle : x + y ≤ thirdSlot := Nat.le_of_lt hlt
  have hg := h.glue h₁ h₂ hc hlo hhi
  have htile : (⟨.user, b, x + y⟩ : Tile Owner) ∈
      (T.glue ⟨.user, b, x⟩ ⟨.user, b + x, y⟩ h₁ h₂ rfl .user).tiles :=
    Tiling.mem_glue.mpr (Or.inr rfl)
  refine ⟨_, _, setBlock2FreeList_pushed st b hs hle, hg.push htile hs hle, rfl, ?_⟩
  ext t
  simp only [users, Set.mem_ofPred_eq, Set.mem_sdiff, Set.mem_insert_iff, Set.mem_singleton_iff,
    Tiling.mem_relabel, Tiling.mem_glue]
  constructor
  · rintro ⟨hor, hk⟩
    rcases hor with ⟨hold | hnew, hne⟩ | heq
    · obtain ⟨ht, hn₁, hn₂⟩ := hold
      refine ⟨⟨ht, hk⟩, ?_⟩
      intro hor
      rcases hor with heq | heq
      · exact hn₁ heq
      · exact hn₂ heq
    · exact absurd hnew hne
    · rw [heq] at hk
      simp at hk
  · rintro ⟨⟨ht, hk⟩, hn⟩
    refine ⟨Or.inl ⟨Or.inl ⟨ht, fun heq => hn (Or.inl heq), fun heq => hn (Or.inr heq)⟩, ?_⟩, hk⟩
    intro heq
    -- the glued tile is not an old one: it covers the base of both
    have hbase : t = ⟨.user, b, x⟩ := T.eq_of_base ht h₁ (by rw [heq])
    exact hn (Or.inl hbase)

/-- A tile set that was about to lose a tile it does not have. -/
theorem diff_pair {S : Set (Tile Owner)} {t u : Tile Owner} (ht : t ∉ S) :
    insert t S \ {t, u} = S \ {u} ∧ insert t S \ {u, t} = S \ {u} := by
  have hmain : insert t S \ {t, u} = S \ {u} := by
    rw [Set.insert_sdiff_of_mem S (Set.mem_insert t {u}), ← Set.union_singleton, Set.union_comm,
      ← Set.sdiff_sdiff, Set.sdiff_singleton_eq_self ht]
  exact ⟨hmain, by rw [Set.pair_comm, hmain]⟩

/-- A block whose list goes on before it but not behind it. -/
def IsTail (st : RocketCoAlloctor) (a : Nat) : Prop :=
  prevOf st.mem a ≠ 0 ∧ nextOf st.mem a = 0

instance (st : RocketCoAlloctor) (a : Nat) : Decidable (IsTail st a) :=
  inferInstanceAs (Decidable (_ ∧ _))

section Merge

variable {st : RocketCoAlloctor} {T : Tiling Owner} {c : Nat × Nat}

/-- The free block left its list, or the program dereferenced a null link. -/
theorem Pool.take (h : Pool st T) {a k : Nat} (ht : ⟨.free, a, k⟩ ∈ T.tiles) :
    ∃ st', moveToFreeList st a k = (if IsTail st a then none else some st') ∧
      Pool st' (T.relabel ⟨.free, a, k⟩ ht .user) ∧
      st'.pointerEffectiveInterval = st.pointerEffectiveInterval := by
  refine ⟨unlinked st a k, h.moveToFreeList_eq ht, h.unlink ht, ?_⟩
  unfold unlinked
  dsimp only

/-- The other tiles stay where they are. -/
theorem mem_relabel_other {t u : Tile Owner} (ht : t ∈ T.tiles) (hu : u ∈ T.tiles)
    (hne : u.kind ≠ t.kind) (k : Owner) : u ∈ (T.relabel t ht k).tiles := by
  refine Or.inl ⟨hu, ?_⟩
  intro heq
  exact hne (congrArg Tile.kind (Set.mem_singleton_iff.mp heq))

/-- **Merging with the free block below.** -/
theorem Pool.merge_left (h : Pool st T) {b k L : Nat} (hf : ⟨.free, b, k⟩ ∈ T.tiles)
    (hu : ⟨.user, b + k, L⟩ ∈ T.tiles) (hc : IsChunk st.pointerEffectiveInterval c)
    (hlo : c.1 ≤ b) (hhi : b + k + L ≤ c.2) (hm : isMerge (k + L) = true)
    (hbig : k + L < sizeMod) :
    ∃ st' T', mergeData st b k (b + k) L .leftNeedModified =
        (if IsTail st b then none else some (st', true)) ∧ Pool st' T' ∧
      st'.pointerEffectiveInterval = st.pointerEffectiveInterval ∧
      users T' = users T \ {⟨.user, b + k, L⟩} := by
  have h₁ : (⟨.user, b, k⟩ : Tile Owner) ∈ (T.relabel ⟨.free, b, k⟩ hf .user).tiles := Or.inr rfl
  have h₂ : (⟨.user, b + k, L⟩ : Tile Owner) ∈ (T.relabel ⟨.free, b, k⟩ hf .user).tiles :=
    mem_relabel_other hf hu (by simp) .user
  obtain ⟨st₁, htake, hpool₁, hint₁⟩ := h.take hf
  obtain ⟨st', T', hset, hpool, hint, husers⟩ :=
    hpool₁.merge h₁ h₂ (hint₁ ▸ hc) hlo hhi hm
  refine ⟨st', T', ?_, hpool, hint.trans hint₁, ?_⟩
  · unfold mergeData
    simp only [Nat.mod_eq_of_lt hbig, hm, if_true, htake]
    by_cases htail : IsTail st b
    · simp only [htail, if_true]
    · simp only [htail, if_false, hset]
  · rw [husers, users_relabel_to hf (by simp)]
    exact (diff_pair (not_users hf (by simp) k)).1

/-- **Merging with the free block above.** -/
theorem Pool.merge_right (h : Pool st T) {p k L : Nat} (hu : ⟨.user, p, L⟩ ∈ T.tiles)
    (hf : ⟨.free, p + L, k⟩ ∈ T.tiles) (hc : IsChunk st.pointerEffectiveInterval c)
    (hlo : c.1 ≤ p) (hhi : p + L + k ≤ c.2) (hm : isMerge (L + k) = true)
    (hbig : L + k < sizeMod) :
    ∃ st' T', mergeData st p L (p + L) k .rightNeedModified =
        (if IsTail st (p + L) then none else some (st', true)) ∧ Pool st' T' ∧
      st'.pointerEffectiveInterval = st.pointerEffectiveInterval ∧
      users T' = users T \ {⟨.user, p, L⟩} := by
  have h₂ : (⟨.user, p + L, k⟩ : Tile Owner) ∈ (T.relabel ⟨.free, p + L, k⟩ hf .user).tiles :=
    Or.inr rfl
  have h₁ : (⟨.user, p, L⟩ : Tile Owner) ∈ (T.relabel ⟨.free, p + L, k⟩ hf .user).tiles :=
    mem_relabel_other hf hu (by simp) .user
  obtain ⟨st₁, htake, hpool₁, hint₁⟩ := h.take hf
  obtain ⟨st', T', hset, hpool, hint, husers⟩ :=
    hpool₁.merge h₁ h₂ (hint₁ ▸ hc) hlo hhi hm
  refine ⟨st', T', ?_, hpool, hint.trans hint₁, ?_⟩
  · unfold mergeData
    simp only [Nat.mod_eq_of_lt hbig, hm, if_true, htake]
    by_cases htail : IsTail st (p + L)
    · simp only [htail, if_true]
    · simp only [htail, if_false, hset]
  · rw [husers, users_relabel_to hf (by simp)]
    exact (diff_pair (not_users hf (by simp) k)).2

end Merge

/-! ## §3. `RocketCoFree`. -/

/-- `RocketCoFree(ptr, ·)` goes into the merge with the block below. -/
def MergesLeft (st : RocketCoAlloctor) (item : Nat × Nat) (ptr len : Nat) : Prop :=
  looksLeft st item ptr = true ∧
    isMerge ((itemLengthOf st.mem (leftNode ptr) + len) % sizeMod) = true

/-- `RocketCoFree(ptr, ·)` would go into the merge with the block above. -/
def MergesRight (st : RocketCoAlloctor) (item : Nat × Nat) (ptr len : Nat) : Prop :=
  looksRight st item ptr len = true ∧
    isMerge ((len + itemLengthOf st.mem (ptr + len)) % sizeMod) = true

instance (st : RocketCoAlloctor) (item : Nat × Nat) (ptr len : Nat) :
    Decidable (MergesLeft st item ptr len) := inferInstanceAs (Decidable (_ ∧ _))

instance (st : RocketCoAlloctor) (item : Nat × Nat) (ptr len : Nat) :
    Decidable (MergesRight st item ptr len) := inferInstanceAs (Decidable (_ ∧ _))

/-- The merge takes the tail of a longer list off that list. -/
def MergesTail (st : RocketCoAlloctor) (item : Nat × Nat) (ptr len : Nat) : Prop :=
  (MergesLeft st item ptr len ∧ IsTail st (ptr - itemLengthOf st.mem (leftNode ptr))) ∨
    (¬ MergesLeft st item ptr len ∧ MergesRight st item ptr len ∧ IsTail st (ptr + len))

instance (st : RocketCoAlloctor) (item : Nat × Nat) (ptr len : Nat) :
    Decidable (MergesTail st item ptr len) := inferInstanceAs (Decidable (_ ∨ _))

theorem isTail_congr {st st' : RocketCoAlloctor} (h : st'.mem = st.mem) {a : Nat} :
    IsTail st' a ↔ IsTail st a := by
  unfold IsTail
  rw [h]

/-- A merge with the block below takes the tail of a list if that block is one, ... -/
theorem mergesTail_left {st : RocketCoAlloctor} {item : Nat × Nat} {ptr len : Nat}
    (h : MergesLeft st item ptr len) :
    MergesTail st item ptr len ↔ IsTail st (ptr - itemLengthOf st.mem (leftNode ptr)) := by
  constructor
  · intro hor
    rcases hor with ⟨_, hT⟩ | ⟨hn, _⟩
    · exact hT
    · exact absurd h hn
  · intro hT
    exact Or.inl ⟨h, hT⟩

/-- ... and so does a merge with the block above. -/
theorem mergesTail_right {st : RocketCoAlloctor} {item : Nat × Nat} {ptr len : Nat}
    (hl : ¬ MergesLeft st item ptr len) (hr : MergesRight st item ptr len) :
    MergesTail st item ptr len ↔ IsTail st (ptr + len) := by
  constructor
  · intro hor
    rcases hor with ⟨hm, _⟩ | ⟨_, _, hT⟩
    · exact absurd hm hl
    · exact hT
  · intro hT
    exact Or.inr ⟨hl, hr, hT⟩

/-- Without a merge nothing is taken. -/
theorem mergesTail_none {st : RocketCoAlloctor} {item : Nat × Nat} {ptr len : Nat}
    (hl : ¬ MergesLeft st item ptr len) (hr : ¬ MergesRight st item ptr len) :
    ¬ MergesTail st item ptr len := by
  intro hor
  rcases hor with ⟨hm, _⟩ | ⟨_, hm, _⟩
  · exact hl hm
  · exact hr hm

section Free

variable {st : RocketCoAlloctor} {T : Tiling Owner} {c : Nat × Nat}

/-- The length stored at the end of a free block that ends at `ptr`. -/
theorem Pool.left_length (h : Pool st T) {b k ptr : Nat} (hf : ⟨.free, b, k⟩ ∈ T.tiles)
    (hend : b + k = ptr) : itemLengthOf st.mem (leftNode ptr) = k := by
  obtain ⟨cur, lost, hp⟩ := h
  obtain ⟨hs, _, _, hok⟩ := hp.lists.free _ hf rfl
  have h512 := hs.le
  simp only at h512
  have haddr : leftNode ptr = b + (k - nodeSize) := by
    unfold leftNode nodeSize
    omega
  rw [haddr]
  exact hok.trailer

/-- A free block has its length in its own first node. -/
theorem Pool.right_length (h : Pool st T) {a k : Nat} (hf : ⟨.free, a, k⟩ ∈ T.tiles) :
    itemLengthOf st.mem a = k := by
  obtain ⟨cur, lost, hp⟩ := h
  exact (hp.lists.free _ hf rfl).2.2.2.length

/-- A free block has the length of a slot. -/
theorem Pool.free_sized (h : Pool st T) {a k : Nat} (hf : ⟨.free, a, k⟩ ∈ T.tiles) :
    SlotSized k ∧ k ≤ thirdSlot := by
  obtain ⟨cur, lost, hp⟩ := h
  obtain ⟨hs, hle, _, _⟩ := hp.lists.free _ hf rfl
  exact ⟨hs, hle⟩

theorem Pool.chunkInv (h : Pool st T) : ChunkInv st.pointerEffectiveInterval T := by
  obtain ⟨cur, lost, hp⟩ := h
  exact hp.chunks

/-- The total is refused: nothing happens. -/
theorem mergeData_refused (st : RocketCoAlloctor) (lhs lenA rhs lenB : Nat) (flag : LeftOrRightMod)
    (h : isMerge ((lenA + lenB) % sizeMod) = false) :
    mergeData st lhs lenA rhs lenB flag = some (st, false) := by
  unfold mergeData
  simp only [h, Bool.false_eq_true, if_false]

/-- The total is accepted: the merge takes place or dereferences a null link. -/
theorem mergeData_accepted (st : RocketCoAlloctor) (lhs lenA rhs lenB : Nat)
    (flag : LeftOrRightMod) (h : isMerge ((lenA + lenB) % sizeMod) = true) :
    mergeData st lhs lenA rhs lenB flag = none ∨
      ∃ st', mergeData st lhs lenA rhs lenB flag = some (st', true) := by
  unfold mergeData
  simp only [h, if_true]
  cases flag with
  | leftNeedModified =>
      cases moveToFreeList st lhs lenA with
      | none => simp
      | some st₁ => cases hs : setBlock2FreeList st₁ lhs ((lenA + lenB) % sizeMod) <;> simp [hs]
  | rightNeedModified =>
      cases moveToFreeList st rhs lenB with
      | none => simp
      | some st₁ => cases hs : setBlock2FreeList st₁ lhs ((lenA + lenB) % sizeMod) <;> simp [hs]

/-- The allocator once the marks of the block `[ptr, ptr + len)` are erased. -/
def unmarked (st : RocketCoAlloctor) (ptr len : Nat) : RocketCoAlloctor :=
  (st.eraseMark ptr).eraseMark (ptr + (len - 1))

/-- The two tests of `RocketCoFree` read no mark of the block itself. -/
theorem looks_unmarked (st : RocketCoAlloctor) (item : Nat × Nat) {ptr len : Nat}
    (hp : 0 < ptr) (hl : 0 < len) :
    looksLeft (unmarked st ptr len) item ptr = looksLeft st item ptr ∧
      looksRight (unmarked st ptr len) item ptr len = looksRight st item ptr len := by
  unfold looksLeft looksRight unmarked RocketCoAlloctor.eraseMark
  simp only [show ptr - 1 ≠ ptr + (len - 1) by omega, show ptr - 1 ≠ ptr by omega,
    show ptr + len ≠ ptr + (len - 1) by omega, show ptr + len ≠ ptr by omega, if_false, and_self]

/-- What `RocketCoFree` does with the result of its second merge. -/
def settled (r : Option (RocketCoAlloctor × Bool)) (ptr len : Nat) : Option RocketCoAlloctor :=
  match r with
  | none => none
  | some (st, true) => some st
  | some (st, false) => setBlock2FreeList st ptr len

/-- **The three ways through `RocketCoFree`**: merge below, merge above, or neither. -/
theorem rocketCoFree_eq (st : RocketCoAlloctor) {ptr n L : Nat} (hL : dataAlignment n = L)
    (hp : 0 < ptr) (hl : 0 < L) (hfind : findInterval st.pointerEffectiveInterval ptr = some c) :
    rocketCoFree st ptr n =
      if MergesLeft st c ptr L then
        (mergeData (unmarked st ptr L)
          ((ptr + (sizeMod - itemLengthOf st.mem (leftNode ptr))) % sizeMod)
          (itemLengthOf st.mem (leftNode ptr)) ptr L .leftNeedModified).map Prod.fst
      else if MergesRight st c ptr L then
        (mergeData (unmarked st ptr L) ptr L (ptr + L) (itemLengthOf st.mem (ptr + L))
          .rightNeedModified).map Prod.fst
      else setBlock2FreeList (unmarked st ptr L) ptr L := by
  obtain ⟨hlooksL, hlooksR⟩ := looks_unmarked st c hp hl
  have hmem : (unmarked st ptr L).mem = st.mem := rfl
  have hst : (st.eraseMark ptr).eraseMark (ptr + (L - 1)) = unmarked st ptr L := rfl
  unfold rocketCoFree
  simp only [hfind, hL, hst, hlooksL, hmem]
  -- what the first test leaves for the second
  have hright : settled (if looksRight (unmarked st ptr L) c ptr L then
        mergeData (unmarked st ptr L) ptr L (ptr + L)
          (itemLengthOf (unmarked st ptr L).mem (ptr + L)) .rightNeedModified
        else some (unmarked st ptr L, false)) ptr L =
      if MergesRight st c ptr L then
        (mergeData (unmarked st ptr L) ptr L (ptr + L) (itemLengthOf st.mem (ptr + L))
          .rightNeedModified).map Prod.fst
      else setBlock2FreeList (unmarked st ptr L) ptr L := by
    rw [hlooksR, hmem]
    by_cases hlook : looksRight st c ptr L = true
    · cases hm : isMerge ((L + itemLengthOf st.mem (ptr + L)) % sizeMod) with
      | false =>
          have hno : ¬ MergesRight st c ptr L := by
            intro hmr
            exact absurd hmr.2 (by rw [hm]; simp)
          rw [if_pos hlook, if_neg hno, mergeData_refused _ _ _ _ _ _ hm]
          rfl
      | true =>
          have hyes : MergesRight st c ptr L := ⟨hlook, hm⟩
          rw [if_pos hlook, if_pos hyes]
          rcases mergeData_accepted (unmarked st ptr L) ptr L (ptr + L) _ .rightNeedModified hm
            with hnone | ⟨st', hsome⟩
          · rw [hnone]
            rfl
          · rw [hsome]
            rfl
    · have hno : ¬ MergesRight st c ptr L := fun hmr => hlook hmr.1
      rw [if_neg hlook, if_neg hno]
      rfl
  by_cases hlook : looksLeft st c ptr = true
  · cases hm : isMerge ((itemLengthOf st.mem (leftNode ptr) + L) % sizeMod) with
    | false =>
        have hno : ¬ MergesLeft st c ptr L := by
          intro hml
          exact absurd hml.2 (by rw [hm]; simp)
        rw [if_pos hlook, if_neg hno, mergeData_refused _ _ _ _ _ _ hm]
        exact hright
    | true =>
        have hyes : MergesLeft st c ptr L := ⟨hlook, hm⟩
        rw [if_pos hlook, if_pos hyes]
        rcases mergeData_accepted (unmarked st ptr L)
          ((ptr + (sizeMod - itemLengthOf st.mem (leftNode ptr))) % sizeMod)
          (itemLengthOf st.mem (leftNode ptr)) ptr L .leftNeedModified hm with hnone | ⟨st', hsome⟩
        · rw [hnone]
          rfl
        · rw [hsome]
          rfl
  · have hno : ¬ MergesLeft st c ptr L := fun hml => hlook hml.1
    rw [if_neg hlook, if_neg hno]
    exact hright

/-- **`RocketCoFree`** of an outstanding block, when the neighbour it merges with, if any, really
is free: the block leaves user hands, nothing else does. -/
theorem Pool.free_spec (h : Pool st T) {ptr n L : Nat} (hL : dataAlignment n = L)
    (hu : ⟨.user, ptr, L⟩ ∈ T.tiles) (hs : SlotSized L) (hle : L ≤ thirdSlot)
    (hc : IsChunk st.pointerEffectiveInterval c) (hlo : c.1 ≤ ptr) (hhi : ptr + L ≤ c.2)
    (hleft : MergesLeft st c ptr L → ∃ t ∈ T.tiles, t.kind = .free ∧ t.Covers (ptr - 1))
    (hright : ¬ MergesLeft st c ptr L → MergesRight st c ptr L →
      ∃ t ∈ T.tiles, t.kind = .free ∧ t.Covers (ptr + L) ∧ ptr + L < c.2) :
    ∃ st' T', rocketCoFree st ptr n = (if MergesTail st c ptr L then none else some st') ∧
      Pool st' T' ∧ st'.pointerEffectiveInterval = st.pointerEffectiveInterval ∧
      users T' = users T \ {⟨.user, ptr, L⟩} := by
  have hLpos := hs.pos
  have hbounds := h.chunkInv.bounds hu
  simp only at hbounds
  have hfind : findInterval st.pointerEffectiveInterval ptr = some c :=
    h.chunkInv.findInterval_eq hc hlo (by omega)
  have hmem : (unmarked st ptr L).mem = st.mem := rfl
  have hint : (unmarked st ptr L).pointerEffectiveInterval = st.pointerEffectiveInterval := rfl
  have hpool : Pool (unmarked st ptr L) T := h.mark rfl rfl rfl rfl rfl
  rw [rocketCoFree_eq st hL hbounds.1 hLpos hfind]
  by_cases hml : MergesLeft st c ptr L
  · -- the block below is taken off its list
    obtain ⟨t, ht, hk, hcov⟩ := hleft hml
    obtain ⟨k, b, len⟩ := t
    simp only at hk
    subst hk
    have hend : b + len = ptr := T.ends_at hu ht hbounds.1 hcov
    have hlen : itemLengthOf st.mem (leftNode ptr) = len := h.left_length ht hend
    obtain ⟨_, hlek⟩ := h.free_sized ht
    have hbig : len + L < sizeMod := by
      unfold thirdSlot at hle hlek
      unfold sizeMod
      omega
    obtain ⟨hlook, hmerge⟩ := id hml
    rw [hlen, Nat.mod_eq_of_lt hbig] at hmerge
    have hne : ptr ≠ c.1 := by
      unfold looksLeft at hlook
      simp only [Bool.and_eq_true, decide_eq_true_eq] at hlook
      exact hlook.1
    have hin := h.chunkInv.within_of_mem ht hc hcov (by omega) (by omega)
    simp only at hin
    -- the length is subtracted modulo 2^64, which comes to `ptr - len`
    have haddr : (ptr + (sizeMod - len)) % sizeMod = b := by
      unfold sizeMod
      unfold longMax at hbounds
      omega
    subst hend
    obtain ⟨st', T', hres, hpool', hint', husers⟩ :=
      hpool.merge_left ht hu hc hin.1 (by omega) hmerge hbig
    refine ⟨st', T', ?_, hpool', hint'.trans hint, husers⟩
    rw [if_pos hml, hlen, haddr, hres]
    have htail : MergesTail st c (b + len) L ↔ IsTail (unmarked st (b + len) L) b := by
      rw [mergesTail_left hml, hlen, Nat.add_sub_cancel, isTail_congr hmem]
    by_cases hT : IsTail (unmarked st (b + len) L) b
    · rw [if_pos hT, if_pos (htail.mpr hT)]
      rfl
    · rw [if_neg hT, if_neg (mt htail.mp hT)]
      rfl
  · rw [if_neg hml]
    by_cases hmr : MergesRight st c ptr L
    · -- the block above is taken off its list
      obtain ⟨t, ht, hk, hcov, hlt⟩ := hright hml hmr
      obtain ⟨k, a, len⟩ := t
      simp only at hk
      subst hk
      have hstart : a = ptr + L := T.begins_at hu ht hcov
      subst hstart
      have hlen : itemLengthOf st.mem (ptr + L) = len := h.right_length ht
      obtain ⟨_, hlek⟩ := h.free_sized ht
      have hbig : L + len < sizeMod := by
        unfold thirdSlot at hle hlek
        unfold sizeMod
        omega
      obtain ⟨_, hmerge⟩ := id hmr
      rw [hlen, Nat.mod_eq_of_lt hbig] at hmerge
      have hin := h.chunkInv.within_of_mem ht hc hcov (by omega) hlt
      simp only at hin
      obtain ⟨st', T', hres, hpool', hint', husers⟩ :=
        hpool.merge_right hu ht hc hlo hin.2 hmerge hbig
      refine ⟨st', T', ?_, hpool', hint'.trans hint, husers⟩
      rw [if_pos hmr, hlen, hres]
      have htail : MergesTail st c ptr L ↔ IsTail (unmarked st ptr L) (ptr + L) := by
        rw [mergesTail_right hml hmr, isTail_congr hmem]
      by_cases hT : IsTail (unmarked st ptr L) (ptr + L)
      · rw [if_pos hT, if_pos (htail.mpr hT)]
        rfl
      · rw [if_neg hT, if_neg (mt htail.mp hT)]
        rfl
    · -- no merge: the block goes on its own list
      refine ⟨_, _, ?_, hpool.push hu hs hle, rfl, users_relabel_from hu (by simp)⟩
      rw [if_neg hmr, if_neg (mergesTail_none hml hmr)]
      exact setBlock2FreeList_pushed _ ptr hs hle

end Free

end RocketCo.MemoryPool
