/-
  RocketCo.MemoryPool.Refill — `ChunkAlloc`, `Refill` and `RocketCoMalloc` over the tiling.

  `chunkAlloc_spec` collects the ways through `ChunkAlloc`; `Refill` then splits the run it gets
  into the caller's block and a new free list.  The list it heads used to be empty, but
  `ChunkAlloc` may just have recycled a block onto it: that chain is dropped.
-/
import RocketCo.MemoryPool.Grow

namespace RocketCo.MemoryPool

open RocketCo.Lib

/-! ## §1. `ChunkAlloc`. -/

/-- The list that is found is not empty, and is one of those that were looked at. -/
theorem findLarger_spec {st : RocketCoAlloctor} : ∀ {k i j : Nat},
    findLarger st i k = some j → i ≤ j ∧ j < i + k ∧ st.freeList j ≠ 0 := by
  intro k
  induction k with
  | zero =>
      intro i j h
      simp [findLarger] at h
  | succ k ih =>
      intro i j h
      unfold findLarger at h
      by_cases h0 : st.freeList i ≠ 0
      · rw [if_pos h0] at h
        have hij : i = j := by simpa using h
        rw [← hij]
        exact ⟨Nat.le_refl i, by omega, h0⟩
      · rw [if_neg h0] at h
        obtain ⟨h1, h2, h3⟩ := ih h
        exact ⟨by omega, by omega, h3⟩

theorem findLarger_congr {st st' : RocketCoAlloctor} : ∀ {k i : Nat},
    (∀ j, i ≤ j → st'.freeList j = st.freeList j) → findLarger st' i k = findLarger st i k := by
  intro k
  induction k with
  | zero =>
      intro i _
      rfl
  | succ k ih =>
      intro i h
      unfold findLarger
      rw [h i (Nat.le_refl i), ih fun j hj => h j (by omega)]

/-- Shorter blocks do not stand on later lists. -/
theorem findFreeListIndex_mono {R L : Nat} (hR : SlotSized R) (hL : SlotSized L) (hle : R ≤ L)
    (hmax : L ≤ thirdSlot) : findFreeListIndex R ≤ findFreeListIndex L := by
  by_contra hlt
  have hlen := slotLength_lt (findFreeListIndex_lt hR (Nat.le_trans hle hmax))
    (Nat.lt_of_not_le hlt)
  rw [slotLength_findFreeListIndex hL hmax,
    slotLength_findFreeListIndex hR (Nat.le_trans hle hmax)] at hlen
  omega

/-- Slot lengths on one list are equal. -/
theorem findFreeListIndex_inj {R L : Nat} (hR : SlotSized R) (hs : SlotSized L)
    (hRle : R ≤ thirdSlot) (hle : L ≤ thirdSlot) (h : findFreeListIndex R = findFreeListIndex L) :
    R = L := by
  rw [← slotLength_findFreeListIndex hR hRle, h, slotLength_findFreeListIndex hs hle]

section ChunkAlloc

variable {st : RocketCoAlloctor} {T : Tiling Owner} {L : Nat} {cur : Nat → List Nat}
  {lost : Nat → List (List Nat)}

/-- The run of `k` blocks at `chunk` is new in user hands, and nothing else changed hands. -/
def Granted (T T' : Tiling Owner) (chunk n : Nat) : Prop :=
  (⟨.user, chunk, n⟩ : Tile Owner) ∉ users T ∧ users T' = insert ⟨.user, chunk, n⟩ (users T)

/-- **`ChunkAlloc` with room** for more than one block; with room for all, it grants all. -/
theorem PoolInv.chunkAlloc_room (hp : PoolInv st T cur lost) (hs : SlotSized L)
    (hlt : L < st.endfree - st.startfree) (fuel : Nat) (malloc : Nat → Option Nat) :
    ∃ st' k T', chunkAlloc (fuel + 1) malloc st L refillNumber = some (st', st.startfree, k) ∧
      0 < st.startfree ∧ 1 ≤ k ∧
      (L * refillNumber < st.endfree - st.startfree → k = refillNumber) ∧
      PoolInv st' T' cur lost ∧ Granted T T' st.startfree (L * k) := by
  obtain ⟨ht, hRs⟩ := hp.unused_tile (by omega)
  have hLpos := hs.pos
  have hbound := (hp.chunks.bounds ht).1
  simp only at hbound
  unfold chunkAlloc
  by_cases hall : L * refillNumber < st.endfree - st.startfree
  · -- room for all twenty
    unfold refillNumber at hall ⊢
    have hleft : SlotSized (st.endfree - st.startfree - L * 20) := by
      have := hRs.sub_run hs (by omega)
      rwa [Nat.mul_comm] at this
    obtain ⟨T', hpool, _, hnot, husers⟩ :=
      hp.carve (n := L * 20) (by omega) (by omega) (fun _ => hleft)
    refine ⟨_, 20, T', ?_, hbound, by omega, fun _ => rfl, hpool, fun hin => hnot hin.1, husers⟩
    simp only [hall, if_true]
  · -- as many as fit
    have hdiv : L * ((st.endfree - st.startfree) / L) + (st.endfree - st.startfree) % L =
        st.endfree - st.startfree := Nat.div_add_mod _ _
    have hk : 1 ≤ (st.endfree - st.startfree) / L := Nat.div_pos (Nat.le_of_lt hlt) hLpos
    have hkL : L * 1 ≤ L * ((st.endfree - st.startfree) / L) := Nat.mul_le_mul_left L hk
    obtain ⟨T', hpool, _, hnot, husers⟩ :=
      hp.carve (n := L * ((st.endfree - st.startfree) / L)) (by omega) (by omega) (by
        intro hrest
        have hmod : st.endfree - st.startfree - L * ((st.endfree - st.startfree) / L) =
            (st.endfree - st.startfree) % L := by omega
        rw [hmod]
        exact hRs.mod hs hlt (by omega))
    refine ⟨_, _, T', ?_, hbound, hk, fun h => absurd h hall, hpool, fun hin => hnot hin.1, husers⟩
    simp only [hall, hlt, if_true, if_false]

/-- The allocator after `malloc` answered `start` to a request for `n` bytes. -/
def afterMalloc (st : RocketCoAlloctor) (start n : Nat) : RocketCoAlloctor :=
  { st with
    startfree := start
    resourcePointers := st.resourcePointers ++ [start]
    pointerEffectiveInterval := emplace (start, start + n) st.pointerEffectiveInterval }

/-- The last branch of `ChunkAlloc`, once the rest of the region is recycled. -/
def newRegion (fuel : Nat) (answer : Option Nat) (st : RocketCoAlloctor) (L number : Nat) :
    Option (RocketCoAlloctor × Nat × Nat) :=
  let bytesToGet := 2 * (L * number)
  let start := answer.getD 0
  let st := afterMalloc st start bytesToGet
  if start = 0 then
    let i := findFreeListIndex L + 1
    match findLarger st i (slotCount - i) with
    | some i =>
        match index2SlotLength i with
        | none => none
        | some slotLen =>
            let block := st.freeList i
            let st := { st.setFreeList i (nextOf st.mem block) with
              startfree := block
              endfree := block + slotLen }
            chunkAlloc fuel (fun _ => answer) st L number
    | none => some ({ st with endfree := 0 }, 0, number)
  else
    chunkAlloc fuel (fun _ => answer) { st with endfree := start + bytesToGet } L number

/-- Without room the leftover is put away, and a new region is asked for. -/
theorem chunkAlloc_grow {st st₁ : RocketCoAlloctor} {L number : Nat} (fuel : Nat)
    (answer : Option Nat) (hall : ¬ L * number < st.endfree - st.startfree)
    (hroom : ¬ L < st.endfree - st.startfree)
    (hleft : (if 0 < st.endfree - st.startfree then useLeftover st (st.endfree - st.startfree)
      else some st) = some st₁) :
    chunkAlloc (fuel + 1) (fun _ => answer) st L number = newRegion fuel answer st₁ L number := by
  unfold chunkAlloc
  simp only [hall, hroom, if_false, hleft]
  rfl

/-- When `malloc` fails and `ChunkAlloc` takes the head of a longer list instead, nothing stands
behind that head: its successor would keep a back link to it. -/
def SafeFallback (st : RocketCoAlloctor) (L : Nat) (answer : Option Nat) : Prop :=
  answer = none → st.freeList (findFreeListIndex L) = 0 → st.endfree - st.startfree ≤ L →
    ∀ i ∈ findLarger st (findFreeListIndex L + 1) (slotCount - (findFreeListIndex L + 1)),
      nextOf st.mem (st.freeList i) = 0

instance (st : RocketCoAlloctor) (L : Nat) (answer : Option Nat) :
    Decidable (SafeFallback st L answer) :=
  inferInstanceAs (Decidable (_ → _ → _ → ∀ _ ∈ _, _))

/-- **A new region**, or a null result when neither a chunk nor a longer block is to be had.  The
lists up to that of the request stay as they are, and no block is dropped. -/
theorem PoolInv.newRegion_spec (hp : PoolInv st T cur lost) (hs : SlotSized L)
    (hle : L ≤ thirdSlot) (hempty : st.startfree = st.endfree) {answer : Option Nat}
    (hfresh : ∀ a, answer = some a →
      FreshRegion st.pointerEffectiveInterval a (2 * (L * refillNumber)))
    (hfall : answer = none → ∀ i,
      findLarger st (findFreeListIndex L + 1) (slotCount - (findFreeListIndex L + 1)) = some i →
        nextOf st.mem (st.freeList i) = 0) (fuel : Nat) :
    ∃ st' chunk k T' cur',
      newRegion (fuel + 1) answer st L refillNumber = some (st', chunk, k) ∧
      PoolInv st' T' cur' lost ∧ (∀ j, j ≤ findFreeListIndex L → cur' j = cur j) ∧
      (answer ≠ none → k = refillNumber) ∧
      ((chunk = 0 ∧ answer = none ∧ users T' = users T) ∨
        (0 < chunk ∧ 1 ≤ k ∧ Granted T T' chunk (L * k))) := by
  have hLpos := hs.pos
  unfold newRegion
  cases answer with
  | some a =>
      -- a new chunk
      have hf := hfresh a rfl
      obtain ⟨T₂, hpool₂, husers₂⟩ := hp.addChunk hempty hf hs.chunk (st.resourcePointers ++ [a])
      have ha : a ≠ 0 := by
        have := hf.1
        omega
      simp only [Option.getD_some, ha, if_false]
      obtain ⟨st', k, T', hres, hpos, hk, hall, hpool, hnot, husers⟩ :=
        hpool₂.chunkAlloc_room hs (by simp only [refillNumber]; omega) fuel (fun _ => some a)
      refine ⟨st', a, k, T', cur, hres, hpool, fun _ _ => rfl, ?_, Or.inr ⟨hpos, hk, ?_, ?_⟩⟩
      · intro _
        refine hall ?_
        simp only [refillNumber]
        omega
      · rw [husers₂] at hnot
        exact hnot
      · rw [husers, husers₂]
  | none =>
      have hlarger : findLarger (afterMalloc st 0 (2 * (L * refillNumber)))
          (findFreeListIndex L + 1) (slotCount - (findFreeListIndex L + 1)) =
          findLarger st (findFreeListIndex L + 1) (slotCount - (findFreeListIndex L + 1)) :=
        findLarger_congr fun _ _ => rfl
      simp only [Option.getD_none, if_true, hlarger]
      cases hfind : findLarger st (findFreeListIndex L + 1)
          (slotCount - (findFreeListIndex L + 1)) with
      | none =>
          -- nothing to fall back on
          refine ⟨_, 0, refillNumber, T, cur, rfl, ?_, fun _ _ => rfl, fun _ => rfl,
            Or.inl ⟨rfl, trivial, rfl⟩⟩
          exact hp.exhausted hempty _ _
      | some i =>
          -- the head of a longer list becomes the region
          obtain ⟨hlo, hhi, hne⟩ := findLarger_spec hfind
          have hlast : nextOf st.mem (st.freeList i) = 0 := hfall rfl i hfind
          obtain ⟨T₂, hpool₂, husers₂⟩ :=
            hp.fallBack hempty hne hlast (0 + 2 * (L * refillNumber)) (st.resourcePointers ++ [0])
          have hi : i < slotCount := by omega
          have hlt : L < slotLength i := by
            rw [← slotLength_findFreeListIndex hs hle]
            exact slotLength_lt hi (by omega)
          have hnext : nextOf (afterMalloc st 0 (2 * (L * refillNumber))).mem
              ((afterMalloc st 0 (2 * (L * refillNumber))).freeList i) = 0 := hlast
          simp only [index2SlotLength_eq_slotLength hi, hnext]
          obtain ⟨st', k, T', hres, hpos, hk, _, hpool, hnot, husers⟩ :=
            hpool₂.chunkAlloc_room hs (by simp only [Nat.add_sub_cancel_left]; exact hlt) fuel
              (fun _ => none)
          refine ⟨st', st.freeList i, k, T', _, hres, hpool, ?_, fun h => absurd rfl h,
            Or.inr ⟨hpos, hk, ?_, ?_⟩⟩
          · intro j hj
            exact setChain_other cur _ (by omega)
          · rw [husers₂] at hnot
            exact hnot
          · rw [husers, husers₂]

/-- **The ways through `ChunkAlloc`**: a run out of the region, after a new chunk or the fallback
where there was no room, or a null result.  It drops no block, and leaves one on the list of the
request exactly when the region was as long as the request. -/
theorem PoolInv.chunkAlloc_spec (hp : PoolInv st T cur lost) (hs : SlotSized L)
    (hle : L ≤ thirdSlot) (h0 : st.freeList (findFreeListIndex L) = 0) {answer : Option Nat}
    (hfresh : ∀ a, answer = some a →
      FreshRegion st.pointerEffectiveInterval a (2 * (L * refillNumber)))
    (hfall : SafeFallback st L answer) :
    ∃ st' chunk k T' cur',
      chunkAlloc 2 (fun _ => answer) st L refillNumber = some (st', chunk, k) ∧
      PoolInv st' T' cur' lost ∧
      (cur' (findFreeListIndex L) = [] ↔ st.endfree - st.startfree ≠ L) ∧
      (answer ≠ none → st.endfree - st.startfree ≤ L → k = refillNumber) ∧
      ((chunk = 0 ∧ answer = none ∧ users T' = users T) ∨
        (0 < chunk ∧ 1 ≤ k ∧ Granted T T' chunk (L * k))) := by
  have hown : cur (findFreeListIndex L) = [] := hp.lists.cur_of_zero h0
  by_cases hroom : L < st.endfree - st.startfree
  · obtain ⟨st', k, T', hres, hpos, hk, _, hpool, hgr⟩ :=
      hp.chunkAlloc_room hs hroom 1 (fun _ => answer)
    refine ⟨st', st.startfree, k, T', cur, hres, hpool, iff_of_true hown (by omega), ?_,
      Or.inr ⟨hpos, hk, hgr⟩⟩
    intro _ hnot
    omega
  · have hLpos := hs.pos
    have hno : ¬ L * refillNumber < st.endfree - st.startfree := by
      unfold refillNumber
      omega
    -- the rest of the region is recycled; longer lists do not notice
    have hleft : ∃ st₁ T₁ cur₁,
        (if 0 < st.endfree - st.startfree then useLeftover st (st.endfree - st.startfree)
          else some st) = some st₁ ∧ PoolInv st₁ T₁ cur₁ lost ∧ users T₁ = users T ∧
        st₁.startfree = st₁.endfree ∧
        st₁.pointerEffectiveInterval = st.pointerEffectiveInterval ∧
        (cur₁ (findFreeListIndex L) = [] ↔ st.endfree - st.startfree ≠ L) ∧
        ∀ j, findFreeListIndex L < j → st₁.freeList j = st.freeList j ∧
          (st.freeList j ≠ 0 →
            nextOf st₁.mem (st.freeList j) = nextOf st.mem (st.freeList j)) := by
      by_cases hR : 0 < st.endfree - st.startfree
      · obtain ⟨_, hRs⟩ := hp.unused_tile (by omega)
        obtain ⟨st₁, T₁, hres, hpool, husers, hempty, hint, hlists⟩ :=
          hp.recycle (by omega) rfl (by omega)
        refine ⟨st₁, T₁, _, by rw [if_pos hR, hres], hpool, husers, hempty, hint, ?_, ?_⟩
        · by_cases heq : st.endfree - st.startfree = L
          · rw [heq, setChain_same]
            exact iff_of_false (by simp) (fun hne => hne rfl)
          · rw [setChain_other _ _ fun hidx => heq
              (findFreeListIndex_inj hRs hs (by omega) hle hidx.symm)]
            exact iff_of_true hown heq
        · intro j hj
          have hmono := findFreeListIndex_mono hRs hs (by omega) hle
          exact hlists j (by omega)
      · refine ⟨st, T, cur, by rw [if_neg hR], hp, rfl, ?_, rfl, iff_of_true hown (by omega),
          fun j _ => ⟨rfl, fun _ => rfl⟩⟩
        have := hp.region.start_le
        omega
    obtain ⟨st₁, T₁, cur₁, hres₁, hpool₁, husers₁, hempty, hint, hown₁, hlists⟩ := hleft
    have hlarger : findLarger st₁ (findFreeListIndex L + 1)
        (slotCount - (findFreeListIndex L + 1)) =
        findLarger st (findFreeListIndex L + 1) (slotCount - (findFreeListIndex L + 1)) :=
      findLarger_congr fun j hj => (hlists j (by omega)).1
    have hfall₁ : answer = none → ∀ i, findLarger st₁ (findFreeListIndex L + 1)
        (slotCount - (findFreeListIndex L + 1)) = some i →
        nextOf st₁.mem (st₁.freeList i) = 0 := by
      intro hnone i hfind
      rw [hlarger] at hfind
      obtain ⟨hlo, _, hne⟩ := findLarger_spec hfind
      obtain ⟨heq, hnext⟩ := hlists i (by omega)
      rw [heq, hnext hne]
      exact hfall hnone h0 (by omega) i hfind
    rw [chunkAlloc_grow 1 answer hno hroom hres₁]
    obtain ⟨st', chunk, k, T', cur', hres, hpool, hkeep, hall, hor⟩ :=
      hpool₁.newRegion_spec hs hle hempty (by rw [hint]; exact hfresh) hfall₁ 0
    refine ⟨st', chunk, k, T', cur', hres, hpool, ?_, fun hsome _ => hall hsome, ?_⟩
    · rw [hkeep _ (Nat.le_refl _)]
      exact hown₁
    · unfold Granted at hor ⊢
      rw [husers₁] at hor
      exact hor

end ChunkAlloc

/-! ## §2. The loop of `Refill`. -/

/-- The starts of `k` blocks of length `L` from `c` on. -/
def run (L : Nat) : Nat → Nat → List Nat
  | _, 0 => []
  | c, k + 1 => c :: run L (c + L) k

/-- A run is `k` addresses, `L` apart. -/
theorem mem_run {L a : Nat} : ∀ {k c : Nat}, a ∈ run L c k ↔ ∃ j, j < k ∧ a = c + j * L := by
  intro k
  induction k with
  | zero =>
      intro c
      simp [run]
  | succ k ih =>
      intro c
      unfold run
      rw [List.mem_cons, ih]
      constructor
      · intro hor
        rcases hor with heq | ⟨j, hj, heq⟩
        · exact ⟨0, by omega, by rw [heq]; omega⟩
        · refine ⟨j + 1, by omega, ?_⟩
          rw [heq, Nat.succ_mul]
          omega
      · rintro ⟨j, hj, heq⟩
        cases j with
        | zero => exact Or.inl (by omega)
        | succ j =>
            refine Or.inr ⟨j, by omega, ?_⟩
            rw [heq, Nat.succ_mul]
            omega

theorem run_nodup {L : Nat} (hL : 0 < L) : ∀ {k c : Nat}, (run L c k).Nodup := by
  intro k
  induction k with
  | zero =>
      intro c
      exact List.nodup_nil
  | succ k ih =>
      intro c
      refine List.nodup_cons.mpr ⟨?_, ih⟩
      intro hmem
      obtain ⟨j, _, heq⟩ := mem_run.mp hmem
      omega

/-- One node written by `Refill`: its four fields and the length at its end. -/
theorem freshNode_ok (m : Mem) {p L index pv nv : Nat} (hL : 512 ≤ L) (hLmax : L < 2 ^ 31)
    (hidx : findFreeListIndex L = index) (hmax : index < slotCount) (hpv : pv < 256 ^ 8)
    (hnv : nv < 256 ^ 8) {m' : Mem}
    (hm : m' = markBlock (setItemLength (setSlot (setNext (setPrev m p pv) p nv) p index) p L) p L ∨
      m' = markBlock (setNext (setPrev (setSlot (setItemLength m p L) p index) p pv) p nv) p L) :
    NodeOk m' p L ∧ prevOf m' p = pv ∧ nextOf m' p = nv ∧
      ∀ b n, b + n ≤ p ∨ p + L ≤ b → AgreeOn m m' b n := by
  unfold slotCount at hmax
  have hL4 : L < 256 ^ 4 := by omega
  have hlength : ∀ q, load m' (q + 24) 4 = L → itemLengthOf m' q = L := by
    intro q hq
    unfold itemLengthOf
    rw [hq]
    show (if L < 2 ^ 31 then L else _) = L
    rw [if_pos hLmax]
  unfold markBlock setItemLength setSlot setNext setPrev nodeSize at hm
  refine ⟨⟨?_, hlength p ?_, hlength _ ?_⟩, ?_, ?_, ?_⟩
  · rw [hidx]
    unfold slotOf
    rcases hm with hm | hm <;> rw [hm] <;>
      simp (disch := omega) only [load_store_disjoint, load_store_fits]
  · rcases hm with hm | hm <;> rw [hm] <;>
      simp (disch := omega) only [load_store_disjoint, load_store_fits]
  · unfold nodeSize
    rcases hm with hm | hm <;> rw [hm] <;>
      simp (disch := omega) only [load_store_fits]
  · unfold prevOf
    rcases hm with hm | hm <;> rw [hm] <;>
      simp (disch := omega) only [load_store_disjoint, load_store_fits]
  · unfold nextOf
    rcases hm with hm | hm <;> rw [hm] <;>
      simp (disch := omega) only [load_store_disjoint, load_store_fits]
  · intro b n hfar x hlo hhi
    rcases hm with hm | hm <;> rw [hm] <;> simp (disch := omega) only [store_outside]

/-- A new node in front of a run of them, which was written later and left its fields alone. -/
theorem run_cons {L q a k : Nat} {m m' : Mem} (hok : NodeOk m a L) (hp : prevOf m a = q)
    (hnext : nextOf m' a = (run L (a + L) k).headD 0)
    (hseg : Seg id (prevOf m') (nextOf m') a (run L (a + L) k) 0)
    (hnodes : ∀ b ∈ run L (a + L) k, NodeOk m' b L)
    (hag : ∀ b n, b + n ≤ a + 8 ∨ a + 16 ≤ b ∧ b + n ≤ a + L → AgreeOn m m' b n) (hL : 512 ≤ L) :
    Seg id (prevOf m') (nextOf m') q (run L a (k + 1)) 0 ∧
      ∀ b ∈ run L a (k + 1), NodeOk m' b L := by
  refine ⟨⟨?_, ?_, hseg⟩, ?_⟩
  · have hback : prevOf m' a = prevOf m a := load_congr (hag a 8 (by omega))
    exact hback.trans hp
  · rw [hnext, List.map_id]
  · intro b hb
    rcases List.mem_cons.mp hb with heq | hin
    · rw [heq]
      refine hok.congr (hag _ _ (by omega)) (hag _ _ ?_)
      unfold nodeSize
      omega
    · exact hnodes b hin

/-- **The loop of `Refill`** appends `k` nodes behind `q`. -/
theorem refillLoop_spec {L index : Nat} (hL : 512 ≤ L) (hLmax : L < 2 ^ 31)
    (hidx : findFreeListIndex L = index) (hmax : index < slotCount) :
    ∀ {k q : Nat} {m : Mem}, q + (k + 1) * L < 256 ^ 8 → nextOf m q = 0 →
      nextOf (refillLoop index L k m q) q = (run L (q + L) k).headD 0 ∧
      Seg id (prevOf (refillLoop index L k m q)) (nextOf (refillLoop index L k m q)) q
        (run L (q + L) k) 0 ∧
      (∀ a ∈ run L (q + L) k, NodeOk (refillLoop index L k m q) a L) ∧
      ∀ b n, b + n ≤ q + 8 ∨ (q + 16 ≤ b ∧ b + n ≤ q + L) ∨ q + L + k * L ≤ b →
        AgreeOn m (refillLoop index L k m q) b n := by
  intro k
  induction k with
  | zero =>
      intro q m _ hnext
      exact ⟨hnext, trivial, fun a ha => by simp [run] at ha, fun b n _ => AgreeOn.refl m b n⟩
  | succ k ih =>
      intro q m hbig hnext
      have hmul : (k + 1 + 1) * L = (k + 1) * L + L := Nat.succ_mul (k + 1) L
      have hmul' : (k + 1) * L = k * L + L := Nat.succ_mul k L
      -- the memory after the first round
      generalize hm₁ : markBlock (setItemLength (setSlot (setNext (setPrev (setNext m q (q + L))
        (q + L) q) (q + L) 0) (q + L) index) (q + L) L) (q + L) L = m₁
      have hloop : refillLoop index L (k + 1) m q = refillLoop index L k m₁ (q + L) := by
        rw [← hm₁]
        rfl
      obtain ⟨hok, hp, hn, hframe⟩ := freshNode_ok (setNext m q (q + L)) hL hLmax hidx hmax
        (by omega) (by omega) (Or.inl hm₁.symm)
      obtain ⟨hn', hseg, hnodes, hag⟩ := ih (q := q + L) (m := m₁) (by omega) hn
      rw [hloop]
      have hq : nextOf (refillLoop index L k m₁ (q + L)) q = q + L := by
        have hkeep : nextOf (refillLoop index L k m₁ (q + L)) q = nextOf m₁ q :=
          load_congr (hag (q + 8) 8 (by omega))
        have hfirst : nextOf m₁ q = nextOf (setNext m q (q + L)) q :=
          load_congr (hframe (q + 8) 8 (by omega))
        rw [hkeep, hfirst]
        exact load_store_fits m (q + 8) 8 (by omega)
      obtain ⟨hseg', hnodes'⟩ :=
        run_cons hok hp hn' hseg hnodes (fun b n hin => hag b n (by omega)) hL
      refine ⟨hq, hseg', hnodes', ?_⟩
      intro b n hfar
      have h₁ : AgreeOn m (setNext m q (q + L)) b n := agreeOn_store m _ (by omega)
      have h₂ : AgreeOn (setNext m q (q + L)) m₁ b n := hframe b n (by omega)
      exact (h₁.trans h₂).trans (hag b n (by omega))

/-! ## §3. `Refill`. -/

section Refill

variable {st : RocketCoAlloctor} {m m' : Mem} {T : Tiling Owner} {L : Nat} {cur : Nat → List Nat}
  {lost : Nat → List (List Nat)}

/-- The first block of a run is the caller's, the others are free. -/
def runKind (j : Nat) : Owner := if j = 0 then .user else .free

theorem run_len {c k : Nat} : (⟨.user, c, L * k⟩ : Tile Owner).len = k * L := Nat.mul_comm L k

/-- The blocks of a run behind its first one. -/
theorem mem_run_tail {c k a : Nat} :
    a ∈ run L (c + L) (k + 1) ↔ ∃ j, 1 ≤ j ∧ j < k + 2 ∧ a = c + j * L := by
  rw [mem_run]
  constructor
  · rintro ⟨j, hj, heq⟩
    refine ⟨j + 1, by omega, by omega, ?_⟩
    rw [heq, Nat.succ_mul]
    omega
  · rintro ⟨j, h1, hj, heq⟩
    cases j with
    | zero => omega
    | succ j =>
        refine ⟨j, by omega, ?_⟩
        rw [heq, Nat.succ_mul]
        omega

theorem run_fits {j n : Nat} (hj : j < n) : j * L + L ≤ L * n := by
  rw [← Nat.succ_mul, Nat.mul_comm L n]
  exact Nat.mul_le_mul_right L hj

/-- They are not on a list yet. -/
theorem ListInv.run_fresh {freeList : Nat → Nat} (h : ListInv freeList m T cur lost) {c k a i : Nat}
    (hL : 0 < L) (ht : ⟨.user, c, L * (k + 2)⟩ ∈ T.tiles) (ha : a ∈ run L (c + L) (k + 1)) :
    a ∉ nodes cur lost i := by
  intro hin
  obtain ⟨j, _, hj, heq⟩ := mem_run_tail.mp ha
  have hfar := h.user_apart ht hin
  have hn := h.node_le hin
  have hmul : j * L + L ≤ L * (k + 2) := run_fits hj
  omega

/-- The nodes of the lists when a chain is put in the place of the current one. -/
theorem nodes_replace_same (cur : Nat → List Nat) (lost : Nat → List (List Nat)) (i : Nat)
    (l : List Nat) :
    nodes (setChain cur i l) (setLost lost i (cur i :: lost i)) i = l ++ nodes cur lost i := by
  unfold nodes
  rw [setChain_same, setLost_same, List.flatten_cons]

theorem nodes_replace_other (cur : Nat → List Nat) (lost : Nat → List (List Nat)) {i j : Nat}
    (l : List Nat) (hj : j ≠ i) :
    nodes (setChain cur i l) (setLost lost i (cur i :: lost i)) j = nodes cur lost j := by
  unfold nodes
  rw [setChain_other cur _ hj, setLost_other lost _ hj]

/-- **A run becomes the new free list.**  The chain that was current is dropped. -/
theorem ListInv.refill {freeList : Nat → Nat} (h : ListInv freeList m T cur lost) (hs : SlotSized L)
    (hle : L ≤ thirdSlot) {c k index : Nat} (hidx : findFreeListIndex L = index)
    (ht : ⟨.user, c, L * (k + 2)⟩ ∈ T.tiles)
    (hchain : Chain m' (run L (c + L) (k + 1)))
    (hnodes : ∀ a ∈ run L (c + L) (k + 1), NodeOk m' a L)
    (hag : ∀ b n, b + n ≤ c ∨ c + L * (k + 2) ≤ b → AgreeOn m m' b n) :
    ListInv (fun j => if j = index then c + L else freeList j) m'
      (T.shatter ⟨.user, c, L * (k + 2)⟩ ht L (k + 2) hs.pos run_len runKind)
      (setChain cur index (run L (c + L) (k + 1)))
      (setLost lost index (cur index :: lost index)) := by
  have hindex : index < slotCount := hidx ▸ findFreeListIndex_lt hs hle
  have hlen : slotLength index = L := hidx ▸ slotLength_findFreeListIndex hs hle
  have h512 := hs.le
  have hLpos := hs.pos
  have hmem : ∀ t, t ∈ (T.shatter ⟨.user, c, L * (k + 2)⟩ ht L (k + 2) hs.pos run_len
      runKind).tiles ↔ (t ∈ T.tiles ∧ t ≠ ⟨.user, c, L * (k + 2)⟩) ∨
        ∃ j, j < k + 2 ∧ t = ⟨runKind j, c + j * L, L⟩ := fun t => Tiling.mem_shatter
  -- the old free blocks are outside the run
  have hold : ∀ t ∈ T.tiles, t.kind = .free → AgreeOn m m' t.base t.len := by
    intro t htt hk
    refine hag _ _ (T.apart _ htt _ ht ?_)
    intro heq
    rw [heq] at hk
    simp at hk
  have hl := h.of_agree hold
  refine ⟨?_, ?_, ?_, ?_, ?_, ?_, ?_⟩
  · intro j
    by_cases hj : j = index
    · rw [hj, setChain_same, if_pos rfl]
      rfl
    · rw [setChain_other cur _ hj, if_neg hj]
      exact h.head j
  · intro j
    by_cases hj : j = index
    · rw [hj, setChain_same]
      exact hchain
    · rw [setChain_other cur _ hj]
      exact hl.chain j
  · intro j l hjl
    by_cases hj : j = index
    · rw [hj, setLost_same] at hjl
      rcases List.mem_cons.mp hjl with heq | hin
      · rw [heq]
        exact hl.chain index
      · exact hl.lost_chain index l hin
    · rw [setLost_other lost _ hj] at hjl
      exact hl.lost_chain j l hjl
  · intro j
    by_cases hj : j = index
    · rw [hj, nodes_replace_same]
      refine List.nodup_append.mpr ⟨run_nodup hLpos, h.nodup index, ?_⟩
      intro a ha b hb heq
      exact h.run_fresh hLpos ht ha (heq ▸ hb)
    · rw [nodes_replace_other _ _ _ hj]
      exact h.nodup j
  · intro j a ha
    have hsplit : (j = index ∧ a ∈ run L (c + L) (k + 1)) ∨ a ∈ nodes cur lost j := by
      by_cases hj : j = index
      · rw [hj, nodes_replace_same] at ha
        rcases List.mem_append.mp ha with hrun | hin
        · exact Or.inl ⟨hj, hrun⟩
        · exact Or.inr (hj ▸ hin)
      · rw [nodes_replace_other _ _ _ hj] at ha
        exact Or.inr ha
    rcases hsplit with ⟨hj, hrun⟩ | hin
    · rw [hj, hlen]
      obtain ⟨i, h1, hi, heq⟩ := mem_run_tail.mp hrun
      refine ⟨hindex, hidx, (hmem _).mpr (Or.inr ⟨i, hi, ?_⟩)⟩
      rw [heq]
      unfold runKind
      rw [if_neg (by omega)]
    · obtain ⟨h1, h2, h3⟩ := h.node j a hin
      refine ⟨h1, h2, (hmem _).mpr (Or.inl ⟨h3, ?_⟩)⟩
      intro heq
      exact absurd (congrArg Tile.kind heq) (by simp)
  · intro t htt hk
    rcases (hmem t).mp htt with ⟨hin, _⟩ | ⟨i, hi, heq⟩
    · obtain ⟨h1, h2, h3, h4⟩ := hl.free t hin hk
      refine ⟨h1, h2, ?_, h4⟩
      by_cases hj : findFreeListIndex t.len = index
      · rw [hj] at h3 ⊢
        rw [nodes_replace_same]
        exact List.mem_append_right _ h3
      · rw [nodes_replace_other _ _ _ hj]
        exact h3
    · have hi0 : i ≠ 0 := by
        intro h0
        rw [heq, h0] at hk
        simp [runKind] at hk
      have hrun : c + i * L ∈ run L (c + L) (k + 1) :=
        mem_run_tail.mpr ⟨i, by omega, hi, rfl⟩
      rw [heq]
      refine ⟨hs, hle, ?_, hnodes _ hrun⟩
      simp only [hidx]
      rw [nodes_replace_same]
      exact List.mem_append_left _ hrun
  · intro t htt
    rcases (hmem t).mp htt with ⟨hin, _⟩ | ⟨i, hi, heq⟩
    · exact h.bounds t hin
    · have hb := h.bounds _ ht
      have hmul : i * L + L ≤ L * (k + 2) := run_fits hi
      simp only at hb
      rw [heq]
      simp only
      omega

/-- The memory `Refill` leaves: a chain of nodes in the run, all else unchanged. -/
theorem refillMem_spec {c k index : Nat} (m : Mem) (hL : 512 ≤ L) (hLmax : L < 2 ^ 31)
    (hidx : findFreeListIndex L = index) (hmax : index < slotCount)
    (hbig : c + L * (k + 2) < 256 ^ 8) {m' : Mem}
    (hm' : m' = refillLoop index L k (markBlock (setNext (setPrev (setSlot
      (setItemLength m (c + L) L) (c + L) index) (c + L) 0) (c + L) 0) (c + L) L) (c + L)) :
    Chain m' (run L (c + L) (k + 1)) ∧ (∀ a ∈ run L (c + L) (k + 1), NodeOk m' a L) ∧
      ∀ b n, b + n ≤ c ∨ c + L * (k + 2) ≤ b → AgreeOn m m' b n := by
  have hmul : L * (k + 2) = k * L + L + L := by
    rw [Nat.mul_comm, Nat.succ_mul, Nat.succ_mul]
  have hmul' : (k + 1) * L = k * L + L := Nat.succ_mul k L
  generalize hm₁ : markBlock (setNext (setPrev (setSlot (setItemLength m (c + L) L) (c + L) index)
    (c + L) 0) (c + L) 0) (c + L) L = m₁ at hm'
  obtain ⟨hok, hp, hn, hframe⟩ := freshNode_ok m hL hLmax hidx hmax (by omega) (by omega)
    (Or.inr hm₁.symm)
  obtain ⟨hn', hseg, hnodes, hag⟩ :=
    refillLoop_spec hL hLmax hidx hmax (k := k) (q := c + L) (m := m₁) (by omega) hn
  rw [← hm'] at hn' hseg hnodes hag
  obtain ⟨hseg', hnodes'⟩ :=
    run_cons hok hp hn' hseg hnodes (fun b n hin => hag b n (by omega)) hL
  refine ⟨hseg', hnodes', ?_⟩
  intro b n hfar
  exact (hframe b n (by omega)).trans (hag b n (by omega))

/-- Splitting the run: one block for the caller, the others on the free list.  The chain that stood
on that list is dropped. -/
theorem PoolInv.split_run (hp : PoolInv st T cur lost) (hs : SlotSized L) (hle : L ≤ thirdSlot)
    {c k : Nat} (hu : ⟨.user, c, L * (k + 2)⟩ ∈ users T) {m' : Mem}
    (hm' : m' = refillLoop (findFreeListIndex L) L k (markBlock (setNext (setPrev (setSlot
      (setItemLength st.mem (c + L) L) (c + L) (findFreeListIndex L)) (c + L) 0) (c + L) 0)
      (c + L) L) (c + L)) :
    ∃ T', PoolInv { st.setFreeList (findFreeListIndex L) (c + L) with mem := m' } T'
        (setChain cur (findFreeListIndex L) (run L (c + L) (k + 1)))
        (setLost lost (findFreeListIndex L)
          (cur (findFreeListIndex L) :: lost (findFreeListIndex L))) ∧
      users T' = insert ⟨.user, c, L⟩ (users T \ {⟨.user, c, L * (k + 2)⟩}) := by
  obtain ⟨ht, _⟩ := hu
  have hbounds := hp.chunks.bounds ht
  simp only [longMax] at hbounds
  have h512 := hs.le
  have hLmax : L < 2 ^ 31 := by
    unfold thirdSlot at hle
    omega
  obtain ⟨hchain, hnodes, hag⟩ := refillMem_spec st.mem h512 hLmax (Eq.refl (findFreeListIndex L))
    (findFreeListIndex_lt hs hle) (c := c) (k := k) (by omega) hm'
  -- the run is cut into its blocks; the first is the client's, the others are free
  have hmem : ∀ t, t ∈ (T.shatter ⟨.user, c, L * (k + 2)⟩ ht L (k + 2) hs.pos run_len
      runKind).tiles ↔ (t ∈ T.tiles ∧ t ≠ ⟨.user, c, L * (k + 2)⟩) ∨
        ∃ j, j < k + 2 ∧ t = ⟨runKind j, c + j * L, L⟩ := fun t => Tiling.mem_shatter
  refine ⟨_, ⟨?_, hp.lists.refill hs hle rfl ht hchain hnodes hag, ?_⟩, ?_⟩
  · refine hp.chunks.retile (Tiling.covered_shatter ht hs.pos run_len runKind) ?_
    intro t htt
    rcases (hmem t).mp htt with ⟨hold, _⟩ | ⟨j, hj, heq⟩
    · exact Or.inl hold
    · obtain ⟨d, hd, hlo, hhi⟩ := hp.chunks.within _ ht
      have hmul : j * L + L ≤ L * (k + 2) := run_fits hj
      simp only at hlo hhi
      refine Or.inr ⟨d, hd, ?_, ?_⟩ <;>
      · rw [heq]
        simp only
        omega
  -- no block of a run is part of the unused region
  · refine hp.region.retile ?_
    intro t hk
    rw [hmem]
    constructor
    · intro hor
      rcases hor with ⟨hold, _⟩ | ⟨j, _, heq⟩
      · exact hold
      · rw [heq] at hk
        unfold runKind at hk
        simp only at hk
        split at hk <;> simp at hk
    · intro hold
      refine Or.inl ⟨hold, ?_⟩
      intro heq
      rw [heq] at hk
      simp at hk
  · ext t
    simp only [users, Set.mem_ofPred_eq, Set.mem_insert_iff, Set.mem_sdiff,
      Set.mem_singleton_iff]
    rw [hmem]
    constructor
    · rintro ⟨hor, hk⟩
      rcases hor with ⟨hold, hne⟩ | ⟨j, hj, heq⟩
      · exact Or.inr ⟨⟨hold, hk⟩, hne⟩
      · have hj0 : j = 0 := by
          by_contra hne
          rw [heq] at hk
          unfold runKind at hk
          rw [if_neg hne] at hk
          simp at hk
        rw [hj0] at heq
        exact Or.inl (by simpa [runKind] using heq)
    · intro hor
      rcases hor with heq | ⟨⟨hold, hk⟩, hne⟩
      · refine ⟨Or.inr ⟨0, by omega, ?_⟩, by rw [heq]⟩
        simpa [runKind] using heq
      · exact ⟨Or.inl ⟨hold, hne⟩, hk⟩

/-- What an allocation did to the blocks in user hands. -/
def Allocated (T T' : Tiling Owner) (L : Nat) : MallocResult → Prop
  | .ret p => Granted T T' p L
  | .badAlloc => users T' = users T

/-- No block has been dropped. -/
def NoLoss (lost : Nat → List (List Nat)) : Prop := ∀ i, (lost i).flatten = []

/-- Dropping a chain of list `i` loses blocks unless the chain is empty. -/
theorem noLoss_setLost {i : Nat} {l : List Nat} :
    NoLoss (setLost lost i (l :: lost i)) ↔ NoLoss lost ∧ l = [] := by
  constructor
  · intro h
    have hi := h i
    rw [setLost_same, List.flatten_cons, List.append_eq_nil_iff] at hi
    refine ⟨?_, hi.1⟩
    intro j
    by_cases hj : j = i
    · rw [hj]
      exact hi.2
    · have hother := h j
      rw [setLost_other lost _ hj] at hother
      exact hother
  · rintro ⟨h, hl⟩ j
    by_cases hj : j = i
    · rw [hj, setLost_same, List.flatten_cons, hl, h i]
      rfl
    · rw [setLost_other lost _ hj]
      exact h j

/-- **`Refill`** gives the caller a block, or throws.  Over a `malloc` that does not fail it drops a
block exactly when the region is as long as the request. -/
theorem PoolInv.refill_spec (hp : PoolInv st T cur lost) (hs : SlotSized L) (hle : L ≤ thirdSlot)
    (h0 : st.freeList (findFreeListIndex L) = 0) {answer : Option Nat}
    (hfresh : ∀ a, answer = some a →
      FreshRegion st.pointerEffectiveInterval a (2 * (L * refillNumber)))
    (hfall : SafeFallback st L answer) :
    ∃ st' r T' cur' lost', MemoryPool.refill (fun _ => answer) st L = some (st', r) ∧
      PoolInv st' T' cur' lost' ∧ Allocated T T' L r ∧
      (answer ≠ none → (NoLoss lost' ↔ NoLoss lost ∧ st.endfree - st.startfree ≠ L)) := by
  obtain ⟨st₁, c, k, T₁, cur₁, hres, hpool, hown, hall, hor⟩ :=
    hp.chunkAlloc_spec hs hle h0 hfresh hfall
  unfold MemoryPool.refill
  simp only [hres]
  rcases hor with ⟨hc0, hnone, husers⟩ | ⟨hpos, hk, hnot, husers⟩
  · -- no memory
    exact ⟨st₁, .badAlloc, T₁, cur₁, lost, by rw [if_pos hc0], hpool, husers,
      fun hsome => absurd hnone hsome⟩
  · rw [if_neg (by omega)]
    have hidx : ¬ slotCount ≤ findFreeListIndex L := by
      have := findFreeListIndex_lt hs hle
      omega
    by_cases h1 : k = 1
    · -- a single block
      subst h1
      rw [Nat.mul_one] at hnot husers
      refine ⟨st₁, .ret c, T₁, cur₁, lost, by rw [if_pos rfl], hpool, ⟨hnot, husers⟩, ?_⟩
      -- a new chunk would have given twenty
      intro hsome
      have hroom : st.endfree - st.startfree ≠ L := by
        intro heq
        exact absurd (hall hsome (by omega)) (by decide)
      exact (and_iff_left hroom).symm
    · obtain ⟨j, hj⟩ : ∃ j, k = j + 2 := ⟨k - 2, by omega⟩
      subst hj
      have hu : (⟨.user, c, L * (j + 2)⟩ : Tile Owner) ∈ users T₁ := by
        rw [husers]
        exact Set.mem_insert _ _
      obtain ⟨T', hpool', husers'⟩ := hpool.split_run hs hle hu rfl
      refine ⟨_, .ret c, T', _, _, ?_, hpool', ⟨?_, ?_⟩, ?_⟩
      · rw [if_neg h1]
        simp only [hidx, if_false]
        rfl
      · -- a block at `c` would have been in the run
        intro hin
        have hin₁ : (⟨.user, c, L⟩ : Tile Owner) ∈ users T₁ := by
          rw [husers]
          exact Set.mem_insert_of_mem _ hin
        have heq := T₁.eq_of_base hin₁.1 hu.1 rfl
        rw [heq] at hin
        exact hnot hin
      · rw [husers', husers, Set.insert_sdiff_of_mem _ (by simp),
          Set.sdiff_singleton_eq_self hnot]
      · intro _
        rw [noLoss_setLost, hown]

theorem PoolInv.marks (hp : PoolInv st T cur lost) (p v q w : Nat) :
    PoolInv ((st.mark p v).mark q w) T cur lost := hp.mark rfl rfl rfl rfl rfl

/-- **`RocketCoMalloc`** gives the caller a block of the rounded length, or throws.  Over a `malloc`
that does not fail it drops a block exactly when it finds its list empty and the region as long as
the request. -/
theorem PoolInv.malloc_spec (hp : PoolInv st T cur lost) {n : Nat} (hn : 0 < n)
    (hle : n ≤ thirdSlot) {answer : Option Nat}
    (hfresh : ∀ a, answer = some a →
      FreshRegion st.pointerEffectiveInterval a (2 * (dataAlignment n * refillNumber)))
    (hfall : SafeFallback st (dataAlignment n) answer) :
    ∃ st' r T' cur' lost', rocketCoMalloc (fun _ => answer) st n = some (st', r) ∧
      PoolInv st' T' cur' lost' ∧ Allocated T T' (dataAlignment n) r ∧
      (answer ≠ none → (NoLoss lost' ↔ NoLoss lost ∧
        ¬ (st.freeList (findFreeListIndex (dataAlignment n)) = 0 ∧
          st.endfree - st.startfree = dataAlignment n))) := by
  have hs := dataAlignment_slotSized hn hle
  have hmax := dataAlignment_le hle
  have hidx : ¬ slotCount ≤ findFreeListIndex (dataAlignment n) := by
    have := findFreeListIndex_lt hs hmax
    omega
  unfold rocketCoMalloc
  simp only [show ¬ thirdSlot < n by omega, hidx, if_false]
  generalize dataAlignment n = L at *
  by_cases h0 : st.freeList (findFreeListIndex L) = 0
  · rw [if_pos h0]
    simp only [h0, true_and]
    exact hp.refill_spec hs hmax h0 hfresh hfall
  · -- the fast path takes the head of the list
    rw [if_neg h0]
    obtain ⟨l, _, ht, hun⟩ := hp.popHead h0
    simp only [slotLength_findFreeListIndex hs hmax] at ht hun
    refine ⟨_, _, _, _, lost, rfl, hun.marks _ _ _ _, ⟨?_, users_relabel_to ht (by simp)⟩, ?_⟩
    · exact not_users ht (by simp) L
    · intro _
      exact (and_iff_left fun hand => h0 hand.1).symm

/-- **`RocketCoMalloc` of a block below `ThirdSlot`** hands out a user block, or nothing when the system
refuses. -/
theorem Pool.malloc_spec (h : Pool st T) {n : Nat} (hn : 0 < n) (hle : n ≤ thirdSlot)
    {answer : Option Nat}
    (hfresh : ∀ a, answer = some a →
      FreshRegion st.pointerEffectiveInterval a (2 * (dataAlignment n * refillNumber)))
    (hfall : SafeFallback st (dataAlignment n) answer) :
    ∃ st' r T', rocketCoMalloc (fun _ => answer) st n = some (st', r) ∧ Pool st' T' ∧
      Allocated T T' (dataAlignment n) r := by
  obtain ⟨cur, lost, hp⟩ := h
  obtain ⟨st', r, T', cur', lost', hres, hp', halloc, _⟩ := hp.malloc_spec hn hle hfresh hfall
  exact ⟨st', r, T', hres, ⟨cur', lost', hp'⟩, halloc⟩

end Refill

end RocketCo.MemoryPool
