/-
  RocketCo.MemoryPool.Conservation — no byte of a chunk is forgotten.

  Without returns and over a `malloc` that does not fail, every byte of every chunk should be in a
  block the client holds, in a block some free list leads to, or in the unused region, and in one of
  these only.  `ChunkAlloc` breaks this in one situation: the region is exactly as long as a request
  whose list is empty.  It recycles the region onto that list, and `Refill` then overwrites the head
  of the list with the blocks of the new chunk.

  Main results:
    • `conserved_iff_noLoss` — bytes are conserved exactly when no chain has been dropped,
    • `conserved_runs_iff` — the runs in which that situation does not arise are those that conserve
      every byte in every state.
-/
import Mathlib.Data.List.Induction
import RocketCo.MemoryPool.Client

namespace RocketCo.MemoryPool

open RocketCo.Lib

/-! ## §1. Where a byte can be. -/

/-- A block the client holds, a block on free list `i`, or the unused region. -/
inductive Part where
  | block (b : Nat × Nat)
  | listed (i a : Nat)
  | region

/-- Address `x` is in that part. -/
def Part.Has (c : Client) : Part → Nat → Prop
  | .block b, x => b ∈ c.out ∧ b.1 ≤ x ∧ x < b.1 + dataAlignment b.2
  | .listed i a, x => i < slotCount ∧ Linked c.pool i a ∧ a ≤ x ∧ x < a + itemLengthOf c.pool.mem a
  | .region, x => c.pool.startfree ≤ x ∧ x < c.pool.endfree

/-- Every byte of every chunk is in exactly one part. -/
def Conserved (c : Client) : Prop :=
  ∀ iv, IsChunk c.pool.pointerEffectiveInterval iv → ∀ x, iv.1 ≤ x → x < iv.2 → ∃! p : Part, p.Has c x

/-! ## §2. Parts and tiles. -/

section Parts

variable {st : RocketCoAlloctor} {c : Client} {T : Tiling Owner} {cur : Nat → List Nat}
  {lost : Nat → List (List Nat)} {x : Nat}

/-- The nodes of a current chain are linked from its head. -/
theorem ListInv.linked_of_mem_cur (h : ListInv st.freeList st.mem T cur lost) {i a : Nat}
    (ha : a ∈ cur i) : Linked st i a := by
  obtain ⟨l₁, l₂, hsplit⟩ := List.append_of_mem ha
  clear ha
  -- from the head on: what stands before `a` is linked, and its forward link names `a`
  induction l₁ using List.reverseRecOn generalizing a l₂ with
  | nil =>
      have hhead : st.freeList i = a := by
        rw [h.head i, hsplit]
        rfl
      have hpos : 0 < a := h.node_pos (i := i) (cur_sub (by rw [hsplit]; simp))
      rw [← hhead]
      refine Linked.head ?_
      omega
  | append_singleton l b ih =>
      have hsplit' : cur i = l ++ b :: (a :: l₂) := by
        rw [hsplit, List.append_assoc]
        rfl
      have hb : Linked st i b := ih (a :: l₂) hsplit'
      have hc := h.chain i
      rw [hsplit'] at hc
      have hnext : nextOf st.mem b = a := hc.next_eq
      have hpos : 0 < a := h.node_pos (i := i) (cur_sub (by rw [hsplit]; simp))
      rw [← hnext]
      refine Linked.next hb ?_
      omega

/-- The tile of a part. -/
def Part.tile (c : Client) : Part → Tile Owner
  | .block b => tileOf b
  | .listed i a => ⟨.free, a, slotLength i⟩
  | .region => ⟨.unused, c.pool.startfree, c.pool.endfree - c.pool.startfree⟩

/-- A part that has a byte is a tile that covers it. -/
theorem ClientInv.part_tile (h : ClientInv c T) (hp : PoolInv c.pool T cur lost) {p : Part}
    (hx : p.Has c x) : p.tile c ∈ T.tiles ∧ (p.tile c).Covers x := by
  cases p with
  | block b =>
      obtain ⟨hb, hlo, hhi⟩ := hx
      exact ⟨h.tile hb, hlo, hhi⟩
  | listed i a =>
      obtain ⟨_, hlinked, hlo, hhi⟩ := hx
      have hmem : a ∈ nodes cur lost i := cur_sub (hp.lists.mem_cur_of_linked hlinked)
      have ht := hp.lists.node_tile hmem
      have hlen : itemLengthOf c.pool.mem a = slotLength i := (hp.lists.free _ ht rfl).2.2.2.length
      rw [hlen] at hhi
      exact ⟨ht, hlo, hhi⟩
  | region =>
      obtain ⟨hlo, hhi⟩ := hx
      refine ⟨(hp.unused_tile (by omega)).1, hlo, ?_⟩
      show x < c.pool.startfree + (c.pool.endfree - c.pool.startfree)
      omega

/-- Two parts never share a byte. -/
theorem ClientInv.part_unique (h : ClientInv c T) (hp : PoolInv c.pool T cur lost) {p q : Part}
    (hx : p.Has c x) (hy : q.Has c x) : p = q := by
  obtain ⟨hpt, hpx⟩ := h.part_tile hp hx
  obtain ⟨hqt, hqx⟩ := h.part_tile hp hy
  have heq : p.tile c = q.tile c := T.eq_of_covers hpt hqt hpx hqx
  have hkind : (p.tile c).kind = (q.tile c).kind := congrArg Tile.kind heq
  have hbase : (p.tile c).base = (q.tile c).base := congrArg Tile.base heq
  cases p with
  | block b =>
      cases q with
      | block d =>
          -- no two blocks of the client start at one address
          rw [List.inj_on_of_nodup_map h.nodup hx.1 hy.1 hbase]
      | listed j d => simp [Part.tile, tileOf] at hkind
      | region => simp [Part.tile, tileOf] at hkind
  | listed i a =>
      cases q with
      | block d => simp [Part.tile, tileOf] at hkind
      | listed j d =>
          have had : a = d := hbase
          have hi : a ∈ nodes cur lost i := cur_sub (hp.lists.mem_cur_of_linked hx.2.1)
          have hj : d ∈ nodes cur lost j := cur_sub (hp.lists.mem_cur_of_linked hy.2.1)
          rw [← had] at hj
          rw [had, hp.lists.node_unique hi hj]
      | region => simp [Part.tile] at hkind
  | region =>
      cases q with
      | block d => simp [Part.tile, tileOf] at hkind
      | listed j d => simp [Part.tile] at hkind
      | region => rfl

/-- Unless a chain has been dropped, every tile is a part. -/
theorem ClientInv.tile_part (h : ClientInv c T) (hp : PoolInv c.pool T cur lost)
    (hnone : NoLoss lost) {t : Tile Owner} (ht : t ∈ T.tiles) (hx : t.Covers x) :
    ∃ p : Part, p.Has c x := by
  obtain ⟨hlo, hhi⟩ := hx
  cases hk : t.kind with
  | user =>
      obtain ⟨b, hb, heq⟩ := (h.held t).mp ⟨ht, hk⟩
      rw [heq] at hlo hhi
      exact ⟨.block b, hb, hlo, hhi⟩
  | free =>
      obtain ⟨hs, hle, hmem, hok⟩ := hp.lists.free t ht hk
      have hcur : t.base ∈ cur (findFreeListIndex t.len) := by
        unfold nodes at hmem
        rw [hnone _, List.append_nil] at hmem
        exact hmem
      refine ⟨.listed (findFreeListIndex t.len) t.base, findFreeListIndex_lt hs hle,
        hp.lists.linked_of_mem_cur hcur, hlo, ?_⟩
      rw [hok.length]
      exact hhi
  | unused =>
      obtain ⟨hlt, heq⟩ := (hp.region.unused t).mp ⟨ht, hk⟩
      rw [heq] at hlo hhi
      refine ⟨.region, hlo, ?_⟩
      have hhi' : x < c.pool.startfree + (c.pool.endfree - c.pool.startfree) := hhi
      omega

/-- A block of a dropped chain is in no part. -/
theorem ClientInv.lost_part (h : ClientInv c T) (hp : PoolInv c.pool T cur lost) {i a : Nat}
    (ha : a ∈ (lost i).flatten) (p : Part) : ¬ p.Has c a := by
  intro hx
  have hmem : a ∈ nodes cur lost i := List.mem_append_right _ ha
  have ht := hp.lists.node_tile hmem
  have hlen := hp.lists.node_le hmem
  obtain ⟨hpt, hpx⟩ := h.part_tile hp hx
  have heq : p.tile c = ⟨.free, a, slotLength i⟩ := by
    refine T.eq_of_covers hpt ht hpx ⟨Nat.le_refl a, ?_⟩
    show a < a + slotLength i
    omega
  cases p with
  | block b => simp [Part.tile, tileOf] at heq
  | region => simp [Part.tile] at heq
  | listed j d =>
      -- it would stand on the current chain as well
      have hda : d = a := congrArg Tile.base heq
      have hcur : d ∈ cur j := hp.lists.mem_cur_of_linked hx.2.1
      rw [hda] at hcur
      have hij : j = i := hp.lists.node_unique (cur_sub hcur) hmem
      rw [hij] at hcur
      have hdisjoint := (List.nodup_append.mp (hp.lists.nodup i)).2.2
      exact hdisjoint a hcur a ha rfl

/-- **Bytes are conserved exactly when no chain has been dropped.** -/
theorem ClientInv.conserved_iff_noLoss (h : ClientInv c T) (hp : PoolInv c.pool T cur lost) :
    Conserved c ↔ NoLoss lost := by
  constructor
  · intro hcons i
    by_contra hne
    obtain ⟨a, ha⟩ := List.exists_mem_of_ne_nil _ hne
    have hmem : a ∈ nodes cur lost i := List.mem_append_right _ ha
    have hlen := hp.lists.node_le hmem
    obtain ⟨iv, hiv, hlo, hhi⟩ := hp.chunks.within _ (hp.lists.node_tile hmem)
    simp only at hlo hhi
    obtain ⟨p, hx, _⟩ := hcons iv hiv a hlo (by omega)
    exact h.lost_part hp ha p hx
  · intro hnone iv hiv x hlo hhi
    obtain ⟨t, ht, hcov⟩ := hp.chunks.cover iv hiv x hlo hhi
    obtain ⟨p, hx⟩ := h.tile_part hp hnone ht hcov
    exact ⟨p, hx, fun q hq => h.part_unique hp hq hx⟩

end Parts

/-! ## §3. One call. -/

/-- The client returns nothing. -/
def Keeps : Action → Prop
  | .free _ _ => False
  | _ => True

/-- The request does not find its list empty and the region exactly as long as its block. -/
def KeepsLeftover (c : Client) : Action → Prop
  | .malloc n _ => ¬ (c.pool.freeList (findFreeListIndex (dataAlignment n)) = 0 ∧
      c.pool.endfree - c.pool.startfree = dataAlignment n)
  | _ => True

instance : ∀ a, Decidable (Keeps a)
  | .malloc _ _ => .isTrue trivial
  | .free _ _ => .isFalse id
  | .write _ _ => .isTrue trivial

instance (c : Client) : ∀ a, Decidable (KeepsLeftover c a)
  | .malloc _ _ => inferInstanceAs (Decidable (¬ _))
  | .free _ _ => .isTrue trivial
  | .write _ _ => .isTrue trivial

/-- One step of a client that only takes blocks and writes into them. -/
def Takes (c : Client) (a : Action) (c' : Client) : Prop := Plays c a c' ∧ Keeps a

/-- **One step drops a chain** exactly when it is that request. -/
theorem ClientInv.takes_noLoss {c c' : Client} {T : Tiling Owner} {cur : Nat → List Nat}
    {lost : Nat → List (List Nat)} (h : ClientInv c T) (hp : PoolInv c.pool T cur lost) {a : Action}
    (ha : Takes c a c') :
    ∃ T' cur' lost', ClientInv c' T' ∧ PoolInv c'.pool T' cur' lost' ∧
      (NoLoss lost' ↔ NoLoss lost ∧ KeepsLeftover c a) := by
  obtain ⟨⟨hallowed, hsucc, hstep⟩, hkeeps⟩ := ha
  cases a with
  | malloc n answer =>
      obtain ⟨hn, hle, hfresh⟩ := hallowed
      obtain ⟨st', r, T', cur', lost', hres, hp', halloc, hloss⟩ := hp.malloc_spec hn hle
        (fun a heq => hfresh a (by rw [heq]; rfl)) (Succeeds.safeFallback hsucc)
      obtain ⟨d, hstep', hpool, hinv⟩ := h.allocated hn hle hres ⟨cur', lost', hp'⟩ halloc
      rw [hstep'] at hstep
      rw [← Option.some.inj hstep]
      refine ⟨T', cur', lost', hinv, ?_, hloss hsucc⟩
      rw [hpool]
      exact hp'
  | free p n => exact hkeeps.elim
  | write x v =>
      rw [← Option.some.inj hstep]
      exact ⟨T, cur, lost, h.write v hallowed, h.write_lists hp v hallowed,
        (and_iff_left trivial).symm⟩

/-! ## §4. Whole runs. -/

/-- The pool is well formed. -/
def Sound (c : Client) : Prop := ∃ T, ClientInv c T

theorem Takes.sound {c c' : Client} {a : Action} (h : Sound c) (ha : Takes c a c') : Sound c' := by
  obtain ⟨T, hT⟩ := h
  obtain ⟨cur, lost, hp⟩ := id hT.pool
  obtain ⟨T', _, _, hT', _⟩ := hT.takes_noLoss hp ha
  exact ⟨T', hT'⟩

/-- Where every byte was conserved, it still is unless the step is that request. -/
theorem Takes.conserved_iff {c c' : Client} {a : Action} (h : Sound c) (hcons : Conserved c)
    (ha : Takes c a c') : KeepsLeftover c a ↔ Conserved c' := by
  obtain ⟨T, hT⟩ := h
  obtain ⟨cur, lost, hp⟩ := id hT.pool
  obtain ⟨T', cur', lost', hT', hp', hloss⟩ := hT.takes_noLoss hp ha
  have hnone : NoLoss lost := (hT.conserved_iff_noLoss hp).mp hcons
  rw [hT'.conserved_iff_noLoss hp', hloss]
  exact (and_iff_right hnone).symm

theorem Sound.start (m : Mem) : Sound (Client.start m) := ⟨_, ClientInv.start m⟩

/-- Before the first call there is no chunk. -/
theorem Conserved.start (m : Mem) : Conserved (Client.start m) := by
  intro iv ⟨hiv, _, hlt⟩
  have heq : iv = (longMax, longMax) := List.mem_singleton.mp hiv
  rw [heq] at hlt
  exact absurd hlt (Nat.lt_irrefl _)

/-- **The runs that conserve every byte in every state** are those in which no request finds its list
empty and the region exactly as long as its block. -/
theorem conserved_runs_iff {m : Mem} {as : List Action} {c : Client} :
    Run (fun c a c' => Takes c a c' ∧ KeepsLeftover c a) (Client.start m) as c ↔
      Run (fun c a c' => Takes c a c' ∧ Conserved c') (Client.start m) as c := by
  refine Run.guarded_iff_under (J := Sound) ?_ ?_ (Sound.start m) (Conserved.start m)
  · intro c a c' hsound _ ha
    exact ha.sound hsound
  · intro c a c' hsound hcons ha
    exact ha.conserved_iff hsound hcons

/-- After 20 blocks of 512 bytes and three of 3 KB the region has 1 KB left, and a request for 1 KB
loses it: the block is recycled onto the list `Refill` then overwrites. -/
theorem not_conserved : ∃ c, Run Takes (Client.start fun _ => 0)
    [.malloc 512 (some 4096), .malloc 3072 (some 40960), .malloc 1024 (some 40960)] c ∧
      ¬ Conserved c := by
  have hcheck : checkRun Client.step
      (fun c a => decide (Allowed c a ∧ Succeeds a ∧ Keeps a ∧ KeepsLeftover c a))
      (Client.start fun _ => 0) [.malloc 512 (some 4096), .malloc 3072 (some 40960)]
      (fun c => decide (Allowed c (.malloc 1024 (some 40960)) ∧
        ¬ KeepsLeftover c (.malloc 1024 (some 40960))) &&
        (c.step (.malloc 1024 (some 40960))).isSome) = true := by decide +kernel
  have hsteps : ∀ (c : Client) (a : Action) (c' : Client),
      decide (Allowed c a ∧ Succeeds a ∧ Keeps a ∧ KeepsLeftover c a) = true →
        c.step a = some c' → Takes c a c' ∧ KeepsLeftover c a := by
    intro c a c' hok hstep
    obtain ⟨h1, h2, h3, h4⟩ := of_decide_eq_true hok
    exact ⟨⟨⟨h1, h2, hstep⟩, h3⟩, h4⟩
  obtain ⟨c, hrun, hend⟩ := Run.of_check hsteps hcheck
  rw [Bool.and_eq_true] at hend
  obtain ⟨hallowed, hmiss⟩ := of_decide_eq_true hend.1
  obtain ⟨c', hstep⟩ := Option.isSome_iff_exists.mp hend.2
  have hsucc : Succeeds (.malloc 1024 (some 40960)) := by
    intro hnone
    cases hnone
  have hlast : Takes c (.malloc 1024 (some 40960)) c' := ⟨⟨hallowed, hsucc, hstep⟩, trivial⟩
  have hplain : Run Takes (Client.start fun _ => 0)
      [.malloc 512 (some 4096), .malloc 3072 (some 40960)] c := hrun.mono fun _ _ _ ha => ha.1
  refine ⟨c', .snoc hplain hlast, ?_⟩
  have hsound : Sound c :=
    hplain.invariant (I := Sound) (fun _ _ _ hs ha => ha.sound hs) (Sound.start _)
  have hcons : Conserved c := by
    have hinv := hrun.invariant (I := fun c => Sound c ∧ Conserved c)
      (fun _ _ _ hs ha => ⟨ha.1.sound hs.1, (ha.1.conserved_iff hs.1 hs.2).mp ha.2⟩)
      ⟨Sound.start _, Conserved.start _⟩
    exact hinv.2
  exact fun h => hmiss ((hlast.conserved_iff hsound hcons).mpr h)

end RocketCo.MemoryPool
