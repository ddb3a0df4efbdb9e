/-
  RocketCo.CoSwap.PollItem — what `EventLoop` finds behind `data.ptr`.

  `Co_poll_inner` registers the address of a `StPollItem` with epoll and yields.  The item is on the
  heap, or, for fewer than `ShortItemOptimization` descriptors, in the frame of the call.  A frame on a
  shared stack is there only as long as no other coroutine has taken the stack.

  Main result: `pollItems_intact`.
-/
import RocketCo.CoSwap.SharedStack

namespace RocketCo.CoSwap

open RocketCo.Lib

variable {cfg : Config} {s t : Thread} {a : Action} {pending co : Co} {sp : Nat} {point : Point}
  {target : CoSwapT}

/-! ## §1. Items in memory. -/

/-- A load of an item reads its fields only. -/
theorem loadItem_congr {m m' : Mem} {a : Nat}
    (h : ∀ i, IsField i → m' (a + i) = m (a + i)) : loadItem m' a = loadItem m a := by
  have hload : ∀ o k, (∀ i, o ≤ i → i < o + k → IsField i) →
      load m' (a + o) k = load m (a + o) k := by
    intro o k hfield
    apply load_congr
    intro x hlow hhigh
    have hx : x = a + (x - a) := by omega
    rw [hx]
    exact h _ (hfield _ (by omega) (by omega))
  unfold loadItem
  rw [hload 24 32, hload 56 32, hload 96 8, hload 112 8, hload 120 8]
  all_goals
    intro i hlow hhigh
    unfold IsField
    omega

theorem isField_lt {i : Nat} (h : IsField i) : i < itemSize := by
  unfold IsField at h
  unfold itemSize
  omega

theorem load_store_bits {w : Nat} (m : Mem) (a k : Nat) (b : BitVec w) (hw : w = 8 * k) :
    BitVec.ofNat w (load (store m a k b.toNat) a k) = b := by
  have hlt : b.toNat < 256 ^ k := by
    have hpow : (256 : Nat) ^ k = 2 ^ w := by
      rw [hw, Nat.pow_mul]
    rw [hpow]
    exact b.isLt
  rw [load_store_fits _ _ _ hlt]
  rw [BitVec.ofNat_toNat, BitVec.setWidth_eq]

/-- An item that was stored is read back. -/
theorem loadItem_storeItem (m : Mem) (a : Nat) (item : StPollItem) :
    loadItem (storeItem m a item) a = item := by
  -- the five stores are at separate offsets, so a load passes those behind its own
  have hother : ∀ (m : Mem) (o k o' k' v : Nat), o + k ≤ o' ∨ o' + k' ≤ o →
      load (store m (a + o') k' v) (a + o) k = load m (a + o) k :=
    fun m o k o' k' v h => load_store_disjoint m v (by omega)
  have hCoPrepare : load (storeItem m a item) (a + 24) 32 =
      load (store m (a + 24) 32 item.CoPrepare.toNat) (a + 24) 32 := by
    unfold storeItem
    rw [hother _ 24 32 120 8 _ (by omega), hother _ 24 32 112 8 _ (by omega),
      hother _ 24 32 96 8 _ (by omega), hother _ 24 32 56 32 _ (by omega)]
  have hCoPrecoss : ∃ m', load (storeItem m a item) (a + 56) 32 =
      load (store m' (a + 56) 32 item.CoPrecoss.toNat) (a + 56) 32 := by
    unfold storeItem
    rw [hother _ 56 32 120 8 _ (by omega), hother _ 56 32 112 8 _ (by omega),
      hother _ 56 32 96 8 _ (by omega)]
    exact ⟨_, rfl⟩
  have hItemCo : ∃ m', load (storeItem m a item) (a + 96) 8 =
      load (store m' (a + 96) 8 item.ItemCo.toNat) (a + 96) 8 := by
    unfold storeItem
    rw [hother _ 96 8 120 8 _ (by omega), hother _ 96 8 112 8 _ (by omega)]
    exact ⟨_, rfl⟩
  have hpSelf : ∃ m', load (storeItem m a item) (a + 112) 8 =
      load (store m' (a + 112) 8 item.pSelf.toNat) (a + 112) 8 := by
    unfold storeItem
    rw [hother _ 112 8 120 8 _ (by omega)]
    exact ⟨_, rfl⟩
  have hStpoll : ∃ m', load (storeItem m a item) (a + 120) 8 =
      load (store m' (a + 120) 8 item.Stpoll.toNat) (a + 120) 8 := ⟨_, rfl⟩
  obtain ⟨m₁, hCoPrecoss⟩ := hCoPrecoss
  obtain ⟨m₂, hItemCo⟩ := hItemCo
  obtain ⟨m₃, hpSelf⟩ := hpSelf
  obtain ⟨m₄, hStpoll⟩ := hStpoll
  unfold loadItem
  rw [hCoPrepare, hCoPrecoss, hItemCo, hpSelf, hStpoll]
  have hwide : ∀ (m : Mem) (a : Nat) (b : BitVec 256),
      BitVec.ofNat 256 (load (store m a 32 b.toNat) a 32) = b :=
    fun m a b => load_store_bits m a 32 b rfl
  have hword : ∀ (m : Mem) (a : Nat) (b : BitVec 64),
      BitVec.ofNat 64 (load (store m a 8 b.toNat) a 8) = b :=
    fun m a b => load_store_bits m a 8 b rfl
  rw [hwide, hwide, hword, hword, hword]

/-- The loop over `WillJoinEpoll` leaves every item in its place. -/
theorem loadItem_storeItems : ∀ (items : List StPollItem) (m : Mem) (a i : Nat)
    (item : StPollItem), items[i]? = some item →
    loadItem (storeItems m a items) (a + i * itemSize) = item := by
  intro items
  induction items with
  | nil => exact fun m a i item hi => by simp at hi
  | cons first items ih =>
      intro m a i item hi
      show loadItem (storeItems (storeItem m a first) (a + itemSize) items) _ = item
      cases i with
      | zero =>
          have hfirst : first = item := by simpa using hi
          rw [Nat.zero_mul, Nat.add_zero, loadItem_congr (m := storeItem m a first)]
          · rw [loadItem_storeItem, hfirst]
          · intro j hj
            have := isField_lt hj
            exact storeItems_outside _ _ _ (by omega)
      | succ i =>
          have hrest := ih (storeItem m a first) (a + itemSize) i item (by simpa using hi)
          rw [Nat.succ_mul, Nat.add_comm (i * itemSize), ← Nat.add_assoc]
          exact hrest

/-! ## §2. The invariant. -/

/-- The memory of the items is still that of the call: it is on the heap or on a private stack, or no
other coroutine has taken the shared stack since. -/
def Thread.Keeps (s : Thread) (c : Co) (p : PollFrame) : Prop :=
  p.InFrame → (s.entity c).IsShareStack = true → (s.csm c).current_co = some c

/-- **Where the items of blocked calls are.** -/
structure PollPlaces (s : Thread) : Prop where
  frame : ∀ c p, s.polls c = some p → p.InFrame → ∀ x, p.Contains x → (s.csm c).Contains x
  heap : ∀ c p, s.polls c = some p → ¬ p.InFrame → ∀ x, p.Contains x →
    ∀ m, ¬ (s.member m).Contains x
  apart : ∀ c d p q, c ≠ d → s.polls c = some p → s.polls d = some q → ¬ p.InFrame →
    ¬ q.InFrame → ∀ x, p.Contains x → ¬ q.Contains x

/-- The items of a call are as it stored them. -/
def Thread.Intact (s : Thread) (p : PollFrame) : Prop :=
  ∀ i item, p.items[i]? = some item → loadItem s.mem (p.WillJoinEpoll + i * itemSize) = item

/-- **The items of blocked calls** that still have their memory are as they were stored. -/
structure PollInv (s : Thread) : Prop extends PollPlaces s where
  intact : ∀ c p, s.polls c = some p → c ≠ s.running → s.Keeps c p → s.Intact p

theorem PollInv.init (cfg : Config) : PollInv cfg.init := by
  constructor
  case toPollPlaces =>
    constructor
    case frame => exact fun c p hp => by cases hp
    case heap => exact fun c p hp => by cases hp
    case apart => exact fun c d p q _ hp => by cases hp
  case intact => exact fun c p hp => by cases hp

/-- Item `i` is in the array. -/
theorem contains_item {p : PollFrame} {i j : Nat} {item : StPollItem}
    (hi : p.items[i]? = some item) (hj : j < itemSize) :
    p.Contains (p.WillJoinEpoll + i * itemSize + j) := by
  have hlt : i < p.items.length := (List.getElem?_eq_some_iff.mp hi).1
  have hroom : (i + 1) * itemSize ≤ p.room * itemSize := by
    apply Nat.mul_le_mul_right
    unfold PollFrame.room ShortItemOptimization
    split <;> omega
  rw [Nat.add_mul, Nat.one_mul] at hroom
  unfold PollFrame.Contains
  omega

/-- An item is as it was when no byte of its array has changed. -/
theorem loadItem_same {p : PollFrame} {m m' : Mem} {i : Nat} {item : StPollItem}
    (hi : p.items[i]? = some item) (hsame : ∀ x, p.Contains x → m' x = m x) :
    loadItem m' (p.WillJoinEpoll + i * itemSize) = loadItem m (p.WillJoinEpoll + i * itemSize) :=
  loadItem_congr fun _ hj => hsame _ (contains_item hi (isField_lt hj))

/-- The array of a blocked call is not on the stack of `d`, unless `d` has the stack. -/
theorem PollPlaces.off_stack (h : PollPlaces s) (hst : Static cfg s) {c d : Co} {p : PollFrame} {x : Nat}
    (hp : s.polls c = some p) (hne : c ≠ d) (hx : p.Contains x)
    (htaken : cfg.Csm c = cfg.Csm d → p.InFrame → cfg.IsShareStack c = false) :
    ¬ (s.csm d).Contains x := by
  by_cases hin : p.InFrame
  · apply hst.apart _ (h.frame c p hp hin x hx)
    rw [hst.csm, hst.csm]
    intro heq
    exact hne (cfg.alone c d (htaken heq hin) heq.symm).symm
  · exact h.heap c p hp hin x hx _

/-! ## §3. The switch. -/

theorem Switched.contains_iff (hsw : Switched s t pending s.running sp point target) {m x : Nat} :
    (t.member m).Contains x ↔ (s.member m).Contains x := by
  rw [hsw.member]
  split <;> exact Iff.rfl

theorem Switched.csm_contains_iff (hsw : Switched s t pending s.running sp point target) {c : Co}
    {x : Nat} : (t.csm c).Contains x ↔ (s.csm c).Contains x := by
  rw [hsw.csm_eq]
  split <;> exact Iff.rfl

/-- Whoever is switched in, a call that keeps its memory has kept it. -/
theorem Switched.keeps (hsw : Switched s t pending s.running sp point target) {c : Co}
    {p : PollFrame} (hne : c ≠ pending) (hk : t.Keeps c p) : s.Keeps c p := by
  intro hin hshare
  have hshare' : (t.entity c).IsShareStack = true := by
    rw [hsw.entity]
    exact hshare
  have hcur := hk hin hshare'
  rw [hsw.csm_eq] at hcur
  split at hcur
  · exact absurd (Option.some.inj hcur).symm hne
  · exact hcur

/-- Where the calls have their items depends on the stacks and the calls only. -/
theorem PollPlaces.congr (h : PollPlaces s) (hcsm : ∀ c x, (t.csm c).Contains x ↔ (s.csm c).Contains x)
    (hmember : ∀ m x, (t.member m).Contains x ↔ (s.member m).Contains x)
    (hpolls : ∀ c p, t.polls c = some p → s.polls c = some p) : PollPlaces t := by
  constructor
  case frame =>
    intro c p hp hin x hx
    exact (hcsm c x).mpr (h.frame c p (hpolls c p hp) hin x hx)
  case heap =>
    intro c p hp hin x hx m hm
    exact h.heap c p (hpolls c p hp) hin x hx m ((hmember m x).mp hm)
  case apart =>
    intro c d p q hne hp hq
    exact h.apart c d p q hne (hpolls c p hp) (hpolls d q hq)

/-- **A switch writes to the stack of `pending`**, and there is no array there of a call that keeps
its memory. -/
theorem PollPlaces.switch {ex : Nat → Prop} (h : PollPlaces s) (hs : StackInv cfg ex s)
    (hsw : Handover cfg s t pending sp point target)
    (hintact : ∀ c p, s.polls c = some p → (∀ x, p.Contains x → ¬ (s.csm pending).Contains x) →
      s.Keeps c p → s.Intact p) : PollInv t := by
  have hpolls : t.polls = s.polls := hsw.polls
  constructor
  case toPollPlaces =>
    apply h.congr
    · exact fun c x => hsw.toSwitched.csm_contains_iff
    · exact fun m x => hsw.toSwitched.contains_iff
    · exact fun c p hp => hpolls ▸ hp
  case intact =>
    intro c p hp hc hk
    rw [hpolls] at hp
    have hcp : c ≠ pending := by
      rw [hsw.running, hsw.co] at hc
      exact hc
    -- a call on the stack that `pending` takes would not keep its frame
    have hoff : ∀ x, p.Contains x → ¬ (s.csm pending).Contains x := by
      intro x hx
      apply h.off_stack hs.static hp hcp hx
      intro hm hin
      by_contra hshare
      rw [Bool.not_eq_false] at hshare
      have hshare' : (t.entity c).IsShareStack = true := by
        rw [hsw.entity]
        exact (hs.static.share c).trans hshare
      exact (hs.keeps_stack hsw hcp (hk hin hshare')).2 hm
    intro i item hi
    rw [loadItem_same hi fun x hx => hs.switch_mem hsw (Or.inl (hoff x hx))]
    exact hintact c p hp hoff (hsw.toSwitched.keeps hcp hk) i item hi

/-! ## §4. Between two switches. -/

/-- The array of a call that keeps its memory is not on the stack of the running coroutine. -/
theorem PollPlaces.off_running {ex : Nat → Prop} (h : PollPlaces s) (hs : StackInv cfg ex s) {c : Co}
    {p : PollFrame} {x : Nat} (hp : s.polls c = some p) (hne : c ≠ s.running) (hk : s.Keeps c p)
    (hx : p.Contains x) : ¬ (s.csm s.running).Contains x := by
  apply h.off_stack hs.static hp hne hx
  intro hm hin
  by_contra hshare
  rw [Bool.not_eq_false] at hshare
  have hrshare : cfg.IsShareStack s.running = true := by
    by_contra hprivate
    rw [Bool.not_eq_true] at hprivate
    exact hne (cfg.alone _ c hprivate hm)
  have hcur := hk hin ((hs.static.share c).trans hshare)
  have hocc := hs.occupied hrshare
  unfold Thread.csm at hcur hocc
  rw [hs.static.csm] at hcur hocc
  rw [hm, hocc] at hcur
  exact hne (Option.some.inj hcur).symm

/-- Memory changes where no call that keeps its memory has an array. -/
theorem PollInv.remem (h : PollInv s) (hmember : t.member = s.member)
    (hpolls : ∀ c p, t.polls c = some p → s.polls c = some p) (hrun : t.running = s.running)
    (hentity : ∀ c, (t.entity c).Csm = (s.entity c).Csm ∧
      (t.entity c).IsShareStack = (s.entity c).IsShareStack)
    (hmem : ∀ c p, s.polls c = some p → c ≠ s.running → s.Keeps c p →
      ∀ i item, p.items[i]? = some item →
      loadItem t.mem (p.WillJoinEpoll + i * itemSize) =
        loadItem s.mem (p.WillJoinEpoll + i * itemSize)) : PollInv t := by
  have hcsm : ∀ c, t.csm c = s.csm c := by
    intro c
    unfold Thread.csm
    rw [hmember, (hentity c).1]
  constructor
  case toPollPlaces =>
    apply h.toPollPlaces.congr
    · exact fun c x => by rw [hcsm]
    · exact fun m x => by rw [hmember]
    · exact hpolls
  case intact =>
    intro c p hp hc hk i item hi
    rw [hrun] at hc
    have hk' : s.Keeps c p := by
      unfold Thread.Keeps at hk ⊢
      rw [hcsm, (hentity c).2] at hk
      exact hk
    rw [hmem c p (hpolls c p hp) hc hk' i item hi]
    exact h.intact c p (hpolls c p hp) hc hk' i item hi

/-- The array of a new call is apart from those of the calls that keep theirs. -/
theorem PollPlaces.fits_apart {ex : Nat → Prop} (h : PollPlaces s) (hs : StackInv cfg ex s) {c : Co}
    {p q : PollFrame} {x : Nat} (hfits : s.Fits q) (hp : s.polls c = some p) (hne : c ≠ s.running)
    (hk : s.Keeps c p) (hx : p.Contains x) : ¬ q.Contains x := by
  intro hq
  by_cases hframe : q.InFrame
  · exact h.off_running hs hp hne hk hx (hfits.in_frame hframe hq)
  · exact (hfits.on_heap hframe hq).2 c p hp hx

/-- `Co_poll_inner` fills its array. -/
theorem PollInv.poll {ex : Nat → Prop} (h : PollInv s) (hs : StackInv cfg ex s) {p : PollFrame}
    {esp : Nat} (hfits : s.Fits p) (n : Nat) :
    PollInv { beforeYeild s (.poll p esp) with Co_ESP := n } := by
  -- the array of a call in progress is the new one or one of another coroutine
  have hother : ∀ c q, Function.update s.polls s.running (some p) c = some q →
      c = s.running ∧ q = p ∨ c ≠ s.running ∧ s.polls c = some q := by
    intro c q hq
    by_cases hc : c = s.running
    · rw [hc, Function.update_self] at hq
      exact Or.inl ⟨hc, (Option.some.inj hq).symm⟩
    · rw [Function.update_of_ne hc] at hq
      exact Or.inr ⟨hc, hq⟩
  constructor
  case toPollPlaces =>
    constructor
    case frame =>
      intro c q hq hin x hx
      cases hother c q hq with
      | inl hnew =>
          rw [hnew.2] at hin hx
          rw [hnew.1]
          exact hfits.in_frame hin hx
      | inr hold => exact h.frame c q hold.2 hin x hx
    case heap =>
      intro c q hq hin x hx m
      cases hother c q hq with
      | inl hnew =>
          rw [hnew.2] at hin hx
          exact (hfits.on_heap hin hx).1 m
      | inr hold => exact h.heap c q hold.2 hin x hx m
    case apart =>
      intro c d q r hne hq hr hqin hrin x hx hx'
      cases hother c q hq with
      | inl hnew =>
          cases hother d r hr with
          | inl hnew' => exact hne (hnew.1.trans hnew'.1.symm)
          | inr hold' =>
              rw [hnew.2] at hqin hx
              exact (hfits.on_heap hqin hx).2 d r hold'.2 hx'
      | inr hold =>
          cases hother d r hr with
          | inl hnew' =>
              rw [hnew'.2] at hrin hx'
              exact (hfits.on_heap hrin hx').2 c q hold.2 hx
          | inr hold' => exact h.apart c d q r hne hold.2 hold'.2 hqin hrin x hx hx'
  case intact =>
    intro c q hq hc hk i item hi
    cases hother c q hq with
    | inl hnew => exact absurd hnew.1 hc
    | inr hold =>
        have hsame : ∀ x, q.Contains x → storeItems
            (copy s.mem p.WillJoinEpoll (List.replicate (p.items.length * itemSize) 0))
            p.WillJoinEpoll p.items x = s.mem x :=
          fun x hx => poll_writes_outside (h.toPollPlaces.fits_apart hs hfits hold.2 hold.1 hk hx)
        exact (loadItem_same hi hsame).trans (h.intact c q hold.2 hold.1 hk i item hi)

/-! ## §5. Every step. -/

/-- An event is handled only for a call that still has the memory of its items. -/
def Action.Kept (s : Thread) : Action → Prop
  | .link c _ _ _ => ∀ p, s.polls c = some p → s.Keeps c p
  | _ => True

/-- An allowed step in which `EventLoop` reads items that are still there. -/
def Thread.KeptStep (s : Thread) (a : Action) (t : Thread) : Prop := s.Step a t ∧ a.Kept s

theorem PollInv.resume {ex : Nat → Prop} (h : PollInv s) (hs : StackInv cfg ex s) (hc : CallInv s)
    {esp pfn : Nat} (hok : s.Allowed (.resume co esp pfn))
    (hstep : s.step (.resume co esp pfn) = some t) : PollInv t := by
  obtain ⟨point', hsw, -⟩ := hc.resume_handover cfg hok hstep
  have hbefore := hs.beforeResume hc hok.2.1 pfn
  have hprep := beforeResume_prepared s co pfn
  have hplaces : PollPlaces (CoSwap.beforeResume s co pfn) := by
    apply h.toPollPlaces.congr
    · exact fun c x => by rw [hprep.csm]
    · exact fun m x => by rw [hprep.member]
    · exact fun c p hp => hprep.polls ▸ hp
  apply hplaces.switch hbefore hsw
  intro c p hp hoff hk i item hi
  rw [hprep.polls] at hp
  have hrun : c ≠ s.running := by
    intro heq
    have hturn : s.polls s.running = none := hok.1
    rw [heq, hturn] at hp
    cases hp
  have hk' : s.Keeps c p := by
    intro hin hshare
    have hcur := hk hin ((hprep.same c).1.trans hshare)
    rw [hprep.csm] at hcur
    exact hcur
  -- `co_swap_make` writes to the stack of `co`
  have hsame : ∀ x, p.Contains x → (CoSwap.beforeResume s co pfn).mem x = s.mem x := by
    intro x hx
    apply hprep.outside
    intro hword
    apply hoff x hx
    rw [hprep.csm]
    exact hs.static.top_contains hword
  exact (loadItem_same hi hsame).trans (h.intact c p hp hrun hk' i item hi)

/-- What the running coroutine does before its `Co_yeild`: it blocks with the items it has stored, or
it has none. -/
theorem PollInv.beforeYeild {ex : Nat → Prop} (h : PollInv s) (hs : StackInv cfg ex s)
    (hok : s.Allowed a) (ha : a.yields = true) (n : Nat) :
    PollInv { CoSwap.beforeYeild s a with Co_ESP := n } ∧
      ∀ p, (CoSwap.beforeYeild s a).polls s.running = some p → (CoSwap.beforeYeild s a).Intact p := by
  have hnone : s.UserTurn → ∀ p, s.polls s.running ≠ some p := by
    intro hturn p hp
    rw [hturn] at hp
    cases hp
  cases a with
  | yeild esp =>
      refine ⟨h.remem rfl (fun _ _ hp => hp) rfl (fun _ => ⟨rfl, rfl⟩) fun _ _ _ _ _ _ _ _ => rfl, ?_⟩
      exact fun p hp => absurd hp (hnone hok.1 p)
  | finish esp =>
      have hentity : ∀ c, ((CoSwap.beforeYeild s (.finish esp)).entity c).Csm = (s.entity c).Csm ∧
          ((CoSwap.beforeYeild s (.finish esp)).entity c).IsShareStack =
            (s.entity c).IsShareStack := by
        intro c
        show (Function.update s.entity s.running _ c).Csm = _ ∧
          (Function.update s.entity s.running _ c).IsShareStack = _
        by_cases hc : c = s.running
        · rw [hc, Function.update_self]
          exact ⟨rfl, rfl⟩
        · rw [Function.update_of_ne hc]
          exact ⟨rfl, rfl⟩
      refine ⟨h.remem rfl (fun _ _ hp => hp) rfl hentity fun _ _ _ _ _ _ _ _ => rfl, ?_⟩
      exact fun p hp => absurd hp (hnone hok.1 p)
  | poll q esp =>
      refine ⟨h.poll hs hok.2.2.2 n, ?_⟩
      intro p hp i item hi
      have hp' : Function.update s.polls s.running (some q) s.running = some p := hp
      rw [Function.update_self] at hp'
      rw [← Option.some.inj hp'] at hi ⊢
      exact loadItem_storeItems _ _ _ _ _ hi
  | _ => cases ha

theorem PollInv.yields {ex : Nat → Prop} (h : PollInv s) (hs : StackInv cfg ex s) (hc : CallInv s)
    (hok : s.Allowed a) (ha : a.yields = true) (hstep : s.step a = some t) : PollInv t := by
  have hsw := hs.yields_handover hc hok ha hstep
  have hrunning := (beforeYeild_same (s := s) ha).2.2.1
  obtain ⟨hinv, hown⟩ := h.beforeYeild hs hok ha (s.Co_ESP - 1)
  apply hinv.toPollPlaces.switch (hs.beforeYeild hok ha (s.Co_ESP - 1)) hsw
  intro c p hp _ hk
  by_cases hcr : c = s.running
  · rw [hcr] at hp
    exact hown p hp
  · apply hinv.intact c p hp _ hk
    show c ≠ (CoSwap.beforeYeild s a).running
    rw [hrunning]
    exact hcr

/-- Arrays of two calls that keep their memory are apart. -/
theorem PollPlaces.calls_apart (h : PollPlaces s) (hst : Static cfg s) {c d : Co} {p q : PollFrame}
    {x : Nat} (hp : s.polls c = some p) (hq : s.polls d = some q) (hne : c ≠ d) (hk : s.Keeps c p)
    (hk' : s.Keeps d q) (hx : p.Contains x) : ¬ q.Contains x := by
  intro hx'
  by_cases hqin : q.InFrame
  · apply h.off_stack hst hp hne hx _ (h.frame d q hq hqin x hx')
    intro hm hin
    by_contra hshare
    rw [Bool.not_eq_false] at hshare
    have hshare' : cfg.IsShareStack d = true := by
      by_contra hprivate
      rw [Bool.not_eq_true] at hprivate
      exact hne (cfg.alone d c hprivate hm)
    -- one stack has one occupant
    have hcur := hk hin ((hst.share c).trans hshare)
    have hcur' := hk' hqin ((hst.share d).trans hshare')
    unfold Thread.csm at hcur hcur'
    rw [hst.csm] at hcur hcur'
    rw [hm, hcur'] at hcur
    exact hne (Option.some.inj hcur).symm
  · by_cases hpin : p.InFrame
    · exact h.heap d q hq hqin x hx' _ (h.frame c p hp hpin x hx)
    · exact h.apart c d p q hne hp hq hpin hqin x hx hx'

/-- `EventLoop` links an item: it writes to none of the fields that it reads. -/
theorem PollInv.link (h : PollInv s) (hst : Static cfg s) {c : Co} {p : PollFrame} {i off : Nat}
    (hp : s.polls c = some p) (hk : s.Keeps c p) (hi : i < p.items.length) (hoff : off < itemSize)
    (hfield : ¬ IsField off) (b : BitVec 8) :
    PollInv { s with mem := Function.update s.mem (p.WillJoinEpoll + i * itemSize + off) b } := by
  refine h.remem rfl (fun _ _ hq => hq) rfl (fun _ => ⟨rfl, rfl⟩) ?_
  intro d q hq _ hk' j item hj
  by_cases hd : c = d
  · have hpq : p = q := by
      rw [hd, hq] at hp
      exact (Option.some.inj hp).symm
    rw [← hpq]
    apply loadItem_congr
    intro o ho
    apply Function.update_of_ne
    intro heq
    have ho' := isField_lt ho
    unfold itemSize at heq hoff ho'
    have hsame : o = off := by omega
    rw [hsame] at ho
    exact hfield ho
  · apply loadItem_same hj
    intro x hx
    apply Function.update_of_ne
    intro heq
    apply h.calls_apart hst hp hq hd hk hk' _ hx
    rw [heq]
    exact contains_item (List.getElem?_eq_getElem hi) hoff

/-- **Every step that reads items that are still there keeps all of them.** -/
theorem PollInv.step {ex : Nat → Prop} (h : PollInv s) (hs : StackInv cfg ex s) (hc : CallInv s)
    (hstep : s.KeptStep a t) : PollInv t := by
  obtain ⟨⟨hok, hstep⟩, hkept⟩ := hstep
  cases hyields : a.yields with
  | true => exact h.yields hs hc hok hyields hstep
  | false =>
      cases a with
      -- a switch: the frame of a blocked call stays in place or is copied
      | resume co esp pfn => exact h.resume hs hc hok hstep
      | write x b =>
          obtain ⟨-, hstack, hmain⟩ := hok
          have heq : { s with mem := Function.update s.mem x b } = t := Option.some.inj hstep
          rw [← heq]
          refine h.remem rfl (fun _ _ hp => hp) rfl (fun _ => ⟨rfl, rfl⟩) ?_
          intro c p hp hrun hk i item hi
          apply loadItem_same hi
          intro y hy
          apply Function.update_of_ne
          intro hxy
          rw [hxy] at hy
          -- a write of the running coroutine stays off the frames of blocked calls
          by_cases hm : s.running = mainCo
          · exact (hmain hm).2 c p hp hy
          · exact h.off_running hs hp hrun hk hy (hstack hm)
      | pollBack =>
          have heq : { s with polls := Function.update s.polls s.running none } = t :=
            Option.some.inj hstep
          rw [← heq]
          refine h.remem rfl ?_ rfl (fun _ => ⟨rfl, rfl⟩) fun _ _ _ _ _ _ _ _ => rfl
          intro c p hp
          have hp' : Function.update s.polls s.running none c = some p := hp
          by_cases hcr : c = s.running
          · rw [hcr, Function.update_self] at hp'
            cases hp'
          · rwa [Function.update_of_ne hcr] at hp'
      | link c i off b =>
          obtain ⟨-, hoff, hfield, p, hp, hi⟩ := hok
          have hp' : s.polls c = some p := hp
          have heq : { s with mem := Function.update s.mem (p.WillJoinEpoll + i * itemSize + off) b } =
              t := by
            have hmap : (s.polls c).map (fun p => { s with
                mem := Function.update s.mem (p.WillJoinEpoll + i * itemSize + off) b }) = some t :=
              hstep
            rw [hp'] at hmap
            exact Option.some.inj hmap
          rw [← heq]
          exact h.link hs.static hp' (hkept p hp') hi hoff hfield b
      | yeild esp => cases hyields
      | finish esp => cases hyields
      | poll p esp => cases hyields

theorem PollInv.of_run {as : List Action} (hrun : Run Thread.KeptStep cfg.init as s) :
    PollInv s := by
  have hall : (CallInv s ∧ StackInv cfg (fun _ => True) s) ∧ PollInv s := by
    apply Run.invariant (I := fun s => (CallInv s ∧ StackInv cfg (fun _ => True) s) ∧ PollInv s) _
      hrun ⟨⟨CallInv.init cfg, StackInv.init cfg⟩, PollInv.init cfg⟩
    intro s a t hinv hstep
    exact ⟨StackInv.run_step hinv.1 hstep.1 (Or.inr fun _ => trivial),
      hinv.2.step hinv.1.2 hinv.1.1 hstep⟩
  exact hall.2

/-! ## §6. What an event points to. -/

/-- **`EventLoop` finds the item that was registered.**  In every run in which it handles events only of
calls that keep their memory, each item of such a blocked call reads as `Co_poll_inner` stored it. -/
theorem pollItems_intact {as : List Action} (hrun : Run Thread.KeptStep cfg.init as s) {c : Co}
    {p : PollFrame} (hp : s.polls c = some p) (hblocked : c ≠ s.running) (hk : s.Keeps c p) (i : Nat)
    (item : StPollItem) (hi : p.items[i]? = some item) :
    loadItem s.mem (p.WillJoinEpoll + i * itemSize) = item :=
  (PollInv.of_run hrun).intact c p hp hblocked hk i item hi

theorem Thread.keptStep_of_check (hok : s.check a = true) (hstep : s.step a = some t) :
    s.KeptStep a t := by
  refine ⟨Thread.step_of_check hok hstep, ?_⟩
  cases a with
  | link c i off b => cases hok
  | _ => trivial

/-- The item of a call on one descriptor. -/
def StPollItem.sample : StPollItem where
  CoPrepare := 1
  CoPrecoss := 2
  ItemCo := 3
  pSelf := 4
  Stpoll := 5

/-- Coroutine 1 polls a descriptor, and coroutine 3, on another stack, runs. -/
theorem pollItems_intact_private : ∃ s, Run Thread.KeptStep Config.twoOnOne.init
    [.resume 1 0 0, .poll ⟨7000, [.sample]⟩ 6900, .resume 3 0 0, .write 13000 9, .yeild 12900] s ∧
    loadItem s.mem 7000 = .sample := by
  have hcheck : checkRun Thread.step Thread.check Config.twoOnOne.init
      [.resume 1 0 0, .poll ⟨7000, [.sample]⟩ 6900, .resume 3 0 0, .write 13000 9, .yeild 12900]
      (fun s => decide ((s.polls 1).map (fun p => (p.WillJoinEpoll, p.items)) =
        some (7000, [.sample]) ∧ s.running = 0 ∧ (s.csm 1).current_co = some 1)) = true := by
    decide +kernel
  obtain ⟨s, hrun, hs⟩ := Run.of_check (fun s a t => Thread.keptStep_of_check) hcheck
  obtain ⟨hpolls, hrunning, hcur⟩ := of_decide_eq_true hs
  obtain ⟨p, hp, hfields⟩ := Option.map_eq_some_iff.mp hpolls
  have hW : p.WillJoinEpoll = 7000 := congrArg Prod.fst hfields
  have hitems : p.items = [.sample] := congrArg Prod.snd hfields
  have hitem := pollItems_intact hrun hp (by rw [hrunning]; decide) (fun _ _ => hcur) 0 .sample
    (by rw [hitems]; rfl)
  rw [hW] at hitem
  exact ⟨s, hrun, hitem⟩

/-- Coroutine 1 polls a descriptor, and coroutine 2, which has the stack after it, writes over the
item. -/
theorem not_pollItems_intact : ¬ ∀ (cfg : Config) (as : List Action) (s : Thread),
    Run Thread.Step cfg.init as s → ∀ c p, s.polls c = some p → c ≠ s.running →
    ∀ i item, p.items[i]? = some item →
    loadItem s.mem (p.WillJoinEpoll + i * itemSize) = item := by
  intro hclaim
  have hcheck : checkRun Thread.step Thread.check Config.twoOnOne.init
      [.resume 1 0 0, .poll ⟨7000, [.sample]⟩ 6900, .resume 2 0 0, .write 7024 9, .yeild 6800]
      (fun s => decide ((s.polls 1).map (fun p => (p.WillJoinEpoll, p.items)) =
        some (7000, [.sample]) ∧ s.running = 0 ∧ loadItem s.mem 7000 ≠ .sample)) = true := by
    decide +kernel
  obtain ⟨s, hrun, hs⟩ := Run.of_check (fun s a t => Thread.step_of_check) hcheck
  obtain ⟨hpolls, hrunning, hne⟩ := of_decide_eq_true hs
  obtain ⟨p, hp, hfields⟩ := Option.map_eq_some_iff.mp hpolls
  have hW : p.WillJoinEpoll = 7000 := congrArg Prod.fst hfields
  have hitems : p.items = [.sample] := congrArg Prod.snd hfields
  have hitem := hclaim _ _ s hrun 1 p hp (by rw [hrunning]; decide) 0 .sample (by rw [hitems]; rfl)
  rw [hW] at hitem
  exact hne hitem

end RocketCo.CoSwap
