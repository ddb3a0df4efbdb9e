/-
  RocketCo.CoRoutine.Suspension — a suspended call is resumed once and leaves nothing behind.

  A blocked `Co_poll_inner` or `ConditionVariableWait` owns several nodes: the `Stpoll_t` and its
  items, or the condition item.  `LoopInv` says who may be linked where; the part that matters is

      a linked node belongs to a blocked call, and a blocked call has at most one linked node

  so that taking the node of a call off `ActiveLink` leaves the call without any.

  Main result: `suspension_once`.
-/
import RocketCo.CoRoutine.Effect

namespace RocketCo.CoRoutine

open RocketCo.Lib

/-! ## §1. The invariant. -/

/-- Some coroutine is suspended in the call. -/
def Loop.Blocked (s : Loop) (x : Call) : Prop := ∃ c, s.stage c = .blocked x

/-- Some coroutine was resumed in the call, which has not returned yet. -/
def Loop.Back (s : Loop) (x : Call) : Prop := ∃ c, s.stage c = .back x

/-- The node is in a slot of the wheel, in `TimeoutLink` or in `ActiveLink`. -/
def Lists.On (v : Lists) (n : Node) : Prop := ∃ h, n ∈ v.event h

/-- The item is on the list of a condition variable. -/
def Lists.Waits (v : Lists) (k : Nat) : Prop := ∃ cv, k ∈ v.cond cv

/-- The address that names a call. -/
def Call.addr : Call → Nat
  | .poll k => k
  | .wait k => k

/-- The call that an event resumes. -/
def Event.call? : Event → Option Call
  | .resumed n => some n.call
  | _ => none

/-- The calls the event loop has resumed so far. -/
def Loop.resumed (s : Loop) : List Call := s.log.filterMap Event.call?

/-- **What holds between two steps.** -/
structure LoopInv (s : Loop) (v : Lists) : Prop where
  rep : Represents s v
  main : s.stage mainCo = .running
  owner : ∀ c x, s.stage c = .blocked x ∨ s.stage c = .back x → s.itemCo x = some c
  top : ∀ c x, s.stage c = .back x → getCurrCo s = some c
  fresh : ∀ x, s.itemCo x ≠ none → x.addr < s.next
  round : ∀ rest, s.phase = .dispatch rest → s.stack = [mainCo] ∧ ∀ e ∈ rest, s.Suspended e
  linked : ∀ n, v.On n → s.Blocked n.call
  handled : ∀ k p, s.polls k = some p → p.IsHandle = true → ¬ v.On (.poll k)
  unhandled : ∀ k p i, s.polls k = some p → p.IsHandle = false → ¬ v.On (.item k i)
  single : ∀ k i j, v.On (.item k i) → v.On (.item k j) → i = j
  waiting : ∀ k, v.Waits k → s.Blocked (.wait k) ∨ s.Back (.wait k)
  once : ∀ x ∈ s.resumed, x.addr < s.next ∧ ¬ s.Blocked x
  nodup : s.resumed.Nodup

variable {s t : Loop} {v w : Lists} {a : Action} {c : Co} {x : Call}

theorem LoopInv.init : LoopInv Loop.init ⟨fun _ => [], fun _ => []⟩ := by
  have hstage : ∀ c x, ¬ (Loop.init.stage c = .blocked x ∨ Loop.init.stage c = .back x) := by
    intro c x
    show ¬ ((if c = mainCo then Stage.running else .fresh) = .blocked x ∨
      (if c = mainCo then Stage.running else .fresh) = .back x)
    by_cases hc : c = mainCo <;> simp [hc]
  have hon : ∀ n, ¬ Lists.On ⟨fun _ => [], fun _ => []⟩ n := by
    intro n h
    obtain ⟨_, hin⟩ := h
    exact List.not_mem_nil hin
  constructor
  case rep => exact Represents.init
  case main => rfl
  case owner => exact fun c x h => absurd h (hstage c x)
  case top => exact fun c x h => absurd (Or.inr h) (hstage c x)
  case fresh => exact fun x h => by cases x <;> exact absurd rfl h
  case round => exact fun rest h => by cases h
  case linked => exact fun n h => absurd h (hon n)
  case handled => exact fun k p hp => by cases hp
  case unhandled => exact fun k p i hp => by cases hp
  case single => exact fun k i j h => absurd h (hon _)
  case waiting => exact fun k h => by obtain ⟨_, hin⟩ := h; exact absurd hin List.not_mem_nil
  case once => exact fun x h => absurd h List.not_mem_nil
  case nodup => exact List.nodup_nil

/-! ## §2. Stages. -/

/-- Only one coroutine is in a call. -/
theorem LoopInv.owner_unique (h : LoopInv s v) {c' : Co}
    (hc : s.stage c = .blocked x ∨ s.stage c = .back x)
    (hc' : s.stage c' = .blocked x ∨ s.stage c' = .back x) : c = c' := by
  have heq := h.owner c x hc
  rw [h.owner c' x hc'] at heq
  exact (Option.some.inj heq).symm

theorem blocked_update {st : Stage} (hstage : t.stage = Function.update s.stage c st)
    (hold : ∀ y, s.stage c ≠ .blocked y) : t.Blocked x ↔ s.Blocked x ∨ st = .blocked x := by
  unfold Loop.Blocked
  rw [hstage]
  constructor
  · intro h
    obtain ⟨d, hd⟩ := h
    by_cases hdc : d = c
    · rw [hdc, Function.update_self] at hd
      exact Or.inr hd
    · rw [Function.update_of_ne hdc] at hd
      exact Or.inl ⟨d, hd⟩
  · intro h
    cases h with
    | inl hblocked =>
        obtain ⟨d, hd⟩ := hblocked
        have hdc : d ≠ c := fun heq => hold x (heq ▸ hd)
        exact ⟨d, by rw [Function.update_of_ne hdc]; exact hd⟩
    | inr heq => exact ⟨c, by rw [Function.update_self]; exact heq⟩

/-- While user code runs, no call is on its way back. -/
theorem LoopInv.no_back (h : LoopInv s v) (hturn : s.UserTurn) (d : Co) (y : Call) :
    s.stage d ≠ .back y := by
  intro hd
  obtain ⟨c, hc, hrun, -⟩ := hturn
  have htop := h.top d y hd
  have hcd : c = d := Option.some.inj (hc.symm.trans htop)
  rw [← hcd, hrun] at hd
  cases hd

/-- The running coroutine is in no call. -/
theorem running_not_blocked (hturn : s.UserTurn)
    (hcur : getCurrCo s = some c) (y : Call) : s.stage c ≠ .blocked y := by
  obtain ⟨d, hd, hrun, -⟩ := hturn
  have hdc : d = c := Option.some.inj (hd.symm.trans hcur)
  rw [← hdc, hrun]
  simp

/-- **A coroutine outside of any call changes its stage** and stays outside. -/
theorem LoopInv.restage (h : LoopInv s v) {st : Stage} {stack : List Co}
    (hmain : c = mainCo → st = .running) (hphase : ∀ rest, s.phase ≠ .dispatch rest)
    (hold : ∀ y, s.stage c ≠ .blocked y) (hnone : ∀ d y, s.stage d ≠ .back y)
    (hnew : ∀ y, st ≠ .blocked y ∧ st ≠ .back y) :
    LoopInv { s with stack, stage := Function.update s.stage c st } v := by
  -- neither the old stage nor the new one is a blocked call, so nobody else's state shows it
  have hblocked : ∀ x, Loop.Blocked { s with stack, stage := Function.update s.stage c st } x ↔
      s.Blocked x := by
    intro x
    rw [blocked_update rfl hold]
    simp [hnew x]
  have hnoback : ∀ d x, Function.update s.stage c st d ≠ .back x := by
    intro d x hd
    by_cases hdc : d = c
    · rw [hdc, Function.update_self] at hd
      exact (hnew x).2 hd
    · rw [Function.update_of_ne hdc] at hd
      exact hnone d x hd
  constructor
  case rep => exact ⟨h.rep.links, h.rep.conds⟩
  case main =>
    show Function.update s.stage c st mainCo = .running
    by_cases hc : mainCo = c
    · rw [← hc, Function.update_self]
      exact hmain hc.symm
    · rw [Function.update_of_ne hc]
      exact h.main
  case owner =>
    intro d x hd
    cases hd with
    | inl hd =>
        have hd' : Function.update s.stage c st d = .blocked x := hd
        by_cases hdc : d = c
        · rw [hdc, Function.update_self] at hd'
          exact absurd hd' (hnew x).1
        · rw [Function.update_of_ne hdc] at hd'
          exact h.owner d x (Or.inl hd')
    | inr hd => exact absurd hd (hnoback d x)
  case top => exact fun d x hd => absurd hd (hnoback d x)
  case fresh => exact h.fresh
  case round => exact fun rest hr => absurd hr (hphase rest)
  case linked => exact fun n hn => (hblocked _).mpr (h.linked n hn)
  case handled => exact h.handled
  case unhandled => exact h.unhandled
  case single => exact h.single
  case waiting =>
    intro k hk
    cases h.waiting k hk with
    | inl hb => exact Or.inl ((hblocked _).mpr hb)
    | inr hb =>
        obtain ⟨d, hd⟩ := hb
        exact absurd hd (hnone d _)
  case once => exact fun x hx => ⟨(h.once x hx).1, fun hb => (h.once x hx).2 ((hblocked x).mp hb)⟩
  case nodup => exact h.nodup

/-- User code never runs in the middle of a batch. -/
theorem LoopInv.no_dispatch (h : LoopInv s v) (hturn : s.UserTurn) (rest : List (Nat × Nat)) :
    s.phase ≠ .dispatch rest := by
  intro hphase
  obtain ⟨c, hc, -, huser⟩ := hturn
  unfold getCurrCo at hc
  rw [(h.round rest hphase).1] at hc
  have hmain : c = mainCo := (Option.some.inj hc).symm
  rw [huser hmain] at hphase
  cases hphase

/-- A coroutine in a call is not the main one. -/
theorem LoopInv.ne_main (h : LoopInv s v) (hc : s.stage c = .blocked x ∨ s.stage c = .back x) :
    c ≠ mainCo := by
  intro heq
  rw [heq, h.main] at hc
  cases hc with
  | inl hc => cases hc
  | inr hc => cases hc

/-- The memory of a blocked call is there, and its address is not a fresh one. -/
theorem LoopInv.blocked_live (h : LoopInv s v) (hx : s.Blocked x) :
    s.itemCo x ≠ none ∧ x.addr < s.next := by
  obtain ⟨c, hc⟩ := hx
  have hlive : s.itemCo x ≠ none := by
    rw [h.owner c x (Or.inl hc)]
    simp
  exact ⟨hlive, h.fresh x hlive⟩

/-- The only call that comes on its way back is the one that is resumed. -/
theorem back_of_update {c : Co} {st : Stage} {x : Call}
    (hstage : t.stage = Function.update s.stage c st) (hb : t.Back x) :
    s.Back x ∨ st = .back x := by
  obtain ⟨d, hd⟩ := hb
  rw [hstage] at hd
  by_cases hdc : d = c
  · rw [hdc, Function.update_self] at hd
    exact Or.inr hd
  · rw [Function.update_of_ne hdc] at hd
    exact Or.inl ⟨d, hd⟩

/-- Nothing is at the next address yet ... -/
theorem LoopInv.next_fresh (h : LoopInv s v) (hx : x.addr = s.next) : s.itemCo x = none := by
  by_contra hlive
  have hlt := h.fresh x hlive
  omega

/-- ... and so nothing of a call that will get it is linked. -/
theorem LoopInv.next_not_linked (h : LoopInv s v) {n : Node} (hn : n.call.addr = s.next)
    (p : Place EventLink) : n ∉ v.event p := by
  intro hin
  exact (h.blocked_live (h.linked n ⟨p, hin⟩)).1 (h.next_fresh hn)

/-- A blocked call has at most one linked node. -/
theorem LoopInv.node_unique (h : LoopInv s v) {m n : Node} (hm : v.On m) (hn : v.On n)
    (hcall : m.call = n.call) : m = n := by
  obtain ⟨c, hc⟩ := h.linked n hn
  have hlive := h.owner c _ (Or.inl hc)
  cases m with
  | cond j =>
      cases n with
      | cond k => cases hcall; rfl
      | poll k => cases hcall
      | item k i => cases hcall
  | poll j =>
      cases n with
      | cond k => cases hcall
      | poll k => cases hcall; rfl
      | item k i =>
          cases hcall
          obtain ⟨p, hp, -⟩ := Option.map_eq_some_iff.mp hlive
          cases hh : p.IsHandle with
          | true => exact absurd hm (h.handled _ p hp hh)
          | false => exact absurd hn (h.unhandled _ p i hp hh)
  | item j i =>
      cases n with
      | cond k => cases hcall
      | poll k =>
          cases hcall
          obtain ⟨p, hp, -⟩ := Option.map_eq_some_iff.mp hlive
          cases hh : p.IsHandle with
          | true => exact absurd hn (h.handled _ p hp hh)
          | false => exact absurd hm (h.unhandled _ p i hp hh)
      | item k i' =>
          cases hcall
          rw [h.single j i i' hm hn]

/-! ## §3. The kinds of steps. -/

/-- **Lists change, nobody moves**: nodes leave lists, and items of blocked waiters may join. -/
theorem LoopInv.relist (h : LoopInv s v) (hrep : Represents t w) (hstage : t.stage = s.stage)
    (hpolls : t.polls = s.polls) (hitems : t.items = s.items) (hstack : t.stack = s.stack)
    (hnext : s.next ≤ t.next) (hlog : t.resumed = s.resumed)
    (hround : ∀ rest, t.phase = .dispatch rest → t.stack = [mainCo] ∧ ∀ e ∈ rest, t.Suspended e)
    (hon : ∀ n, w.On n → v.On n ∨ ∃ k, n = .cond k ∧ s.Blocked (.wait k))
    (hwaits : ∀ k, w.Waits k → v.Waits k) : LoopInv t w := by
  have hitemCo : ∀ x, t.itemCo x = s.itemCo x := by
    intro x
    cases x with
    | poll k => simp only [Loop.itemCo, hpolls]
    | wait k => simp only [Loop.itemCo, hitems]
  have hblocked : ∀ x, t.Blocked x ↔ s.Blocked x := by
    intro x
    unfold Loop.Blocked
    rw [hstage]
  have hback : ∀ x, t.Back x ↔ s.Back x := by
    intro x
    unfold Loop.Back
    rw [hstage]
  -- only condition items are new on a list
  have hold : ∀ n, (∀ k, n ≠ .cond k) → w.On n → v.On n := by
    intro n hn h'
    cases hon n h' with
    | inl hin => exact hin
    | inr hnew =>
        obtain ⟨k, hk, -⟩ := hnew
        exact absurd hk (hn k)
  constructor
  case rep => exact hrep
  case main => rw [hstage]; exact h.main
  case owner =>
    intro d x hd
    rw [hstage] at hd
    rw [hitemCo]
    exact h.owner d x hd
  case top =>
    intro d x hd
    rw [hstage] at hd
    unfold getCurrCo
    rw [hstack]
    exact h.top d x hd
  case fresh =>
    intro x hx
    rw [hitemCo] at hx
    exact Nat.lt_of_lt_of_le (h.fresh x hx) hnext
  case round => exact hround
  case linked =>
    intro n hn
    rw [hblocked]
    cases hon n hn with
    | inl hin => exact h.linked n hin
    | inr hnew =>
        obtain ⟨k, hk, hb⟩ := hnew
        rw [hk]
        exact hb
  case handled =>
    intro k p hp hh hn
    rw [hpolls] at hp
    exact h.handled k p hp hh (hold _ (by simp) hn)
  case unhandled =>
    intro k p i hp hh hn
    rw [hpolls] at hp
    exact h.unhandled k p i hp hh (hold _ (by simp) hn)
  case single => exact fun k i j hi hj => h.single k i j (hold _ (by simp) hi) (hold _ (by simp) hj)
  case waiting =>
    intro k hk
    rw [hblocked, hback]
    exact h.waiting k (hwaits k hk)
  case once =>
    intro x hx
    rw [hlog] at hx
    rw [hblocked]
    exact ⟨Nat.lt_of_lt_of_le (h.once x hx).1 hnext, (h.once x hx).2⟩
  case nodup => rw [hlog]; exact h.nodup

/-- **The running coroutine blocks** in a new call. -/
theorem LoopInv.block (h : LoopInv s v) (hturn : s.UserTurn) (hcur : getCurrCo s = some c)
    (hne : c ≠ mainCo) (hx : x.addr = s.next) (hrep : Represents t w)
    (hstage : t.stage = Function.update s.stage c (.blocked x)) (hphase : t.phase = s.phase)
    (hnext : t.next = s.next + 1) (hlog : t.resumed = s.resumed)
    (hitem : ∀ y, t.itemCo y = if y = x then some c else s.itemCo y)
    (hpolls : ∀ k p, t.polls k = some p → .poll k = x ∧ p.IsHandle = false ∨ s.polls k = some p)
    (hon : ∀ n, w.On n → v.On n ∨ n.call = x ∧ ∀ k i, n ≠ .item k i)
    (hwaits : ∀ k, w.Waits k → v.Waits k ∨ .wait k = x) : LoopInv t w := by
  have hrun : s.stage c = .running := by
    obtain ⟨d, hd, hrun, -⟩ := hturn
    have hdc : d = c := Option.some.inj (hd.symm.trans hcur)
    rw [← hdc]
    exact hrun
  have hold : ∀ y, s.stage c ≠ .blocked y := by
    intro y hy
    rw [hrun] at hy
    cases hy
  have hblocked : ∀ y, t.Blocked y ↔ s.Blocked y ∨ y = x := by
    intro y
    rw [blocked_update hstage hold]
    constructor
    · intro hy
      exact hy.imp_right fun heq => by cases heq; rfl
    · intro hy
      exact hy.imp_right fun heq => by rw [heq]
  have hnoback : ∀ d y, t.stage d ≠ .back y := by
    intro d y hd
    cases back_of_update hstage ⟨d, hd⟩ with
    | inl hb =>
        obtain ⟨e, he⟩ := hb
        exact h.no_back hturn e y he
    | inr heq => cases heq
  -- the address of the new call is fresh, so no list and no table entry knows of it
  have hnew : s.itemCo x = none := h.next_fresh hx
  constructor
  case rep => exact hrep
  case main =>
    rw [hstage, Function.update_of_ne (Ne.symm hne)]
    exact h.main
  case owner =>
    intro d y hd
    rw [hitem]
    cases hd with
    | inl hd =>
        rw [hstage] at hd
        by_cases hdc : d = c
        · rw [hdc, Function.update_self] at hd
          cases hd
          rw [if_pos rfl, hdc]
        · rw [Function.update_of_ne hdc] at hd
          have hown := h.owner d y (Or.inl hd)
          have hyx : y ≠ x := by
            intro heq
            rw [heq, hnew] at hown
            cases hown
          rw [if_neg hyx]
          exact hown
    | inr hd => exact absurd hd (hnoback d y)
  case top => exact fun d y hd => absurd hd (hnoback d y)
  case fresh =>
    intro y hy
    rw [hitem] at hy
    rw [hnext]
    by_cases hyx : y = x
    · rw [hyx, hx]
      exact Nat.lt_succ_self _
    · rw [if_neg hyx] at hy
      exact Nat.lt_succ_of_lt (h.fresh y hy)
  case round =>
    intro rest hr
    rw [hphase] at hr
    exact absurd hr (h.no_dispatch hturn rest)
  case linked =>
    intro n hn
    rw [hblocked]
    exact (hon n hn).imp (h.linked n) fun hnew => hnew.1
  case handled =>
    intro k p hp hh hn
    cases hpolls k p hp with
    | inl hp' =>
        rw [hp'.2] at hh
        cases hh
    | inr hp' =>
        cases hon _ hn with
        | inl hin => exact h.handled k p hp' hh hin
        | inr hin =>
            have hcall : Call.poll k = x := hin.1
            rw [← hcall] at hnew
            simp [Loop.itemCo, hp'] at hnew
  case unhandled =>
    intro k p i hp hh hn
    have hin : v.On (.item k i) := (hon _ hn).resolve_right fun hnew => hnew.2 k i rfl
    cases hpolls k p hp with
    | inl hp' =>
        obtain ⟨g, hg⟩ := hin
        exact h.next_not_linked (n := .item k i) ((congrArg Call.addr hp'.1).trans hx) g hg
    | inr hp' => exact h.unhandled k p i hp' hh hin
  case single =>
    intro k i j hi hj
    exact h.single k i j ((hon _ hi).resolve_right fun hnew => hnew.2 k i rfl)
      ((hon _ hj).resolve_right fun hnew => hnew.2 k j rfl)
  case waiting =>
    intro k hk
    rw [hblocked]
    cases hwaits k hk with
    | inl hin =>
        cases h.waiting k hin with
        | inl hb => exact Or.inl (Or.inl hb)
        | inr hb =>
            obtain ⟨d, hd⟩ := hb
            exact absurd hd (h.no_back hturn d _)
    | inr heq => exact Or.inl (Or.inr heq)
  case once =>
    intro y hy
    rw [hlog] at hy
    have hold' := h.once y hy
    rw [hblocked, hnext]
    refine ⟨by omega, fun hb => ?_⟩
    cases hb with
    | inl hb => exact hold'.2 hb
    | inr heq =>
        rw [heq] at hold'
        omega
  case nodup =>
    rw [hlog]
    exact h.nodup

/-- **The loop resumes a call**: its node is popped and the call is blocked no longer. -/
theorem LoopInv.unblock (h : LoopInv s v) {n : Node} (hstack : s.stack = [mainCo])
    (hphase : ∀ rest, s.phase ≠ .dispatch rest) (hn : v.On n)
    (hco : s.itemCo n.call = some c) (hrep : Represents t w)
    (hstage : t.stage = Function.update s.stage c (.back n.call))
    (hcur : getCurrCo t = some c) (hpolls : t.polls = s.polls) (hitems : t.items = s.items)
    (hnext : t.next = s.next) (hlog : t.log = s.log ++ [.resumed n]) (hphase' : t.phase = s.phase)
    (hon : ∀ m, w.On m → v.On m ∧ m ≠ n) (hwaits : ∀ k, w.Waits k → v.Waits k) :
    LoopInv t w := by
  have hitemCo : ∀ x, t.itemCo x = s.itemCo x := by
    intro x
    cases x with
    | poll k => simp only [Loop.itemCo, hpolls]
    | wait k => simp only [Loop.itemCo, hitems]
  -- the coroutine that is resumed is the one blocked in the call
  obtain ⟨d, hd⟩ := h.linked n hn
  have hdc : d = c := by
    have heq := h.owner d n.call (Or.inl hd)
    rw [hco] at heq
    exact (Option.some.inj heq).symm
  rw [hdc] at hd
  have hnoback : ∀ d y, s.stage d ≠ .back y := by
    intro d y hback
    have htop := h.top d y hback
    unfold getCurrCo at htop
    rw [hstack] at htop
    have hmain : mainCo = d := Option.some.inj htop
    exact h.ne_main (Or.inr hback) hmain.symm
  have hstage_of : ∀ d, d ≠ c → t.stage d = s.stage d := by
    intro d hd
    rw [hstage, Function.update_of_ne hd]
  have hself : t.stage c = .back n.call := by rw [hstage, Function.update_self]
  have hblocked : ∀ x, t.Blocked x ↔ s.Blocked x ∧ x ≠ n.call := by
    intro x
    constructor
    · intro hx
      obtain ⟨e, he⟩ := hx
      by_cases hec : e = c
      · rw [hec, hself] at he
        cases he
      · rw [hstage_of e hec] at he
        refine ⟨⟨e, he⟩, fun heq => hec ?_⟩
        rw [heq] at he
        exact h.owner_unique (Or.inl he) (Or.inl hd)
    · intro hx
      obtain ⟨⟨e, he⟩, hne⟩ := hx
      have hec : e ≠ c := by
        intro heq
        rw [heq, hd] at he
        cases he
        exact hne rfl
      exact ⟨e, by rw [hstage_of e hec]; exact he⟩
  -- no other node of the call is linked
  have hcall : ∀ m, w.On m → m.call ≠ n.call := by
    intro m hm heq
    obtain ⟨hin, hmn⟩ := hon m hm
    exact hmn (h.node_unique hin hn heq)
  have hresumed : t.resumed = s.resumed ++ [n.call] := by
    unfold Loop.resumed
    rw [hlog, List.filterMap_append]
    rfl
  constructor
  case rep => exact hrep
  case main =>
    rw [hstage_of mainCo (h.ne_main (Or.inl hd)).symm]
    exact h.main
  case owner =>
    intro e x he
    rw [hitemCo]
    by_cases hec : e = c
    · rw [hec, hself] at he
      cases he with
      | inl he => cases he
      | inr he =>
          cases he
          rw [hec]
          exact hco
    · rw [hstage_of e hec] at he
      exact h.owner e x he
  case top =>
    intro e x he
    by_cases hec : e = c
    · rw [hec]
      exact hcur
    · rw [hstage_of e hec] at he
      exact absurd he (hnoback e x)
  case fresh =>
    intro x hx
    rw [hitemCo] at hx
    rw [hnext]
    exact h.fresh x hx
  case round =>
    intro rest hr
    rw [hphase'] at hr
    exact absurd hr (hphase rest)
  case linked => exact fun m hm => (hblocked _).mpr ⟨h.linked m (hon m hm).1, hcall m hm⟩
  case handled =>
    intro k p hp hh hm
    rw [hpolls] at hp
    exact h.handled k p hp hh (hon _ hm).1
  case unhandled =>
    intro k p i hp hh hm
    rw [hpolls] at hp
    exact h.unhandled k p i hp hh (hon _ hm).1
  case single => exact fun k i j hi hj => h.single k i j (hon _ hi).1 (hon _ hj).1
  case waiting =>
    intro k hk
    cases h.waiting k (hwaits k hk) with
    | inl hb =>
        by_cases hkn : Call.wait k = n.call
        · exact Or.inr ⟨c, by rw [hself, hkn]⟩
        · exact Or.inl ((hblocked _).mpr ⟨hb, hkn⟩)
    | inr hb =>
        obtain ⟨e, he⟩ := hb
        exact absurd he (hnoback e _)
  case once =>
    intro x hx
    rw [hresumed] at hx
    rw [hblocked, hnext]
    cases List.mem_append.mp hx with
    | inl hx => exact ⟨(h.once x hx).1, fun hb => (h.once x hx).2 hb.1⟩
    | inr hx =>
        rw [List.mem_singleton.mp hx]
        exact ⟨(h.blocked_live ⟨c, hd⟩).2, fun hb => hb.2 rfl⟩
  case nodup =>
    rw [hresumed]
    apply List.nodup_append.mpr
    refine ⟨h.nodup, List.nodup_singleton _, ?_⟩
    intro x hx y hy heq
    rw [List.mem_singleton.mp hy] at heq
    rw [heq] at hx
    exact (h.once _ hx).2 ⟨c, hd⟩

/-- **The resumed call returns**: its memory goes, and no list knows of it. -/
theorem LoopInv.return (h : LoopInv s v) (hcur : getCurrCo s = some c)
    (hback : s.stage c = .back x) (hrep : Represents t w)
    (hstage : t.stage = Function.update s.stage c .running)
    (hnext : t.next = s.next) (hlog : t.resumed = s.resumed) (hphase : t.phase = s.phase)
    (hitem : ∀ y, t.itemCo y = if y = x then none else s.itemCo y)
    (hpolls : ∀ k p, t.polls k = some p → s.polls k = some p)
    (hon : ∀ n, w.On n → v.On n) (hwaits : ∀ k, w.Waits k → v.Waits k ∧ .wait k ≠ x) :
    LoopInv t w := by
  have hold : ∀ y, s.stage c ≠ .blocked y := by
    intro y hy
    rw [hback] at hy
    cases hy
  have hblocked : ∀ y, t.Blocked y ↔ s.Blocked y := by
    intro y
    rw [blocked_update hstage hold]
    simp
  have hnoback : ∀ d y, t.stage d ≠ .back y := by
    intro d y hd
    rw [hstage] at hd
    by_cases hdc : d = c
    · rw [hdc, Function.update_self] at hd
      cases hd
    · rw [Function.update_of_ne hdc] at hd
      exact hdc (Option.some.inj ((h.top d y hd).symm.trans hcur))
  -- the only coroutine in the call is the one that returns
  have hnot : ¬ s.Blocked x := by
    intro hx
    obtain ⟨d, hd⟩ := hx
    have hdc : d = c := h.owner_unique (Or.inl hd) (Or.inr hback)
    rw [hdc] at hd
    exact hold x hd
  constructor
  case rep => exact hrep
  case main =>
    rw [hstage, Function.update_of_ne (h.ne_main (Or.inr hback)).symm]
    exact h.main
  case owner =>
    intro d y hd
    cases hd with
    | inl hd =>
        have hb : s.Blocked y := (hblocked y).mp ⟨d, hd⟩
        have hyx : y ≠ x := fun heq => hnot (heq ▸ hb)
        rw [hitem, if_neg hyx]
        rw [hstage] at hd
        by_cases hdc : d = c
        · rw [hdc, Function.update_self] at hd
          cases hd
        · rw [Function.update_of_ne hdc] at hd
          exact h.owner d y (Or.inl hd)
    | inr hd => exact absurd hd (hnoback d y)
  case top => exact fun d y hd => absurd hd (hnoback d y)
  case fresh =>
    intro y hy
    rw [hitem] at hy
    rw [hnext]
    by_cases hyx : y = x
    · rw [if_pos hyx] at hy
      exact absurd rfl hy
    · rw [if_neg hyx] at hy
      exact h.fresh y hy
  case round =>
    intro rest hr
    rw [hphase] at hr
    -- in the middle of a batch the main coroutine runs, which is in no call
    have hmain := (h.round rest hr).1
    unfold getCurrCo at hcur
    rw [hmain] at hcur
    exact absurd (Option.some.inj hcur).symm (h.ne_main (Or.inr hback))
  case linked => exact fun n hn => (hblocked _).mpr (h.linked n (hon n hn))
  case handled => exact fun k p hp hh hn => h.handled k p (hpolls k p hp) hh (hon _ hn)
  case unhandled => exact fun k p i hp hh hn => h.unhandled k p i (hpolls k p hp) hh (hon _ hn)
  case single => exact fun k i j hi hj => h.single k i j (hon _ hi) (hon _ hj)
  case waiting =>
    intro k hk
    obtain ⟨hin, hkx⟩ := hwaits k hk
    cases h.waiting k hin with
    | inl hb => exact Or.inl ((hblocked _).mpr hb)
    | inr hb =>
        obtain ⟨d, hd⟩ := hb
        have hdc : d = c := Option.some.inj ((h.top d _ hd).symm.trans hcur)
        rw [hdc, hback] at hd
        cases hd
        exact absurd rfl hkx
  case once =>
    intro y hy
    rw [hlog] at hy
    rw [hblocked, hnext]
    exact h.once y hy
  case nodup =>
    rw [hlog]
    exact h.nodup

/-- **An event is dispatched**: the first one moves the call from its `Stpoll_t` to the item. -/
theorem LoopInv.dispatch (h : LoopInv s v) {k i : Nat} {rest : List (Nat × Nat)} {p p' : Stpoll}
    (hphase : s.phase = .dispatch ((k, i) :: rest)) (hp : s.polls k = some p)
    (hrep : Represents t w) (hpolls : t.polls = Function.update s.polls k (some p'))
    (hsame : p'.ItemCo = p.ItemCo ∧ p'.fds = p.fds ∧ p'.IsHandle = true)
    (hstage : t.stage = s.stage) (hitems : t.items = s.items) (hstack : t.stack = s.stack)
    (hnext : t.next = s.next) (hlog : t.resumed = s.resumed) (hphase' : t.phase = .dispatch rest)
    (hon : ∀ n, w.On n → v.On n ∧ n ≠ .poll k ∨ n = .item k i ∧ p.IsHandle = false)
    (hwaits : w.cond = v.cond) : LoopInv t w := by
  have hpoll : ∀ j q, t.polls j = some q → j = k ∧ q = p' ∨ j ≠ k ∧ s.polls j = some q := by
    intro j q hq
    rw [hpolls] at hq
    by_cases hj : j = k
    · rw [hj, Function.update_self] at hq
      exact Or.inl ⟨hj, (Option.some.inj hq).symm⟩
    · rw [Function.update_of_ne hj] at hq
      exact Or.inr ⟨hj, hq⟩
  have hitemCo : ∀ x, t.itemCo x = s.itemCo x := by
    intro x
    cases x with
    | poll j =>
        simp only [Loop.itemCo, hpolls]
        by_cases hj : j = k
        · rw [hj, Function.update_self, hp, Option.map_some, Option.map_some, hsame.1]
        · rw [Function.update_of_ne hj]
    | wait j => simp only [Loop.itemCo, hitems]
  have hblocked : ∀ x, t.Blocked x ↔ s.Blocked x := by
    intro x
    unfold Loop.Blocked
    rw [hstage]
  -- an event is of a suspended call, so its item may be linked
  obtain ⟨hmain, hsuspended⟩ := h.round _ hphase
  have hk : s.Blocked (.poll k) := by
    obtain ⟨q, hq, hst, -⟩ := hsuspended (k, i) List.mem_cons_self
    exact ⟨q.ItemCo, hst⟩
  constructor
  case rep => exact hrep
  case main => rw [hstage]; exact h.main
  case owner =>
    intro d x hd
    rw [hstage] at hd
    rw [hitemCo]
    exact h.owner d x hd
  case top =>
    intro d x hd
    rw [hstage] at hd
    unfold getCurrCo
    rw [hstack]
    exact h.top d x hd
  case fresh =>
    intro x hx
    rw [hitemCo] at hx
    rw [hnext]
    exact h.fresh x hx
  case round =>
    intro rest' hr
    rw [hphase'] at hr
    cases hr
    rw [hstack]
    refine ⟨hmain, fun e he => ?_⟩
    obtain ⟨q, hq, hst, hlt⟩ := hsuspended e (List.mem_cons_of_mem _ he)
    unfold Loop.Suspended
    rw [hpolls, hstage]
    by_cases hj : e.1 = k
    · have hqp : q = p := by
        rw [hj] at hq
        exact Option.some.inj (hq.symm.trans hp)
      rw [hqp] at hst hlt
      rw [hj, Function.update_self]
      rw [hj] at hst
      exact ⟨p', rfl, by rw [hsame.1]; exact hst, by rw [hsame.2.1]; exact hlt⟩
    · rw [Function.update_of_ne hj]
      exact ⟨q, hq, hst, hlt⟩
  case linked =>
    intro n hn
    rw [hblocked]
    cases hon n hn with
    | inl hin => exact h.linked n hin.1
    | inr hnew => rw [hnew.1]; exact hk
  case handled =>
    intro j q hq hh hn
    cases hon _ hn with
    | inl hin =>
        cases hpoll j q hq with
        | inl heq => exact hin.2 (by rw [heq.1])
        | inr hold => exact h.handled j q hold.2 hh hin.1
    | inr hnew => cases hnew.1
  case unhandled =>
    intro j q i' hq hh hn
    cases hpoll j q hq with
    | inl heq =>
        rw [heq.2, hsame.2.2] at hh
        cases hh
    | inr hold =>
        cases hon _ hn with
        | inl hin => exact h.unhandled j q i' hold.2 hh hin.1
        | inr hnew =>
            cases hnew.1
            exact hold.1 rfl
  case single =>
    intro j i₁ i₂ h₁ h₂
    -- a first item is alone: before it there was none
    cases hon _ h₁ with
    | inl hin₁ =>
        cases hon _ h₂ with
        | inl hin₂ => exact h.single j i₁ i₂ hin₁.1 hin₂.1
        | inr hnew₂ =>
            cases hnew₂.1
            exact absurd hin₁.1 (h.unhandled k p i₁ hp hnew₂.2)
    | inr hnew₁ =>
        cases hnew₁.1
        cases hon _ h₂ with
        | inl hin₂ => exact absurd hin₂.1 (h.unhandled k p i₂ hp hnew₁.2)
        | inr hnew₂ =>
            cases hnew₂.1
            rfl
  case waiting =>
    intro j hj
    rw [hblocked]
    have hback : t.Back (.wait j) ↔ s.Back (.wait j) := by
      unfold Loop.Back
      rw [hstage]
    rw [hback]
    apply h.waiting
    unfold Lists.Waits at *
    rw [hwaits] at hj
    exact hj
  case once =>
    intro x hx
    rw [hlog] at hx
    rw [hblocked, hnext]
    exact h.once x hx
  case nodup => rw [hlog]; exact h.nodup

/-! ## §4. Membership after an effect. -/

theorem on_appended {l : Place EventLink → List Node} {g h : Place EventLink} {m n : Node}
    (hm : m ∈ appended l g n h) : (∃ h, m ∈ l h) ∨ m = n := by
  cases mem_appended.mp hm with
  | inl hin => exact Or.inl ⟨h, hin⟩
  | inr hnew => exact Or.inr hnew.1

theorem on_erased {l : Place EventLink → List Node} {h : Place EventLink} {m n : Node}
    (hm : m ∈ erased l n h) : m ∈ l h := List.mem_of_mem_erase hm

theorem on_woken {l : Place EventLink → List Node} {h : Place EventLink} {k : Nat} {m : Node}
    (hm : m ∈ woken l k h) : (∃ h, m ∈ l h) ∨ m = .cond k := by
  cases on_appended hm with
  | inl hin =>
      obtain ⟨g, hg⟩ := hin
      exact Or.inl ⟨g, on_erased hg⟩
  | inr heq => exact Or.inr heq

theorem on_foldl_woken {h : Place EventLink} {m : Node} : ∀ (ks : List Nat)
    {l : Place EventLink → List Node}, m ∈ ks.foldl woken l h →
    (∃ h, m ∈ l h) ∨ ∃ k ∈ ks, m = .cond k := by
  intro ks
  induction ks with
  | nil => exact fun hm => Or.inl ⟨h, hm⟩
  | cons k ks ih =>
      intro l hm
      rw [List.foldl_cons] at hm
      cases ih hm with
      | inl hin =>
          obtain ⟨g, hg⟩ := hin
          exact (on_woken hg).imp_right fun heq => ⟨k, List.mem_cons_self, heq⟩
      | inr hnew =>
          obtain ⟨j, hj, heq⟩ := hnew
          exact Or.inr ⟨j, List.mem_cons_of_mem _ hj, heq⟩

/-- What has expired was in the wheel or already out of it. -/
theorem on_expired {l : Place EventLink → List Node} {js : List Nat} {h : Place EventLink}
    {m : Node} (hm : m ∈ expired l js h) : ∃ h, m ∈ l h := by
  obtain ⟨⟨moved, hout, hmoved⟩, hslot, hother⟩ := foldl_joined_moves EventLink.TimeoutLink js l
  have htime : ∀ n, n ∈ js.foldl (joined .TimeoutLink) l timeoutLink → ∃ h, n ∈ l h := by
    intro n hn
    rw [hout] at hn
    cases List.mem_append.mp hn with
    | inl hin => exact ⟨_, hin⟩
    | inr hin =>
        obtain ⟨j, hj⟩ := hmoved n hin
        exact ⟨_, hj⟩
  unfold expired at hm
  by_cases ht : h = timeoutLink
  · rw [ht, Function.update_self] at hm
    exact absurd hm List.not_mem_nil
  rw [Function.update_of_ne ht] at hm
  by_cases ha : h = activeLink
  · rw [ha, Function.update_self] at hm
    cases List.mem_append.mp hm with
    | inl hin =>
        rw [hother .ActiveLink (by decide)] at hin
        exact ⟨_, hin⟩
    | inr hin => exact htime m hin
  · rw [Function.update_of_ne ha] at hm
    cases h with
    | slot j =>
        cases hslot j with
        | inl hempty =>
            rw [hempty] at hm
            exact absurd hm List.not_mem_nil
        | inr hsame =>
            rw [hsame] at hm
            exact ⟨_, hm⟩
    | other o =>
        cases o with
        | TimeoutLink => exact absurd rfl ht
        | ActiveLink => exact absurd rfl ha

/-! ## §5. Every step keeps the invariant. -/

/-- Allowed steps use live memory only. -/
theorem LoopInv.live (h : LoopInv s v) (a : Action) : s.Live v a := by
  cases a with
  | back =>
      intro c k _ hstage
      have hown := h.owner c _ (Or.inr hstage)
      intro hnone
      simp [Loop.itemCo, hnone] at hown
  | prepare =>
      intro e rest hphase
      obtain ⟨p, hp, -⟩ := (h.round _ hphase).2 e List.mem_cons_self
      rw [Option.mem_def.mp hp]
      simp
  | drain =>
      intro n hn
      exact (h.blocked_live (h.linked n ⟨_, List.mem_of_mem_head? hn⟩)).1
  | _ => trivial

/-- A waiter that user code finds on a list is suspended. -/
theorem LoopInv.waiter_blocked (h : LoopInv s v) (hturn : s.UserTurn) {k cv : Nat}
    (hk : k ∈ v.cond cv) : s.Blocked (.wait k) := by
  cases h.waiting k ⟨cv, hk⟩ with
  | inl hb => exact hb
  | inr hb =>
      obtain ⟨d, hd⟩ := hb
      exact absurd hd (h.no_back hturn d _)

theorem getCurrCo_eq {rest : List Co} (hs : s.stack = c :: rest) : getCurrCo s = some c := by
  unfold getCurrCo
  rw [hs]
  rfl

theorem itemCo_update_polls {k : Nat} {q : Option Stpoll} {o : Option Co} {y : Call}
    (hpolls : t.polls = Function.update s.polls k q) (hitems : t.items = s.items)
    (ho : q.map Stpoll.ItemCo = o) :
    t.itemCo y = if y = .poll k then o else s.itemCo y := by
  rw [← ho]
  cases y with
  | poll j =>
      simp only [Loop.itemCo, hpolls]
      by_cases hj : j = k
      · rw [hj, Function.update_self, if_pos rfl]
      · have hne : ¬ Call.poll j = .poll k := fun heq => hj (Call.poll.inj heq)
        rw [Function.update_of_ne hj, if_neg hne]
  | wait j =>
      simp only [Loop.itemCo, hitems]
      rw [if_neg (by simp)]

theorem itemCo_update_items {k : Nat} {q : Option CondItem} {o : Option Co} {y : Call}
    (hpolls : t.polls = s.polls) (hitems : t.items = Function.update s.items k q)
    (ho : q.map CondItem.ItemCo = o) :
    t.itemCo y = if y = .wait k then o else s.itemCo y := by
  rw [← ho]
  cases y with
  | poll j =>
      simp only [Loop.itemCo, hpolls]
      rw [if_neg (by simp)]
  | wait j =>
      simp only [Loop.itemCo, hitems]
      by_cases hj : j = k
      · rw [hj, Function.update_self, if_pos rfl]
      · have hne : ¬ Call.wait j = .wait k := fun heq => hj (Call.wait.inj heq)
        rw [Function.update_of_ne hj, if_neg hne]

theorem waits_appended {l : Nat → List Nat} {cv j k : Nat}
    (hk : ∃ cv', k ∈ appended l cv j cv') : (∃ cv', k ∈ l cv') ∨ k = j := by
  obtain ⟨cv', hin⟩ := hk
  cases mem_appended.mp hin with
  | inl hold => exact Or.inl ⟨cv', hold⟩
  | inr hnew => exact Or.inr hnew.1

/-- Delivered, expired and broadcast nodes leave no trace in `resumed`. -/
theorem filterMap_call_map {α : Type} {f : α → Event} (hf : ∀ i, (f i).call? = none)
    (is : List α) : (is.map f).filterMap Event.call? = [] := by
  rw [List.filterMap_map]
  exact List.filterMap_eq_nil_iff.mpr fun i _ => hf i

/-- The running coroutine, other than the main one, leaves the stack. -/
theorem LoopInv.leave (h : LoopInv s v) (hturn : s.UserTurn) (hcur : getCurrCo s = some c)
    (hne : c ≠ mainCo) {st : Stage} {rest : List Co}
    (hnew : ∀ y, st ≠ .blocked y ∧ st ≠ .back y) :
    LoopInv { s with stack := rest, stage := Function.update s.stage c st } v :=
  h.restage (fun heq => absurd heq hne) (h.no_dispatch hturn) (running_not_blocked hturn hcur)
    (h.no_back hturn) hnew

/-- **A signal** takes the first waiter off the list and makes its node active. -/
theorem LoopInv.signal (h : LoopInv s v) (hturn : s.UserTurn) {cv k : Nat} {ks : List Nat}
    (hcv : v.cond cv = k :: ks) {links : Links Node (Place EventLink)} {conds : Links Nat Nat}
    (hrep : Represents { s with links, conds, log := s.log ++ [.signalled cv k] }
      { event := woken v.event k, cond := Function.update v.cond cv ks }) :
    LoopInv { s with links, conds, log := s.log ++ [.signalled cv k] }
      { event := woken v.event k, cond := Function.update v.cond cv ks } := by
  have hk : k ∈ v.cond cv := by
    rw [hcv]
    exact List.mem_cons_self
  apply h.relist hrep rfl rfl rfl rfl (Nat.le_refl _) (by simp [Loop.resumed, Event.call?])
  · exact fun rest hr => absurd hr (h.no_dispatch hturn rest)
  · intro n hn
    obtain ⟨g, hg⟩ := hn
    exact (on_woken hg).imp_right fun heq => ⟨k, heq, h.waiter_blocked hturn hk⟩
  · intro j hj
    obtain ⟨cv', hin⟩ := hj
    exact ⟨cv', (h.rep.conds.mem_popped hcv hin).1⟩

/-- **A broadcast** does so for every waiter. -/
theorem LoopInv.broadcast (h : LoopInv s v) (hturn : s.UserTurn) {cv : Nat}
    {links : Links Node (Place EventLink)} {conds : Links Nat Nat}
    (hrep : Represents { s with links, conds, log := s.log ++ (v.cond cv).map (.broadcast cv) }
      { event := (v.cond cv).foldl woken v.event, cond := Function.update v.cond cv [] }) :
    LoopInv { s with links, conds, log := s.log ++ (v.cond cv).map (.broadcast cv) }
      { event := (v.cond cv).foldl woken v.event, cond := Function.update v.cond cv [] } := by
  have hlog := filterMap_call_map (f := Event.broadcast cv) (fun _ => rfl) (v.cond cv)
  apply h.relist hrep rfl rfl rfl rfl (Nat.le_refl _)
    (by simp only [Loop.resumed, List.filterMap_append, hlog, List.append_nil])
  · exact fun rest hr => absurd hr (h.no_dispatch hturn rest)
  · intro n hn
    obtain ⟨g, hg⟩ := hn
    cases on_foldl_woken _ hg with
    | inl hin => exact Or.inl hin
    | inr hnew =>
        obtain ⟨k, hk, heq⟩ := hnew
        exact Or.inr ⟨k, heq, h.waiter_blocked hturn hk⟩
  · intro j hj
    obtain ⟨cv', hin⟩ := hj
    exact ⟨cv', (h.rep.conds.mem_cleared hin).1⟩

/-- **Every allowed step keeps the invariant.** -/
theorem LoopInv.step (h : LoopInv s v) (hok : s.Allowed a) (heff : Effect s v a t w)
    (hrep : Represents t w) : LoopInv t w := by
  cases heff with
  | resume co =>
      obtain ⟨hturn, hout, hst⟩ := hok
      apply h.restage (fun _ => rfl) (h.no_dispatch hturn) _ (h.no_back hturn) (by simp)
      intro y hy
      cases hst with
      | inl hf => rw [hf] at hy; cases hy
      | inr hf => rw [hf] at hy; cases hy
  | @yeild c rest hs =>
      have hcur := getCurrCo_eq hs
      exact h.leave hok.1 hcur (Loop.CoTurn.ne_main hok hcur) (by simp)
  | @finish c rest hs =>
      have hcur := getCurrCo_eq hs
      exact h.leave hok.1 hcur (Loop.CoTurn.ne_main hok hcur) (by simp)
  | pollRefused links hrefused =>
      apply h.relist hrep rfl rfl rfl rfl (Nat.le_succ _) (by simp [Loop.resumed, Event.call?])
      · exact fun rest hr => absurd hr (h.no_dispatch hok.1 rest)
      · intro n hn
        obtain ⟨g, hg⟩ := hn
        exact Or.inl ⟨g, on_erased hg⟩
      · exact fun k hk => hk
  | @pollBlocked c rest fds timeout now links hs haccepted =>
      have hcur := getCurrCo_eq hs
      have hmain : c ≠ mainCo := Loop.CoTurn.ne_main hok hcur
      -- the new `Stpoll_t` is unhandled, and its node is the one that is appended
      apply h.block hok.1 hcur hmain (x := .poll s.next) rfl hrep rfl rfl rfl rfl
      · exact fun y => itemCo_update_polls rfl rfl rfl
      · intro k p hp
        dsimp only at hp
        by_cases hk : k = s.next
        · rw [hk, Function.update_self] at hp
          cases hp
          exact Or.inl ⟨by rw [hk], rfl⟩
        · rw [Function.update_of_ne hk] at hp
          exact Or.inr hp
      · intro n hn
        obtain ⟨g, hg⟩ := hn
        cases on_appended hg with
        | inl hin => exact Or.inl hin
        | inr heq => exact Or.inr (by rw [heq]; exact ⟨rfl, by simp⟩)
      · exact fun k hk => Or.inl hk
  | waitRefused ret hrefused htimed =>
      apply h.relist hrep rfl rfl rfl rfl (Nat.le_succ _) (by simp [Loop.resumed, Event.call?])
      · exact fun rest hr => absurd hr (h.no_dispatch hok.1 rest)
      · exact fun n hn => Or.inl hn
      · exact fun k hk => hk
  | @waitTimed c rest cv now timeOut links conds hs haccepted htimed =>
      have hcur := getCurrCo_eq hs
      have hmain : c ≠ mainCo := Loop.CoTurn.ne_main hok hcur
      apply h.block hok.1 hcur hmain (x := .wait s.next) rfl hrep rfl rfl rfl
        (by simp [Loop.resumed, Event.call?])
      · exact fun y => itemCo_update_items rfl rfl rfl
      · exact fun k p hp => Or.inr hp
      · intro n hn
        obtain ⟨g, hg⟩ := hn
        cases on_appended hg with
        | inl hin => exact Or.inl hin
        | inr heq => exact Or.inr (by rw [heq]; exact ⟨rfl, by simp⟩)
      · exact fun k hk => (waits_appended hk).imp_right fun heq => by rw [heq]
  | @waitUntimed c rest cv now timeOut conds hs huntimed =>
      have hcur := getCurrCo_eq hs
      have hmain : c ≠ mainCo := Loop.CoTurn.ne_main hok hcur
      apply h.block hok.1 hcur hmain (x := .wait s.next) rfl hrep rfl rfl rfl
        (by simp [Loop.resumed, Event.call?])
      · exact fun y => itemCo_update_items rfl rfl rfl
      · exact fun k p hp => Or.inr hp
      · exact fun n hn => Or.inl hn
      · exact fun k hk => (waits_appended hk).imp_right fun heq => by rw [heq]
  | signalNone hcv => exact h
  | signal links conds hcv => exact h.signal hok hcv hrep
  | broadcast links conds => exact h.broadcast hok hrep
  | @pollBack c rest k p links hs hstage hp =>
      have hcur := getCurrCo_eq hs
      apply h.return hcur hstage hrep rfl rfl (by simp [Loop.resumed, Event.call?]) rfl
      · exact fun y => itemCo_update_polls rfl rfl rfl
      · intro j p hp
        dsimp only at hp
        by_cases hj : j = k
        · rw [hj, Function.update_self] at hp
          cases hp
        · rw [Function.update_of_ne hj] at hp
          exact hp
      · intro n hn
        obtain ⟨g, hg⟩ := hn
        exact ⟨g, on_erased hg⟩
      · exact fun j hj => ⟨hj, by simp⟩
  | @waitBack c rest k conds hs hstage =>
      have hcur := getCurrCo_eq hs
      apply h.return hcur hstage hrep rfl rfl (by simp [Loop.resumed, Event.call?]) rfl
      · exact fun y => itemCo_update_items rfl rfl rfl
      · exact fun j p hp => hp
      · exact fun n hn => hn
      · intro j hj
        obtain ⟨cv, hin⟩ := hj
        obtain ⟨hne, hin⟩ := h.rep.conds.mem_erased.mp hin
        exact ⟨⟨cv, hin⟩, fun heq => hne (by cases heq; rfl)⟩
  | epollWait batch =>
      -- the kernel reports events of suspended calls only
      obtain ⟨hmain, -, hbatch⟩ := hok
      apply h.relist hrep rfl rfl rfl rfl (Nat.le_refl _) rfl
      · intro rest hr
        cases hr
        exact ⟨hmain, hbatch⟩
      · exact fun n hn => Or.inl hn
      · exact fun k hk => hk
  | @prepareAgain k i rest p hphase hp hhandled =>
      apply h.dispatch hphase hp hrep rfl ⟨rfl, rfl, hhandled⟩ rfl rfl rfl rfl
        (by simp [Loop.resumed, Event.call?]) rfl _ rfl
      intro n hn
      -- the `Stpoll_t` left the lists when the first event came
      refine Or.inl ⟨hn, fun heq => ?_⟩
      rw [heq] at hn
      exact h.handled k p hp hhandled hn
  | @prepare k i rest p links hphase hp hhandled =>
      apply h.dispatch hphase hp hrep rfl ⟨rfl, rfl, rfl⟩ rfl rfl rfl rfl
        (by simp [Loop.resumed, Event.call?]) rfl _ rfl
      intro n hn
      obtain ⟨g, hg⟩ := hn
      cases on_appended hg with
      | inl hin =>
          obtain ⟨g', hg'⟩ := hin
          obtain ⟨hne, hin⟩ := h.rep.links.mem_erased.mp hg'
          exact Or.inl ⟨⟨g', hin⟩, hne⟩
      | inr heq => exact Or.inr ⟨heq, hhandled⟩
  | @takeOut now n links hsize hearly hpast js hjs =>
      have hlog := filterMap_call_map (f := Event.takenOut) fun _ => rfl
      apply h.relist hrep rfl rfl rfl rfl (Nat.le_refl _)
        (by simp only [Loop.resumed, List.filterMap_append, hlog, List.append_nil])
      · intro rest hr
        cases hr
      · intro m hm
        obtain ⟨g, hg⟩ := hm
        exact Or.inl (on_expired hg)
      · exact fun k hk => hk
  | drainOver hempty =>
      apply h.relist hrep rfl rfl rfl rfl (Nat.le_refl _) rfl
      · intro rest hr
        cases hr
      · exact fun n hn => Or.inl hn
      · exact fun k hk => hk
  | @drain n ns co links hactive hco =>
      obtain ⟨hmain, hphase⟩ := hok
      have hnot : ∀ rest, s.phase ≠ .dispatch rest := by
        intro rest hr
        rw [hphase] at hr
        cases hr
      have hn : n ∈ v.event activeLink := by
        rw [hactive]
        exact List.mem_cons_self
      -- the head of `ActiveLink` is popped, and its call is the one that is resumed
      apply h.unblock hmain hnot ⟨_, hn⟩ hco hrep rfl rfl rfl rfl rfl rfl rfl
      · intro m hm
        obtain ⟨g, hg⟩ := hm
        obtain ⟨hin, hne⟩ := h.rep.links.mem_popped hactive hg
        exact ⟨⟨g, hin⟩, hne⟩
      · exact fun k hk => hk

/-- The step itself: it returns, and keeps the invariant. -/
theorem LoopInv.run_step (h : LoopInv s v) (hok : s.Allowed a) :
    ∃ t w, s.step a = some t ∧ Effect s v a t w ∧ LoopInv t w := by
  obtain ⟨t, w, hstep, heff, hrep⟩ := step_effect h.rep hok (h.live a)
  exact ⟨t, w, hstep, heff, h.step hok heff hrep⟩

/-- **Every state of every run** satisfies the invariant. -/
theorem LoopInv.of_run {as : List Action} (hrun : Run Loop.Step Loop.init as s) :
    ∃ v, LoopInv s v := by
  have hkeep : ∀ s a t, (∃ v, LoopInv s v) → Loop.Step s a t → ∃ v, LoopInv t v := by
    intro s a t h hstep
    obtain ⟨v, h⟩ := h
    obtain ⟨t', w, hstep', -, h'⟩ := h.run_step hstep.1
    have heq : t = t' := Option.some.inj (hstep.2.symm.trans hstep')
    rw [heq]
    exact ⟨w, h'⟩
  exact Run.invariant (I := fun s => ∃ v, LoopInv s v) hkeep hrun ⟨_, LoopInv.init⟩

/-! ## §6. One suspension, one node, one resumption. -/

/-- The return of a call frees its memory. -/
theorem Effect.back_gone (heff : Effect s v .back t w) (hcur : getCurrCo s = some c)
    (hback : s.stage c = .back x) : t.itemCo x = none := by
  cases heff with
  | @pollBack d rest k p links hs hstage hp =>
      have hdc : d = c := Option.some.inj ((getCurrCo_eq hs).symm.trans hcur)
      rw [hdc, hback] at hstage
      cases hstage
      simp [Loop.itemCo]
  | @waitBack d rest k conds hs hstage =>
      have hdc : d = c := Option.some.inj ((getCurrCo_eq hs).symm.trans hcur)
      rw [hdc, hback] at hstage
      cases hstage
      simp [Loop.itemCo]

/-- Nothing of a call whose memory is gone is linked. -/
theorem LoopInv.not_linked (h : LoopInv s v) (hgone : s.itemCo x = none) :
    (∀ n, v.On n → n.call ≠ x) ∧ ∀ k, v.Waits k → .wait k ≠ x := by
  constructor
  · intro n hn heq
    have hlive := (h.blocked_live (h.linked n hn)).1
    rw [heq] at hlive
    exact hlive hgone
  · intro k hk heq
    cases h.waiting k hk with
    | inl hb =>
        rw [heq] at hb
        exact (h.blocked_live hb).1 hgone
    | inr hb =>
        obtain ⟨d, hd⟩ := hb
        have hlive := h.owner d _ (Or.inr hd)
        rw [heq, hgone] at hlive
        cases hlive

/-- **One suspension, one node, one resumption.**  In every state of every run: allowed steps do not
fault; each list is free of repetitions and a suspension has at most one node on all of them; no call
was resumed twice; a node on a list, and an item on the list of a condition variable, is memory of a
call that has not returned; and when a resumed call returns, no list holds any of its nodes. -/
theorem suspension_once {as : List Action} (hrun : Run Loop.Step Loop.init as s) :
    (∀ a, s.Allowed a → ∃ t, s.step a = some t) ∧
    (∀ h, (s.links.items h).Nodup) ∧
    (∀ h h' m n, m ∈ s.links.items h → n ∈ s.links.items h' → m.call = n.call →
      m = n ∧ h = h') ∧
    s.resumed.Nodup ∧
    (∀ h n, n ∈ s.links.items h → s.Blocked n.call ∧ s.itemCo n.call ≠ none) ∧
    (∀ cv k, k ∈ s.conds.items cv → s.itemCo (.wait k) ≠ none) ∧
    ∀ x t, (∃ c ∈ getCurrCo s, s.stage c = .back x) → s.step .back = some t →
      t.itemCo x = none ∧ (∀ h, ∀ n ∈ t.links.items h, n.call ≠ x) ∧
      ∀ cv, ∀ k ∈ t.conds.items cv, .wait k ≠ x := by
  obtain ⟨v, h⟩ := LoopInv.of_run hrun
  have hon : ∀ {h' n}, n ∈ s.links.items h' → v.On n := by
    intro h' n hn
    rw [h.rep.links.items] at hn
    exact ⟨h', hn⟩
  refine ⟨?_, ?_, ?_, h.nodup, ?_, ?_, ?_⟩
  · intro a hok
    obtain ⟨t, -, hstep, -, -⟩ := h.run_step hok
    exact ⟨t, hstep⟩
  · intro h'
    rw [h.rep.links.items]
    exact h.rep.links.nodup h'
  · intro g g' m n hm hn hcall
    have hmn := h.node_unique (hon hm) (hon hn) hcall
    rw [h.rep.links.items] at hm hn
    rw [hmn] at hm
    exact ⟨hmn, h.rep.links.unique hm hn⟩
  · intro h' n hn
    -- what is linked is blocked, and who is blocked has its frame
    have hb := h.linked n (hon hn)
    exact ⟨hb, (h.blocked_live hb).1⟩
  · intro cv k hk
    rw [h.rep.conds.items] at hk
    cases h.waiting k ⟨cv, hk⟩ with
    | inl hb => exact (h.blocked_live hb).1
    | inr hb =>
        obtain ⟨c, hc⟩ := hb
        rw [h.owner c _ (Or.inr hc)]
        simp
  · intro x t hback hstep
    obtain ⟨c, hcur, hc⟩ := hback
    have hok : s.Allowed .back := ⟨c, hcur, by rw [hc]; rfl⟩
    obtain ⟨t', w, hstep', heff, h'⟩ := h.run_step hok
    rw [hstep] at hstep'
    cases hstep'
    -- the items of the frame end with the call, and none of them is linked then
    have hgone := heff.back_gone hcur hc
    obtain ⟨hnode, hitem⟩ := h'.not_linked hgone
    refine ⟨hgone, ?_, ?_⟩
    · intro g n hn
      rw [h'.rep.links.items] at hn
      exact hnode n ⟨g, hn⟩
    · intro cv k hk
      rw [h'.rep.conds.items] at hk
      exact hitem k ⟨cv, hk⟩

/-- Both descriptors of a poll are ready in the batch in whose round a waiter times out; the poll
returns. -/
theorem suspension_once_batch : ∃ s t, Run Loop.Step Loop.init
    [.resume 1, .poll [⟨3, 1⟩, ⟨4, 1⟩] 500 1000, .resume 2, .wait 7 5 1000,
      .epollWait [(0, 0), (0, 1)], .prepare, .prepare, .takeOut 1010, .drain] s ∧
    s.step .back = some t ∧ ∀ h, ∀ n ∈ t.links.items h, n.call ≠ .poll 0 := by
  have hcheck : checkRun Loop.step (fun s a => decide (s.Allowed a)) Loop.init
      [.resume 1, .poll [⟨3, 1⟩, ⟨4, 1⟩] 500 1000, .resume 2, .wait 7 5 1000,
        .epollWait [(0, 0), (0, 1)], .prepare, .prepare, .takeOut 1010, .drain]
      (fun s => decide (s.Allowed .back ∧ getCurrCo s = some 1 ∧
        s.stage 1 = .back (.poll 0))) = true := by
    decide +kernel
  have hof : ∀ (s : Loop) a t, decide (s.Allowed a) = true → s.step a = some t → s.Step a t :=
    fun s a t hok hstep => ⟨of_decide_eq_true hok, hstep⟩
  obtain ⟨s, hrun, hs⟩ := Run.of_check hof hcheck
  obtain ⟨hok, hcur, hstage⟩ := of_decide_eq_true hs
  obtain ⟨hreturns, -, -, -, -, -, hback⟩ := suspension_once hrun
  obtain ⟨t, hstep⟩ := hreturns .back hok
  exact ⟨s, t, hrun, hstep, (hback (.poll 0) t ⟨1, hcur, hstage⟩ hstep).2.1⟩

end RocketCo.CoRoutine
