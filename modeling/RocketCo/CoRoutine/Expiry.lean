/-
  RocketCo.CoRoutine.Expiry — the check in the drain of `EventLoop` never reports.

      if(item->IsTimeout && Now < item->ExpireTime) std::cerr << "ERROR : EventLoop Unexpected error."

  `IsTimeout` is set for what `TakeOutTimeout` has put on `TimeoutLink`, and `Now` is the clock reading of
  the round.  A stall may make the wheel late, and a signal may move an item that has timed out; no item is
  ever taken out before its time.

  Main result: `never_unexpected` — and behind each round both lists are empty, as the source says.
-/
import RocketCo.CoRoutine.Condition
import RocketCo.CoRoutine.HookPoll

namespace RocketCo.CoRoutine

open RocketCo.Lib

/-! ## §1. The check. -/

namespace Loop

/-- `ExpireTime` of an item; that of a `StPollItem` is cleared, and memory that is gone has none. -/
def ExpireTime (s : Loop) : Node → Nat
  | .poll k => ((s.polls k).map Stpoll.ExpireTime).getD 0
  | .item _ _ => 0
  | .cond k => ((s.items k).map CondItem.ExpireTime).getD 0

/-- `IsTimeout` of an item: `SetUpTimepoutLable` has found it on `TimeoutLink`.  Nothing takes the mark
back. -/
def IsTimeout (s : Loop) (n : Node) : Prop := .takenOut n ∈ s.log

instance (s : Loop) (n : Node) : Decidable (s.IsTimeout n) := inferInstanceAs (Decidable (_ ∈ _))

/-- Timeouts are an `int`, and the clock is past the first of them. -/
def IntTimeout (_ : Loop) : Action → Prop
  | .poll _ timeout now => 0 ≤ now + timeout ∧ timeout ≤ int32Max
  | .wait _ timeOut _ => timeOut ≤ int32Max
  | _ => True

instance (s : Loop) (a : Action) : Decidable (s.IntTimeout a) :=
  match a with
  | .poll _ _ _ => inferInstanceAs (Decidable (_ ∧ _))
  | .wait _ timeOut _ => inferInstanceAs (Decidable (timeOut ≤ int32Max))
  | .resume _ | .yeild | .finish | .signal _ | .broadcast _ | .back | .epollWait _ | .prepare
  | .takeOut _ | .drain => inferInstanceAs (Decidable True)

end Loop

/-- A thread, and the local variable `Now` of its `EventLoop`. -/
structure Rounds where
  loop : Loop
  Now : Nat

namespace Rounds

def init : Rounds := ⟨.init, 0⟩

/-- `Now` is read once a round. -/
def nowAfter (r : Rounds) : Action → Nat
  | .takeOut now => now
  | _ => r.Now

def step (r : Rounds) (a : Action) : Option Rounds :=
  (r.loop.step a).map fun loop => ⟨loop, r.nowAfter a⟩

/-- A step under a monotone clock. -/
def Step (r : Rounds) (a : Action) (r' : Rounds) : Prop :=
  (r.loop.Allowed a ∧ r.loop.ClockOk a ∧ r.loop.IntTimeout a) ∧ r.step a = some r'

/-- What the check would report: `item` is the first of `ActiveLink`. -/
def Unexpected (r : Rounds) : Prop :=
  ∃ item, r.loop.links.head activeLink = some item ∧ r.loop.IsTimeout item ∧
    r.Now < r.loop.ExpireTime item

end Rounds

/-! ## §2. The invariant. -/

/-- The slots of the wheel, without the other lists. -/
def slotsOnly (l : Place EventLink → List Node) : Place EventLink → List Node
  | .slot i => l (.slot i)
  | .other _ => []

/-- **What is taken out has expired**, and what is still in the wheel is not in a slot behind its time. -/
structure ExpiryInv (r : Rounds) (v : Lists) : Prop where
  early : Early r.loop.wheel r.loop.now (slotsOnly v.event) r.loop.ExpireTime
  clock : r.loop.now < clockMax
  now_le : r.Now ≤ r.loop.now
  marked : ∀ n, r.loop.IsTimeout n → n.call.addr < r.loop.next ∧ r.loop.ExpireTime n ≤ r.Now

variable {r : Rounds} {s t : Loop} {v w : Lists} {a : Action} {es : List Event} {k e now : Nat}

theorem ExpiryInv.init : ExpiryInv Rounds.init ⟨fun _ => [], fun _ => []⟩ := by
  constructor
  case early =>
    refine ⟨Nat.le_refl 0, Nat.le_refl 0, fun _ _ _ ha => absurd ha List.not_mem_nil, ?_⟩
    exact fun _ _ ha => absurd ha List.not_mem_nil
  case clock => decide
  case now_le => exact Nat.le_refl 0
  case marked => exact fun _ h => absurd h List.not_mem_nil

theorem ExpireTime_congr (hpolls : t.polls = s.polls) (hitems : t.items = s.items) (n : Node) :
    t.ExpireTime n = s.ExpireTime n := by
  cases n with
  | poll k => show ((t.polls k).map _).getD 0 = _; rw [hpolls]; rfl
  | item k i => rfl
  | cond k => show ((t.items k).map _).getD 0 = _; rw [hitems]; rfl

/-- **Keeping the invariant**, between two take-outs. -/
theorem ExpiryInv.keep (h : ExpiryInv r v) (hclock : t.now < clockMax) (hnow : r.loop.now ≤ t.now)
    (hnext : r.loop.next ≤ t.next) (hlog : t.log = r.loop.log ++ es)
    (hes : ∀ n, .takenOut n ∉ es)
    (hexp : ∀ n, n.call.addr < r.loop.next → t.ExpireTime n ≤ r.loop.ExpireTime n)
    (hearly : Early t.wheel t.now (slotsOnly w.event) t.ExpireTime) : ExpiryInv ⟨t, r.Now⟩ w := by
  constructor
  case early => exact hearly
  case clock => exact hclock
  case now_le => exact Nat.le_trans h.now_le hnow
  case marked =>
    intro n hn
    have hn' : Event.takenOut n ∈ t.log := hn
    rw [hlog] at hn'
    have hold := (List.mem_append.mp hn').resolve_right (hes n)
    obtain ⟨haddr, hle⟩ := h.marked n hold
    exact ⟨Nat.lt_of_lt_of_le haddr hnext, Nat.le_trans (hexp n haddr) hle⟩

/-- Steps that leave the wheel and the clock alone. -/
theorem ExpiryInv.quiet (h : ExpiryInv r v) (hwheel : t.wheel = r.loop.wheel)
    (hnow : t.now = r.loop.now) (hnext : r.loop.next ≤ t.next) (hlog : t.log = r.loop.log ++ es)
    (hes : ∀ n, .takenOut n ∉ es) (hexp : ∀ n, t.ExpireTime n ≤ r.loop.ExpireTime n)
    (hslot : ∀ i, ∀ n ∈ w.event (.slot i), n ∈ v.event (.slot i)) : ExpiryInv ⟨t, r.Now⟩ w := by
  refine h.keep (by rw [hnow]; exact h.clock) (Nat.le_of_eq hnow.symm) hnext hlog hes
    (fun n _ => hexp n) ?_
  rw [hwheel, hnow]
  refine h.early.mono (Nat.le_refl _) ?_ ?_
  · exact fun i n hn => ⟨hslot i n hn, hexp n⟩
  · exact fun o n hn => absurd hn List.not_mem_nil

/-! ### Deadlines come and go. -/

theorem ExpireTime_polls_ne {q : Option Stpoll} (hpolls : t.polls = Function.update s.polls k q)
    (hitems : t.items = s.items) {n : Node} (hn : n ≠ .poll k) : t.ExpireTime n = s.ExpireTime n := by
  cases n with
  | poll j =>
      have hj : j ≠ k := fun heq => hn (by rw [heq])
      show ((t.polls j).map _).getD 0 = _
      rw [hpolls, Function.update_of_ne hj]
      rfl
  | item j i => rfl
  | cond j => show ((t.items j).map _).getD 0 = _; rw [hitems]; rfl

theorem ExpireTime_items_ne {q : Option CondItem} (hitems : t.items = Function.update s.items k q)
    (hpolls : t.polls = s.polls) {n : Node} (hn : n ≠ .cond k) : t.ExpireTime n = s.ExpireTime n := by
  cases n with
  | poll j => show ((t.polls j).map _).getD 0 = _; rw [hpolls]; rfl
  | item j i => rfl
  | cond j =>
      have hj : j ≠ k := fun heq => hn (by rw [heq])
      show ((t.items j).map _).getD 0 = _
      rw [hitems, Function.update_of_ne hj]
      rfl

/-- A `Stpoll_t` that is handled keeps its deadline, and one that is deleted has none. -/
theorem ExpireTime_polls_le {q : Option Stpoll} (hpolls : t.polls = Function.update s.polls k q)
    (hitems : t.items = s.items) (hq : (q.map Stpoll.ExpireTime).getD 0 ≤ s.ExpireTime (.poll k))
    (n : Node) : t.ExpireTime n ≤ s.ExpireTime n := by
  by_cases hn : n = .poll k
  · rw [hn]
    show ((t.polls k).map _).getD 0 ≤ _
    rw [hpolls, Function.update_self]
    exact hq
  · exact Nat.le_of_eq (ExpireTime_polls_ne hpolls hitems hn)

theorem ExpireTime_items_le {q : Option CondItem} (hitems : t.items = Function.update s.items k q)
    (hpolls : t.polls = s.polls) (hq : (q.map CondItem.ExpireTime).getD 0 = 0) (n : Node) :
    t.ExpireTime n ≤ s.ExpireTime n := by
  by_cases hn : n = .cond k
  · rw [hn]
    show ((t.items k).map _).getD 0 ≤ _
    rw [hitems, Function.update_self, hq]
    exact Nat.zero_le _
  · exact Nat.le_of_eq (ExpireTime_items_ne hitems hpolls hn)

/-- A deadline does not reach the sign bit. -/
theorem deadline_lt {timeout : Int} (hlt : now < clockMax) (hlo : 0 ≤ now + timeout)
    (hhi : timeout ≤ int32Max) : toSizeT (now + timeout) < 2 ^ 63 := by
  unfold clockMax at hlt
  unfold int32Max at hhi
  unfold toSizeT
  omega

/-! ## §3. The steps. -/

/-- **A call that blocks with a timeout.** -/
theorem ExpiryInv.block (h : ExpiryInv r v) (hinv : LoopInv r.loop v) {n : Node}
    (hcall : n.call.addr = r.loop.next) (hnow : r.loop.now ≤ now) (hlt : now < clockMax)
    (haccepted : r.loop.wheel.Accepts now e) (he : e < 2 ^ 63)
    (hwheel : t.wheel = r.loop.wheel.begin now) (htnow : t.now = now)
    (hnext : t.next = r.loop.next + 1) (hlog : t.log = r.loop.log ++ es)
    (hes : ∀ n, .takenOut n ∉ es) (hself : t.ExpireTime n = e)
    (hother : ∀ m, m ≠ n → t.ExpireTime m = r.loop.ExpireTime m)
    (hevent : w.event = appended v.event (.slot (r.loop.wheel.deadlineSlot now e)) n) :
    ExpiryInv ⟨t, r.Now⟩ w := by
  have hnew : ∀ p, n ∉ v.event p := hinv.next_not_linked hcall
  have hnew' : ∀ p, n ∉ slotsOnly v.event p := by
    intro p
    cases p with
    | slot i => exact hnew _
    | other o => exact List.not_mem_nil
  have hinsert : Early (r.loop.wheel.begin now) now
      (appended (slotsOnly v.event) (.slot (r.loop.wheel.deadlineSlot now e)) n) t.ExpireTime :=
    h.early.insert hnow haccepted hnew' (Nat.le_of_eq hself)
      (fun hhuge => absurd he (Nat.not_lt.mpr hhuge)) fun m hm => Nat.le_of_eq (hother m hm)
  refine h.keep (by rw [htnow]; exact hlt) (by rw [htnow]; exact hnow) (by omega) hlog hes ?_ ?_
  · intro m hm
    have hne : m ≠ n := by
      intro heq
      rw [heq, hcall] at hm
      exact Nat.lt_irrefl _ hm
    exact Nat.le_of_eq (hother m hne)
  · rw [hwheel, htnow]
    refine hinsert.mono (Nat.le_refl _) ?_ fun o m hm => absurd hm List.not_mem_nil
    intro i m hm
    refine ⟨?_, Nat.le_refl _⟩
    have hm' : m ∈ w.event (.slot i) := hm
    rw [hevent] at hm'
    rcases mem_appended.mp hm' with hin | ⟨hmn, hslot, -⟩
    · exact mem_appended.mpr (Or.inl hin)
    · exact mem_appended.mpr (Or.inr ⟨hmn, hslot, hnew'⟩)

/-- A call that is turned down. -/
theorem ExpiryInv.refused (h : ExpiryInv r v) (hnow : r.loop.now ≤ now) (hlt : now < clockMax)
    (hwheel : t.wheel = r.loop.wheel.begin now) (htnow : t.now = now)
    (hnext : t.next = r.loop.next + 1) (hlog : t.log = r.loop.log ++ es)
    (hes : ∀ n, .takenOut n ∉ es) (hpolls : t.polls = r.loop.polls)
    (hitems : t.items = r.loop.items)
    (hslot : ∀ i, ∀ n ∈ w.event (.slot i), n ∈ v.event (.slot i)) : ExpiryInv ⟨t, r.Now⟩ w := by
  refine h.keep (by rw [htnow]; exact hlt) (by rw [htnow]; exact hnow) (by omega) hlog hes
    (fun n _ => Nat.le_of_eq (ExpireTime_congr hpolls hitems n)) ?_
  rw [hwheel, htnow]
  refine (h.early.begin hnow).mono (Nat.le_refl _) ?_ fun o m hm => absurd hm List.not_mem_nil
  exact fun i n hn => ⟨hslot i n hn, Nat.le_of_eq (ExpireTime_congr hpolls hitems n)⟩

/-- What is moved to a list comes from that list and from slots. -/
theorem foldl_joined_congr {N O : Type*} [DecidableEq O] {out : O} : ∀ (js : List Nat)
    {l l' : Place O → List N}, (∀ i, l' (.slot i) = l (.slot i)) → l' (.other out) = l (.other out) →
    js.foldl (joined out) l' (.other out) = js.foldl (joined out) l (.other out) := by
  intro js
  induction js with
  | nil => exact fun _ hout => hout
  | cons j js ih =>
      intro l l' hslot hout
      rw [List.foldl_cons, List.foldl_cons]
      apply ih
      · intro i
        by_cases hi : i = j
        · simp [hi, joined]
        · rw [joined_slot_of_ne out l' hi, joined_slot_of_ne out l hi, hslot]
      · simp [joined, hslot, hout]

/-- **A take-out** marks only what has expired. -/
theorem ExpiryInv.takeOut (h : ExpiryInv r v) (hinv : LoopInv r.loop v)
    (hempty : v.event timeoutLink = []) (hnow : r.loop.now ≤ now) (hlt : now < clockMax) {n : Nat}
    (hsize : n ≤ defaultSize)
    (hpast : (r.loop.wheel.begin now).Start ≤ now → n ≤ now - (r.loop.wheel.begin now).Start + 1)
    {js : List Nat}
    (hjs : js = (List.range n).map fun j => slotOf ((r.loop.wheel.begin now).Index + (j : Nat)))
    (hwheel : t.wheel = if n = 0 then r.loop.wheel.begin now
      else ⟨now, toInt64 ((r.loop.wheel.begin now).Index + ((n : Int) - 1))⟩)
    (htnow : t.now = now) (hnext : t.next = r.loop.next)
    (hlog : t.log = r.loop.log ++
      (js.foldl (joined .TimeoutLink) v.event timeoutLink).map .takenOut)
    (hpolls : t.polls = r.loop.polls) (hitems : t.items = r.loop.items)
    (hevent : w.event = expired v.event js) : ExpiryInv ⟨t, now⟩ w := by
  have hexp : ∀ n, t.ExpireTime n = r.loop.ExpireTime n := ExpireTime_congr hpolls hitems
  have hlt64 : now < 2 ^ 64 := Nat.lt_trans hlt (by decide)
  have htake := h.early.take EventLink.TimeoutLink hnow hlt64 hsize hpast
  rw [← hjs] at htake
  have hmoved : js.foldl (joined .TimeoutLink) (slotsOnly v.event) timeoutLink =
      js.foldl (joined .TimeoutLink) v.event timeoutLink :=
    foldl_joined_congr js (fun _ => rfl) hempty.symm
  constructor
  case early =>
    show Early t.wheel t.now (slotsOnly w.event) t.ExpireTime
    rw [hwheel, htnow]
    refine htake.mono (Nat.le_refl _) ?_ fun o m hm => absurd hm List.not_mem_nil
    intro i m hm
    refine ⟨?_, Nat.le_of_eq (hexp m)⟩
    have hm' : m ∈ w.event (.slot i) := hm
    rw [hevent] at hm'
    have hin := expired_slot hm'
    rw [foldl_joined_slot] at hin ⊢
    exact hin
  case clock => exact htnow ▸ hlt
  case now_le => exact Nat.le_of_eq htnow.symm
  case marked =>
    intro m hm
    show m.call.addr < t.next ∧ t.ExpireTime m ≤ now
    have hm' : Event.takenOut m ∈ t.log := hm
    rw [hlog] at hm'
    rw [hnext, hexp]
    rcases List.mem_append.mp hm' with hold | hnew
    · obtain ⟨haddr, hle⟩ := h.marked m hold
      exact ⟨haddr, Nat.le_trans hle (Nat.le_trans h.now_le hnow)⟩
    · obtain ⟨m', hin, heq⟩ := List.mem_map.mp hnew
      rw [Event.takenOut.inj heq] at hin
      have hdue : m ∈ js.foldl (joined .TimeoutLink) (slotsOnly v.event) timeoutLink := by
        rw [hmoved]
        exact hin
      refine ⟨?_, htake.out _ m hdue⟩
      -- it was in a slot, so its call is blocked and its memory there
      obtain ⟨moved, hout, hfrom⟩ := (foldl_joined_moves EventLink.TimeoutLink js v.event).1
      rw [hout, hempty, List.nil_append] at hin
      obtain ⟨j, hj⟩ := hfrom m hin
      exact hinv.fresh _ (hinv.blocked_live (hinv.linked m ⟨_, hj⟩)).1

/-- **Every step** keeps the invariant. -/
theorem ExpiryInv.step (h : ExpiryInv r v) (hinv : LoopInv r.loop v) (hempty : v.event timeoutLink = [])
    (hclock : r.loop.ClockOk a) (hint : r.loop.IntTimeout a) (heff : Effect r.loop v a t w) :
    ExpiryInv ⟨t, r.nowAfter a⟩ w := by
  have hnil : r.loop.log = r.loop.log ++ [] := (List.append_nil _).symm
  have hnone : ∀ n, Event.takenOut n ∉ ([] : List Event) := fun _ => List.not_mem_nil
  have hself : ∀ n, r.loop.ExpireTime n ≤ r.loop.ExpireTime n := fun _ => Nat.le_refl _
  cases heff with
  | resume co => exact h.quiet rfl rfl (Nat.le_refl _) hnil hnone hself fun i n hn => hn
  | yeild hs => exact h.quiet rfl rfl (Nat.le_refl _) hnil hnone hself fun i n hn => hn
  | finish hs => exact h.quiet rfl rfl (Nat.le_refl _) hnil hnone hself fun i n hn => hn
  -- a refused call leaves at most a wheel that has begun
  | pollRefused links hrefused =>
      exact h.refused hclock.1 hclock.2 rfl rfl rfl rfl (by simp) rfl rfl
        fun i n hn => on_erased hn
  | @pollBlocked c rest fds timeout now links hs haccepted =>
      have hlt := deadline_lt hclock.2 hint.1 hint.2
      refine h.block hinv (n := .poll r.loop.next) rfl hclock.1 hclock.2 haccepted hlt rfl rfl rfl hnil
        hnone ?_ ?_ rfl
      · show ((Function.update r.loop.polls r.loop.next _ r.loop.next).map _).getD 0 = _
        rw [Function.update_self]
        rfl
      · intro m hm
        apply ExpireTime_polls_ne (q := some ⟨c, fds, toSizeT (now + timeout), false, 0⟩) _ _ hm
        · rfl
        · rfl
  | waitRefused ret hrefused htimed =>
      obtain ⟨hnow, hlt⟩ := hclock htimed
      exact h.refused hnow hlt rfl rfl rfl rfl (by simp) rfl rfl fun i n hn => hn
  | @waitTimed c rest cv now timeOut links conds hs haccepted htimed =>
      obtain ⟨hnow, hclk⟩ := hclock htimed
      have hlt := deadline_lt hclk (by omega) hint
      refine h.block hinv (n := .cond r.loop.next) rfl hnow hclk haccepted hlt rfl rfl rfl rfl
        (by simp) ?_ ?_ rfl
      · show ((Function.update r.loop.items r.loop.next _ r.loop.next).map _).getD 0 = _
        rw [Function.update_self]
        rfl
      · intro m hm
        apply ExpireTime_items_ne (q := some ⟨c, toSizeT (now + timeOut)⟩) _ _ hm
        · rfl
        · rfl
  | waitUntimed conds hs huntimed =>
      exact h.quiet rfl rfl (Nat.le_succ _) rfl (by simp) (ExpireTime_items_le rfl rfl rfl)
        fun i n hn => hn
  | signalNone hcv => exact h.quiet rfl rfl (Nat.le_refl _) hnil hnone hself fun i n hn => hn
  | signal links conds hcv =>
      exact h.quiet rfl rfl (Nat.le_refl _) rfl (by simp) hself fun i n hn => woken_slot hn
  | broadcast links conds =>
      exact h.quiet rfl rfl (Nat.le_refl _) rfl (by simp) hself
        fun i n hn => (foldl_woken_place _).1 i hn
  | pollBack links hs hstage hp =>
      exact h.quiet rfl rfl (Nat.le_refl _) rfl (by simp)
        (ExpireTime_polls_le rfl rfl (Nat.zero_le _)) fun i n hn => on_erased hn
  | waitBack conds hs hstage =>
      exact h.quiet rfl rfl (Nat.le_refl _) rfl (by simp) (ExpireTime_items_le rfl rfl rfl)
        fun i n hn => hn
  | epollWait batch => exact h.quiet rfl rfl (Nat.le_refl _) hnil hnone hself fun i n hn => hn
  | prepareAgain hphase hp hhandled =>
      refine h.quiet rfl rfl (Nat.le_refl _) rfl (by simp) (ExpireTime_polls_le rfl rfl ?_)
        fun i n hn => hn
      show _ ≤ ((r.loop.polls _).map _).getD 0
      rw [hp]
      exact Nat.le_refl _
  | prepare links hphase hp hhandled =>
      refine h.quiet rfl rfl (Nat.le_refl _) rfl (by simp) (ExpireTime_polls_le rfl rfl ?_) ?_
      · show _ ≤ ((r.loop.polls _).map _).getD 0
        rw [hp]
        exact Nat.le_refl _
      · intro i n hn
        rcases mem_appended.mp hn with hin | ⟨-, hslot, -⟩
        · exact on_erased hin
        · cases hslot
  -- the only step that takes items out
  | takeOut links hsize hearly hpast hjs =>
      exact h.takeOut hinv hempty hclock.1 hclock.2 hsize hpast hjs rfl rfl rfl rfl rfl rfl rfl
  | drainOver hempty' => exact h.quiet rfl rfl (Nat.le_refl _) hnil hnone hself fun i n hn => hn
  | @drain m ns co links hactive hco =>
      refine h.quiet rfl rfl (Nat.le_refl _) rfl (by simp) hself ?_
      intro i n hn
      have hne : Place.slot i ≠ activeLink := by simp
      have hn' : n ∈ Function.update v.event activeLink ns (.slot i) := hn
      rw [Function.update_of_ne hne] at hn'
      exact hn'

/-! ## §4. Runs. -/

/-- The three invariants. -/
theorem ExpiryInv.of_run {as : List Action} (hrun : Run Rounds.Step Rounds.init as r) :
    ∃ v, LoopInv r.loop v ∧ CondInv r.loop v ∧ ExpiryInv r v := by
  have hkeep : ∀ r a r', (∃ v, LoopInv r.loop v ∧ CondInv r.loop v ∧ ExpiryInv r v) →
      Rounds.Step r a r' → ∃ v, LoopInv r'.loop v ∧ CondInv r'.loop v ∧ ExpiryInv r' v := by
    intro r a r' hinv hstep
    obtain ⟨v, h, hc, he⟩ := hinv
    obtain ⟨⟨hok, hclock, hint⟩, hcode⟩ := hstep
    obtain ⟨t, w, ht, heff, h'⟩ := h.run_step hok
    have hr' : r' = ⟨t, r.nowAfter a⟩ := by
      unfold Rounds.step at hcode
      rw [ht] at hcode
      exact (Option.some.inj hcode).symm
    rw [hr']
    exact ⟨w, h', (hc.step h hok heff).1, he.step h hc.timeout hclock hint heff⟩
  exact Run.invariant (I := fun r => ∃ v, LoopInv r.loop v ∧ CondInv r.loop v ∧ ExpiryInv r v) hkeep
    hrun ⟨_, LoopInv.init, CondInv.init, ExpiryInv.init⟩

/-- The drain goes on until `ActiveLink` is empty. -/
theorem drain_over (hdrain : s.phase = .drain) (hstep : drainOne s = some t) (hover : t.phase = .user) :
    s.links.head activeLink = none ∧ t.links = s.links := by
  unfold drainOne at hstep
  cases hhead : s.links.head activeLink with
  | none =>
      rw [hhead] at hstep
      rw [← Option.some.inj hstep]
      exact ⟨rfl, rfl⟩
  | some item =>
      rw [hhead] at hstep
      dsimp only at hstep
      cases hco : s.itemCo item.call with
      | none =>
          rw [hco] at hstep
          cases hstep
      | some co =>
          rw [hco] at hstep
          rw [← Option.some.inj hstep] at hover
          have hphase : s.phase = .user := hover
          rw [hdrain] at hphase
          cases hphase

/-- **The check in the drain never reports**: in every run under a monotone clock, however late the rounds
come and whoever signals whom, no item that is marked as timed out has its deadline ahead.  When the drain
is over, both lists are empty. -/
theorem never_unexpected {as : List Action} (hrun : Run Rounds.Step Rounds.init as r) :
    ¬ r.Unexpected ∧
    ∀ r', r.Step .drain r' → r'.loop.phase = .user →
      r'.loop.links.items activeLink = [] ∧ r'.loop.links.items timeoutLink = [] := by
  obtain ⟨v, h, hc, he⟩ := ExpiryInv.of_run hrun
  constructor
  · rintro ⟨item, -, hmarked, hlt⟩
    have hle := (he.marked item hmarked).2
    omega
  · intro r' hstep hover
    obtain ⟨⟨⟨-, hdrain⟩, -, -⟩, hcode⟩ := hstep
    obtain ⟨t, ht, heq⟩ := Option.map_eq_some_iff.mp hcode
    rw [← heq] at hover ⊢
    obtain ⟨hhead, hlinks⟩ := drain_over hdrain ht hover
    show t.links.items activeLink = [] ∧ t.links.items timeoutLink = []
    rw [hlinks, h.rep.links.items, h.rep.links.items, hc.timeout]
    rw [h.rep.links.head] at hhead
    exact ⟨List.head?_eq_none_iff.mp hhead, rfl⟩

/-- A waiter times out in a round that comes late, and is signalled before its turn. -/
theorem never_unexpected_late : ∃ r r', Run Rounds.Step Rounds.init
    [.resume 1, .poll [] 5 100, .resume 2, .wait 7 5 100, .epollWait [], .takeOut 150, .drain, .back,
      .signal 7, .finish] r ∧ ¬ r.Unexpected ∧ r.Step .drain r' := by
  have hcheck : checkRun Rounds.step
      (fun r a => decide (r.loop.Allowed a ∧ r.loop.ClockOk a ∧ r.loop.IntTimeout a)) Rounds.init
      [.resume 1, .poll [] 5 100, .resume 2, .wait 7 5 100, .epollWait [], .takeOut 150, .drain,
        .back, .signal 7, .finish]
      (fun r => decide ((r.loop.Allowed .drain ∧ r.loop.ClockOk .drain ∧ r.loop.IntTimeout .drain) ∧
        (r.step .drain).isSome)) = true := by
    decide +kernel
  have hof : ∀ (r : Rounds) a r', decide (r.loop.Allowed a ∧ r.loop.ClockOk a ∧ r.loop.IntTimeout a) =
      true → r.step a = some r' → r.Step a r' := fun r a r' hok hstep => ⟨of_decide_eq_true hok, hstep⟩
  obtain ⟨r, hrun, hr⟩ := Run.of_check hof hcheck
  obtain ⟨hok, hsome⟩ := of_decide_eq_true hr
  obtain ⟨r', hr'⟩ := Option.isSome_iff_exists.mp hsome
  exact ⟨r, r', hrun, (never_unexpected hrun).1, hok, hr'⟩

end RocketCo.CoRoutine
