/-
  RocketCo.CoRoutine.Drain — what one drain of `ActiveLink` resumes.

  `ConditionVariableSignal` and `ConditionVariableBroadcast` put what they pop on `ActiveLink`, to be
  processed after the next `Epoll_Wait`.  A coroutine that is resumed by the loop over `ActiveLink` may
  call them too, and the loop reads the head of that list anew in every turn: it goes on with what has
  been put there in the meantime.

  Main result: `drain_bounded_iff`.
-/
import RocketCo.CoRoutine.Condition

namespace RocketCo.CoRoutine

open RocketCo.Lib

/-! ## §1. One drain. -/

def Event.resumed? : Event → Option Node
  | .resumed n => some n
  | _ => none

def Event.added? : Event → Option Node
  | .signalled _ k | .broadcast _ k => some (.cond k)
  | _ => none

/-- The items that are resumed ... -/
def resumedItems (es : List Event) : List Node := es.filterMap Event.resumed?

/-- ... and those that are signalled. -/
def addedItems (es : List Event) : List Node := es.filterMap Event.added?

/-- What has been recorded between two states. -/
def since (s t : Loop) : List Event := t.log.drop s.log.length

namespace Loop

/-- A step in the loop over `ActiveLink`; the last one leaves it. -/
def DrainStep (s : Loop) (a : Action) (t : Loop) : Prop := s.phase = .drain ∧ s.Step a t

/-- The waiters that an action pops. -/
def pops (s : Loop) : Action → List Nat
  | .signal cv => (s.conds.items cv).head?.toList
  | .broadcast cv => s.conds.items cv
  | _ => []

/-- Every waiter that is popped is on `ActiveLink` already. -/
def Settled (s : Loop) (a : Action) : Prop :=
  ∀ k ∈ s.pops a, Node.cond k ∈ s.links.items activeLink

end Loop

/-- **Nothing that is signalled is resumed in the same drain.** -/
def LaterRound (s t : Loop) : Prop :=
  ∀ n ∈ addedItems (since s t), n ∉ resumedItems (since s t)

/-- **The items resumed are among those on `ActiveLink` when the drain started**, each of them once at
most. -/
def AtMostStart (s t : Loop) : Prop := (resumedItems (since s t)).Subperm (s.links.items activeLink)

/-! ## §2. One step. -/

variable {s t u u' : Loop} {w w' : Lists} {a : Action} {es es' : List Event} {A₀ : List Node}

theorem resumedItems_append (es es' : List Event) :
    resumedItems (es ++ es') = resumedItems es ++ resumedItems es' := List.filterMap_append

theorem addedItems_append (es es' : List Event) :
    addedItems (es ++ es') = addedItems es ++ addedItems es' := List.filterMap_append

theorem mem_resumedItems {n : Node} : n ∈ resumedItems es ↔ Event.resumed n ∈ es := by
  unfold resumedItems
  rw [List.mem_filterMap]
  constructor
  · rintro ⟨e, he, heq⟩
    cases e with
    | resumed m =>
        rw [← Option.some.inj heq]
        exact he
    | _ => cases heq
  · exact fun h => ⟨_, h, rfl⟩

/-- A signalled item is that of a waiter. -/
theorem exists_cond_of_added {n : Node} (h : n ∈ addedItems es) : ∃ k, n = .cond k := by
  obtain ⟨e, -, heq⟩ := List.mem_filterMap.mp h
  cases e with
  | signalled cv k => exact ⟨k, (Option.some.inj heq).symm⟩
  | broadcast cv k => exact ⟨k, (Option.some.inj heq).symm⟩
  | _ => cases heq

/-- **What a step of the drain does to `ActiveLink`**, with what it adds to the record: a turn resumes the
first item or ends the loop; any other step only puts there what it signals. -/
inductive DrainTurn (u : Loop) (w : Lists) (a : Action) (u' : Loop) (w' : Lists) :
    List Event → Prop where
  | between {es : List Event} (action : a ≠ .drain) (phase : u'.phase = .drain)
      (resumed : resumedItems es = []) (added : addedItems es = (u.pops a).map .cond)
      (comes : ∀ n ∈ w'.event activeLink, n ∈ w.event activeLink ∨ n ∈ addedItems es)
      (stays : ∀ k, .cond k ∈ w.event activeLink ∨ .cond k ∈ addedItems es →
        .cond k ∈ w'.event activeLink) : DrainTurn u w a u' w' es
  | next {n : Node} (action : a = .drain) (phase : u'.phase = .drain)
      (active : w.event activeLink = n :: w'.event activeLink) : DrainTurn u w a u' w' [.resumed n]
  | ended (action : a = .drain) (phase : u'.phase = .user) (active : w.event activeLink = [])
      (active' : w'.event activeLink = []) : DrainTurn u w a u' w' []

/-- A step between two turns that signals nothing. -/
theorem DrainTurn.quiet (haction : a ≠ .drain) (hphase : u'.phase = .drain) (hpops : u.pops a = [])
    (hresumed : resumedItems es = []) (hadded : addedItems es = [])
    (hcomes : ∀ n ∈ w'.event activeLink, n ∈ w.event activeLink)
    (hstays : ∀ k, .cond k ∈ w.event activeLink → .cond k ∈ w'.event activeLink) :
    DrainTurn u w a u' w' es := by
  refine .between haction hphase hresumed ?_ (fun n hn => Or.inl (hcomes n hn)) ?_
  · rw [hadded, hpops]
    rfl
  · intro k hk
    rw [hadded] at hk
    exact hstays k (hk.resolve_right List.not_mem_nil)

/-- **Every step in the loop is one of these.** -/
theorem drain_turn (h : LoopInv u w) (hc : CondInv u w) (hphase : u.phase = .drain)
    (hok : u.Allowed a) (heff : Effect u w a u' w') :
    ∃ es, u'.log = u.log ++ es ∧ DrainTurn u w a u' w' es := by
  -- what goes to a slot of the wheel leaves `ActiveLink` alone
  have hslot : ∀ (l : Place EventLink → List Node) j n m,
      m ∈ appended l (.slot j) n activeLink ↔ m ∈ l activeLink := by
    intro l j n m
    rw [appended_same (by simp)]
  have hnd := h.rep.links.nodup
  cases heff with
  | resume co =>
      exact ⟨[], (List.append_nil _).symm,
        .quiet (by simp) hphase rfl rfl rfl (fun _ hn => hn) fun _ hk => hk⟩
  | yeild hs =>
      exact ⟨[], (List.append_nil _).symm,
        .quiet (by simp) hphase rfl rfl rfl (fun _ hn => hn) fun _ hk => hk⟩
  | finish hs =>
      exact ⟨[], (List.append_nil _).symm,
        .quiet (by simp) hphase rfl rfl rfl (fun _ hn => hn) fun _ hk => hk⟩
  | pollRefused links hrefused =>
      refine ⟨_, rfl, .quiet (by simp) hphase rfl rfl rfl (fun _ hn => on_erased hn) ?_⟩
      exact fun k hk => (cond_mem_erased (by simp [Node.call]) _).mpr hk
  | pollBlocked links hs haccepted =>
      exact ⟨[], (List.append_nil _).symm, .quiet (by simp) hphase rfl rfl rfl
        (fun _ hn => (hslot _ _ _ _).mp hn) fun _ hk => (hslot _ _ _ _).mpr hk⟩
  | waitRefused ret hrefused htimed =>
      exact ⟨_, rfl, .quiet (by simp) hphase rfl rfl rfl (fun _ hn => hn) fun _ hk => hk⟩
  | waitTimed links conds hs haccepted htimed =>
      exact ⟨_, rfl, .quiet (by simp) hphase rfl rfl rfl
        (fun _ hn => (hslot _ _ _ _).mp hn) fun _ hk => (hslot _ _ _ _).mpr hk⟩
  | waitUntimed conds hs huntimed =>
      exact ⟨_, rfl, .quiet (by simp) hphase rfl rfl rfl (fun _ hn => hn) fun _ hk => hk⟩
  | @signalNone cv hcv =>
      have hpops : u.pops (.signal cv) = [] := by
        show (u.conds.items cv).head?.toList = []
        rw [h.rep.conds.items, hcv]
        rfl
      exact ⟨[], (List.append_nil _).symm,
        .quiet (by simp) hphase hpops rfl rfl (fun _ hn => hn) fun _ hk => hk⟩
  | @signal cv k ks links conds hcv =>
      have hpops : u.pops (.signal cv) = [k] := by
        show (u.conds.items cv).head?.toList = [k]
        rw [h.rep.conds.items, hcv]
        rfl
      have hadded : addedItems [.signalled cv k] = [.cond k] := rfl
      refine ⟨_, rfl, .between (by simp) hphase rfl (by rw [hpops, hadded]; rfl) ?_ ?_⟩
      · intro n hn
        rw [hadded, List.mem_singleton]
        exact ((mem_woken hnd).mp hn).symm
      · intro j hj
        rw [hadded, List.mem_singleton] at hj
        exact (mem_woken hnd).mpr hj.symm
  | @broadcast cv links conds =>
      obtain ⟨-, hactive⟩ := foldl_woken_spec (w.cond cv) hnd hc.timeout
      -- every waiter is popped, and none of them is resumed by that
      have hresumed : resumedItems ((w.cond cv).map (.broadcast cv)) = [] := by
        unfold resumedItems
        rw [List.filterMap_map]
        exact List.filterMap_eq_nil_iff.mpr fun _ _ => rfl
      have hadded : addedItems ((w.cond cv).map (.broadcast cv)) = (w.cond cv).map .cond := by
        unfold addedItems
        rw [List.filterMap_map, ← List.filterMap_eq_map]
        rfl
      have hmem : ∀ n, n ∈ (w.cond cv).map Node.cond ↔ ∃ k ∈ w.cond cv, n = .cond k := by
        intro n
        rw [List.mem_map]
        exact exists_congr fun k => and_congr_right fun _ => eq_comm
      refine ⟨_, rfl, .between (by simp) hphase hresumed ?_ ?_ ?_⟩
      · rw [hadded, Loop.pops, h.rep.conds.items]
      · intro n hn
        rw [hadded, hmem]
        exact ((hactive n).mp hn).symm
      · intro k hk
        rw [hadded, hmem] at hk
        exact (hactive _).mpr hk.symm
  | pollBack links hs hstage hp =>
      refine ⟨_, rfl, .quiet (by simp) hphase rfl rfl rfl (fun _ hn => on_erased hn) ?_⟩
      exact fun k hk => (cond_mem_erased (by simp [Node.call]) _).mpr hk
  | waitBack conds hs hstage =>
      exact ⟨_, rfl, .quiet (by simp) hphase rfl rfl rfl (fun _ hn => hn) fun _ hk => hk⟩
  -- the loop of the drain makes no such step
  | epollWait batch =>
      have huser : u.phase = .user := hok.2.1
      rw [hphase] at huser
      cases huser
  | prepareAgain hdispatch hp hhandled =>
      rw [hphase] at hdispatch
      cases hdispatch
  | prepare links hdispatch hp hhandled =>
      rw [hphase] at hdispatch
      cases hdispatch
  | takeOut links hsize hearly hpast hjs =>
      have hdispatch : u.phase = .dispatch [] := hok.2
      rw [hphase] at hdispatch
      cases hdispatch
  | drainOver hempty => exact ⟨[], (List.append_nil _).symm, .ended rfl rfl hempty hempty⟩
  | @drain n ns co links hactive hco =>
      refine ⟨[.resumed n], rfl, .next rfl hphase ?_⟩
      dsimp only
      rw [Function.update_self]
      exact hactive

/-! ## §3. The whole drain. -/

/-- **What holds in a drain** that started in `s` with the items `A₀` on `ActiveLink`, where `es` has been
recorded since: what is there or has been resumed was there at the start or has been signalled, and
none of the waiters among these gets lost. -/
structure Draining (s : Loop) (A₀ : List Node) (es : List Event) (u : Loop) (w : Lists) : Prop where
  inv : LoopInv u w
  cond : CondInv u w
  log : u.log = s.log ++ es
  ended : u.phase ≠ .drain → w.event activeLink = []
  comes : ∀ n, n ∈ w.event activeLink ∨ n ∈ resumedItems es → n ∈ A₀ ∨ n ∈ addedItems es
  stays : ∀ k, .cond k ∈ A₀ ∨ .cond k ∈ addedItems es →
    .cond k ∈ w.event activeLink ∨ .cond k ∈ resumedItems es

theorem Draining.since (h : Draining s A₀ es u w) : since s u = es := by
  unfold CoRoutine.since
  rw [h.log, List.drop_left]

/-- At its start. -/
theorem Draining.start (h : LoopInv s w) (hc : CondInv s w) (hphase : s.phase = .drain) :
    Draining s (w.event activeLink) [] s w where
  inv := h
  cond := hc
  log := (List.append_nil _).symm
  ended := fun hne => absurd hphase hne
  comes := fun _ hn => Or.inl (hn.resolve_right List.not_mem_nil)
  stays := fun _ hk => Or.inl (hk.resolve_right List.not_mem_nil)

/-- **One step of the drain.** -/
theorem Draining.step (h : Draining s A₀ es u w) (hstep : u.DrainStep a u') :
    ∃ es' w', DrainTurn u w a u' w' es' ∧ Draining s A₀ (es ++ es') u' w' := by
  obtain ⟨v, w', hv, heff, hinv⟩ := h.inv.run_step hstep.2.1
  have heq : v = u' := Option.some.inj (hv.symm.trans hstep.2.2)
  rw [heq] at heff hinv
  have hcond := (h.cond.step h.inv hstep.2.1 heff).1
  obtain ⟨es', hlog, hturn⟩ := drain_turn h.inv h.cond hstep.1 hstep.2.1 heff
  refine ⟨es', w', hturn, hinv, hcond, ?_, ?_, ?_, ?_⟩
  case refine_1 => rw [hlog, h.log, List.append_assoc]
  case refine_2 =>
    intro hne
    cases hturn with
    | between action phase => exact absurd phase hne
    | next action phase => exact absurd phase hne
    | ended action phase active active' => exact active'
  case refine_3 =>
    intro n hn
    rw [resumedItems_append, List.mem_append] at hn
    rw [addedItems_append, List.mem_append, ← or_assoc]
    -- what comes to `ActiveLink` was signalled by this step
    cases hturn with
    | between action phase resumed added comes stays =>
        rw [resumed] at hn
        rcases hn with hactive | hold | hnew
        · exact (comes n hactive).imp_left fun hin => h.comes n (Or.inl hin)
        · exact Or.inl (h.comes n (Or.inr hold))
        · cases hnew
    | @next m action phase active =>
        left
        rcases hn with hactive | hold | hnew
        · exact h.comes n (Or.inl (by rw [active]; exact List.mem_cons_of_mem _ hactive))
        · exact h.comes n (Or.inr hold)
        · rw [List.mem_singleton.mp hnew]
          exact h.comes m (Or.inl (by rw [active]; exact List.mem_cons_self))
    | ended action phase active active' =>
        left
        rw [active'] at hn
        rcases hn with hactive | hold | hnew
        · cases hactive
        · exact h.comes n (Or.inr hold)
        · cases hnew
  case refine_4 =>
    intro k hk
    rw [addedItems_append, List.mem_append, ← or_assoc] at hk
    rw [resumedItems_append, List.mem_append]
    -- a waiter that leaves `ActiveLink` is the one that is resumed
    cases hturn with
    | between action phase resumed added comes stays =>
        rcases hk with hold | hnew
        · rcases h.stays k hold with hactive | hresumed
          · exact Or.inl (stays k (Or.inl hactive))
          · exact Or.inr (Or.inl hresumed)
        · exact Or.inl (stays k (Or.inr hnew))
    | @next m action phase active =>
        have hold := hk.resolve_right List.not_mem_nil
        rcases h.stays k hold with hactive | hresumed
        · rw [active] at hactive
          rcases List.mem_cons.mp hactive with hfirst | hrest
          · exact Or.inr (Or.inr (List.mem_singleton.mpr hfirst))
          · exact Or.inl hrest
        · exact Or.inr (Or.inl hresumed)
    | ended action phase active active' =>
        rcases h.stays k (hk.resolve_right List.not_mem_nil) with hactive | hresumed
        · rw [active] at hactive
          cases hactive
        · exact Or.inr (Or.inl hresumed)

/-! ## §4. What is signalled. -/

/-- What a step signals is what it pops. -/
theorem DrainTurn.added (h : DrainTurn u w a u' w' es) : addedItems es = (u.pops a).map .cond := by
  cases h with
  | between action phase resumed added comes stays => exact added
  | next action phase active =>
      rw [action]
      rfl
  | ended action phase active active' =>
      rw [action]
      rfl

/-- A waiter that is popped is suspended. -/
theorem LoopInv.pops_blocked (h : LoopInv u w) (hok : u.Allowed a) {k : Nat} (hk : k ∈ u.pops a) :
    u.Blocked (.wait k) := by
  cases a with
  | signal cv =>
      have hin : k ∈ w.cond cv := by
        rw [← h.rep.conds.items]
        exact List.mem_of_mem_head? (Option.mem_toList.mp hk)
      exact h.waiter_blocked hok hin
  | broadcast cv =>
      have hin : k ∈ w.cond cv := by
        rw [← h.rep.conds.items]
        exact hk
      exact h.waiter_blocked hok hin
  | _ => cases hk

theorem Draining.later_iff (h : Draining s A₀ es u w) (hstep : u.DrainStep a u') :
    addedItems (CoRoutine.since s u') = [] ↔
      addedItems (CoRoutine.since s u) = [] ∧ u.pops a = [] := by
  obtain ⟨es', w', hturn, h'⟩ := h.step hstep
  rw [h'.since, h.since, addedItems_append, List.append_eq_nil_iff, hturn.added, List.map_eq_nil_iff]

/-- **A waiter that was not on `ActiveLink` at the start** is signalled by a step exactly if it pops one
that is not there now. -/
theorem Draining.within_iff (h : Draining s A₀ es u w) (hstep : u.DrainStep a u') :
    addedItems (CoRoutine.since s u') ⊆ A₀ ↔
      addedItems (CoRoutine.since s u) ⊆ A₀ ∧ u.Settled a := by
  obtain ⟨es', w', hturn, h'⟩ := h.step hstep
  rw [h'.since, h.since, addedItems_append, List.append_subset, hturn.added]
  refine and_congr_right fun hold => ?_
  unfold Loop.Settled
  rw [h.inv.rep.links.items]
  constructor
  · intro hnew k hk
    have hin : Node.cond k ∈ A₀ := hnew (List.mem_map_of_mem hk)
    rcases h.stays k (Or.inl hin) with hactive | hresumed
    · exact hactive
    · -- it is suspended, so it has not been resumed
      have hlog : Event.resumed (.cond k) ∈ u.log := by
        rw [h.log]
        exact List.mem_append_right _ (mem_resumedItems.mp hresumed)
      exact absurd hlog (h.inv.not_resumed (h.inv.pops_blocked hstep.2.1 hk))
  · intro hsettled n hn
    obtain ⟨k, hk, heq⟩ := List.mem_map.mp hn
    rw [← heq]
    exact (h.comes _ (Or.inl (hsettled k hk))).elim id fun hin => hold hin

/-! ## §5. What is resumed. -/

/-- No item is resumed twice. -/
theorem Draining.nodup (h : Draining s A₀ es u w) : (resumedItems es).Nodup := by
  -- an item stands for one call, and a call is resumed once
  have hcalls : (resumedItems es).map Node.call = es.filterMap Event.call? := by
    unfold resumedItems
    rw [List.map_filterMap]
    refine List.filterMap_congr fun e _ => ?_
    cases e <;> rfl
  have hall := h.inv.nodup
  unfold Loop.resumed at hall
  rw [h.log, List.filterMap_append] at hall
  have hsuffix := (List.nodup_append.mp hall).2.1
  rw [← hcalls] at hsuffix
  exact hsuffix.of_map

/-- Without other waiters, what is resumed was there at the start. -/
theorem Draining.subperm (h : Draining s A₀ es u w) (hwithin : addedItems es ⊆ A₀) :
    (resumedItems es).Subperm A₀ := by
  refine List.subperm_of_subset h.nodup ?_
  intro n hn
  exact (h.comes n (Or.inr hn)).elim id fun hin => hwithin hin

/-- When the drain is over, all that was signalled has been resumed. -/
theorem Draining.added_resumed (h : Draining s A₀ es u w) (hover : u.phase = .user) :
    addedItems es ⊆ resumedItems es := by
  intro n hn
  have hempty : w.event activeLink = [] := h.ended (by rw [hover]; decide)
  obtain ⟨k, hk⟩ := exists_cond_of_added hn
  rw [hk] at hn ⊢
  have hstays := h.stays k (Or.inr hn)
  rw [hempty] at hstays
  exact hstays.resolve_left List.not_mem_nil

/-- **A drain.**  It has had as many turns as it has resumed items, and one more when it is over. -/
theorem Draining.run {bs : List Action} (h : Draining s A₀ [] s w)
    (hdrain : Run Loop.DrainStep s bs t) : ∃ es v, Draining s A₀ es t v ∧
      bs.count .drain ≤ (resumedItems es).length + if t.phase = .drain then 0 else 1 := by
  -- a turn resumes an item, unless it is the one that ends the loop
  induction hdrain with
  | nil => exact ⟨[], w, h, Nat.zero_le _⟩
  | @snoc u t bs a hrun hstep ih =>
      obtain ⟨es, v, hbefore, hcount⟩ := ih
      obtain ⟨es', v', hturn, hafter⟩ := hbefore.step hstep
      rw [if_pos hstep.1] at hcount
      refine ⟨es ++ es', v', hafter, ?_⟩
      rw [List.count_append, resumedItems_append, List.length_append]
      cases hturn with
      | between action phase =>
          have hother : [a].count .drain = 0 := List.count_eq_zero.mpr (by simpa using Ne.symm action)
          omega
      | @next n action phase =>
          have hone : [a].count .drain = 1 := by rw [action]; rfl
          have hnew : (resumedItems [.resumed n]).length = 1 := rfl
          omega
      | ended action phase =>
          have hone : [a].count .drain = 1 := by rw [action]; rfl
          rw [phase, if_neg (by decide)]
          omega

/-- The drain begins where `TimeoutLink` has been joined to `ActiveLink`. -/
theorem takeOut_phase {now : Nat} (h : takeOut s now = some t) : t.phase = .drain := by
  unfold takeOut at h
  split at h
  · cases h
  · obtain ⟨links, -, heq⟩ := Option.map_eq_some_iff.mp h
    rw [← heq]

/-- **What a drain resumes.**  Over any drain that starts in a reachable state:

  * when it is over, no item was resumed in it that it had signalled, exactly if no
    `ConditionVariableSignal` or `ConditionVariableBroadcast` in it popped a waiter,
  * when it is over, no other items were resumed than those on `ActiveLink` at its start, exactly if every
    waiter popped was on `ActiveLink` already,
  * and as long as that is so, it has resumed no others and its loop has taken at most one turn more than
    there were items. -/
theorem drain_bounded_iff {as bs : List Action} {s₀ s t : Loop} {now : Nat}
    (hrun : Run Loop.Step Loop.init as s₀) (hstart : s₀.Step (.takeOut now) s)
    (hdrain : Run Loop.DrainStep s bs t) :
    (t.phase = .user →
      (LaterRound s t ↔
        Run (fun u a u' => u.DrainStep a u' ∧ u.pops a = []) s bs t) ∧
      (AtMostStart s t ↔ Run (fun u a u' => u.DrainStep a u' ∧ u.Settled a) s bs t)) ∧
    (Run (fun u a u' => u.DrainStep a u' ∧ u.Settled a) s bs t →
      AtMostStart s t ∧ bs.count .drain ≤ (s.links.items activeLink).length + 1) := by
  obtain ⟨v, h, hc⟩ := CondInv.of_run (.snoc hrun hstart)
  have hbegin : Draining s (v.event activeLink) [] s v := .start h hc (takeOut_phase hstart.2)
  have hsame : s.links.items activeLink = v.event activeLink := h.rep.links.items _
  have hkeep : ∀ u a u', (∃ es w, Draining s (v.event activeLink) es u w) → u.DrainStep a u' →
      ∃ es w, Draining s (v.event activeLink) es u' w := by
    rintro u a u' ⟨es, w, hu⟩ hstep
    obtain ⟨es', w', -, hu'⟩ := hu.step hstep
    exact ⟨_, w', hu'⟩
  have hsince : CoRoutine.since s s = [] := hbegin.since
  have hlater : Run (fun u a u' => u.DrainStep a u' ∧ u.pops a = []) s bs t ↔
      addedItems (CoRoutine.since s t) = [] :=
    Run.guarded_iff_last hkeep (fun u a u' ⟨_, _, hu⟩ hstep => hu.later_iff hstep)
      ⟨[], v, hbegin⟩ (by rw [hsince]; rfl) hdrain
  have hwithin : Run (fun u a u' => u.DrainStep a u' ∧ u.Settled a) s bs t ↔
      addedItems (CoRoutine.since s t) ⊆ v.event activeLink :=
    Run.guarded_iff_last hkeep (fun u a u' ⟨_, _, hu⟩ hstep => hu.within_iff hstep)
      ⟨[], v, hbegin⟩ (by rw [hsince]; exact List.nil_subset _) hdrain
  obtain ⟨es, w, ht, hcount⟩ := hbegin.run hdrain
  unfold LaterRound AtMostStart
  rw [hlater, hwithin, hsame, ht.since]
  refine ⟨fun hover => ⟨?_, ?_⟩, fun hin => ⟨ht.subperm hin, ?_⟩⟩
  · constructor
    · intro hnone
      refine List.eq_nil_iff_forall_not_mem.mpr fun n hn => ?_
      exact hnone n hn (ht.added_resumed hover hn)
    · intro hempty n hn
      rw [hempty] at hn
      cases hn
  · constructor
    -- all that was signalled has been resumed by the end
    · exact fun hsub n hn => hsub.subset (ht.added_resumed hover hn)
    · exact fun hin => ht.subperm hin
  · have hlen := (ht.subperm hin).length_le
    split at hcount <;> omega

/-- A run of the loop found by evaluation: up to a drain, and the drain. -/
theorem drain_of_check {as bs : List Action} {now : Nat} {p : Loop → Loop → Bool}
    (h : checkRun Loop.step (fun s a => decide (s.Allowed a)) Loop.init as (fun s₀ =>
      checkRun Loop.step (fun s a => decide (s.Allowed a)) s₀ [.takeOut now] fun s =>
        checkRun Loop.step (fun s a => decide (s.phase = .drain ∧ s.Allowed a)) s bs (p s)) = true) :
    ∃ s₀ s t, Run Loop.Step Loop.init as s₀ ∧ s₀.Step (.takeOut now) s ∧
      Run Loop.DrainStep s bs t ∧ p s t = true := by
  have hof : ∀ (s : Loop) a t, decide (s.Allowed a) = true → s.step a = some t → s.Step a t :=
    fun s a t hok hstep => ⟨of_decide_eq_true hok, hstep⟩
  have hofDrain : ∀ (s : Loop) a t, decide (s.phase = .drain ∧ s.Allowed a) = true →
      s.step a = some t → s.DrainStep a t := by
    intro s a t hok hstep
    have hand := of_decide_eq_true hok
    exact ⟨hand.1, hand.2, hstep⟩
  obtain ⟨s₀, hrun, h⟩ := Run.of_check hof h
  obtain ⟨s, hstart, h⟩ := Run.of_check hof h
  obtain ⟨t, hdrain, h⟩ := Run.of_check hofDrain h
  exact ⟨s₀, s, t, hrun, hstart.single, hdrain, h⟩

/-- A coroutine that was signalled before the drain is resumed in it, and ends. -/
theorem drain_bounded_one : ∃ s₀ s t, Run Loop.Step Loop.init
      [.resume 1, .wait 7 0 100, .signal 7, .epollWait []] s₀ ∧
    s₀.Step (.takeOut 100) s ∧ Run Loop.DrainStep s [.drain, .back, .finish, .drain] t ∧
    LaterRound s t ∧ AtMostStart s t := by
  have hcheck : checkRun Loop.step (fun s a => decide (s.Allowed a)) Loop.init
      [.resume 1, .wait 7 0 100, .signal 7, .epollWait []] (fun s₀ =>
        checkRun Loop.step (fun s a => decide (s.Allowed a)) s₀ [.takeOut 100] fun s =>
          checkRun Loop.step (fun s a => decide (s.phase = .drain ∧ s.Allowed a)) s
            [.drain, .back, .finish, .drain] fun t => decide (t.phase = .user ∧
              addedItems (since s t) = [])) = true := by
    decide +kernel
  obtain ⟨s₀, s, t, hrun, hstart, hdrain, h⟩ := drain_of_check hcheck
  obtain ⟨hover, hadded⟩ := of_decide_eq_true h
  obtain ⟨hiff, hmost⟩ := drain_bounded_iff hrun hstart hdrain
  have hlater : LaterRound s t := by
    intro n hn
    rw [hadded] at hn
    cases hn
  -- nothing is signalled in the drain, so nothing is popped
  have hsettled : Run (fun u a u' => u.DrainStep a u' ∧ u.Settled a) s
      [.drain, .back, .finish, .drain] t := by
    refine ((hiff hover).1.mp hlater).mono fun u a u' hstep => ⟨hstep.1, ?_⟩
    intro k hk
    rw [hstep.2] at hk
    cases hk
  exact ⟨s₀, s, t, hrun, hstart, hdrain, hlater, (hmost hsettled).1⟩

/-- Two coroutines wait, and one of them is signalled before the drain.  When it is resumed it signals the
other one, which is resumed in the same drain. -/
theorem not_drain_bounded : ∃ s₀ s t, Run Loop.Step Loop.init
      [.resume 1, .wait 7 0 100, .resume 2, .wait 8 0 100, .signal 8, .epollWait []] s₀ ∧
    s₀.Step (.takeOut 100) s ∧
    Run Loop.DrainStep s [.drain, .back, .signal 7, .finish, .drain, .back, .finish, .drain] t ∧
    s.links.items activeLink = [.cond 1] ∧ addedItems (since s t) = [.cond 0] ∧
    resumedItems (since s t) = [.cond 1, .cond 0] ∧ ¬ LaterRound s t ∧ ¬ AtMostStart s t := by
  have hcheck : checkRun Loop.step (fun s a => decide (s.Allowed a)) Loop.init
      [.resume 1, .wait 7 0 100, .resume 2, .wait 8 0 100, .signal 8, .epollWait []] (fun s₀ =>
        checkRun Loop.step (fun s a => decide (s.Allowed a)) s₀ [.takeOut 100] fun s =>
          checkRun Loop.step (fun s a => decide (s.phase = .drain ∧ s.Allowed a)) s
            [.drain, .back, .signal 7, .finish, .drain, .back, .finish, .drain] fun t =>
              decide (s.links.items activeLink = [.cond 1] ∧ addedItems (since s t) = [.cond 0] ∧
                resumedItems (since s t) = [.cond 1, .cond 0])) = true := by
    decide +kernel
  obtain ⟨s₀, s, t, hrun, hstart, hdrain, h⟩ := drain_of_check hcheck
  obtain ⟨hitems, hadded, hresumed⟩ := of_decide_eq_true h
  refine ⟨s₀, s, t, hrun, hstart, hdrain, hitems, hadded, hresumed, ?_, ?_⟩
  · intro hlater
    refine hlater (.cond 0) ?_ ?_
    · rw [hadded]
      exact List.mem_cons_self
    · rw [hresumed]
      simp
  · intro hmost
    unfold AtMostStart at hmost
    rw [hitems, hresumed] at hmost
    have hlen := hmost.length_le
    simp at hlen

end RocketCo.CoRoutine
