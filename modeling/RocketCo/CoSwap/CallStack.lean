/-
  RocketCo.CoSwap.CallStack — `Co_resume` and `Co_yeild` keep the call stack.

  `coctx_swap` goes on wherever the context of `pending` says.  `CallInv` ties those contexts to
  `Co_CallBack`: below the top each coroutine stands in the `Co_resume` that resumed the next one, off
  the stack a coroutine that has run stands in a `Co_yeild`.  So the code that runs is the one of the
  top entry, and a `Co_yeild` goes on in the `Co_resume` that resumed the yielder last.

  Main result: `callStack_nested`.
-/
import RocketCo.CoSwap.Switch
import Mathlib.Data.List.Nodup

namespace RocketCo.CoSwap

open RocketCo.Lib

variable {s t : Thread} {a : Action} {pending current co : Co} {sp : Nat} {point : Point}
  {target : CoSwapT}

/-! ## §1. The invariant. -/

/-- **The call stack and the saved contexts.** -/
structure CallInv (s : Thread) : Prop where
  pos : 0 < s.Co_ESP
  depth : s.Co_ESP ≤ MaximumNumberOfCoroutinesAllowed
  main : s.Co_CallBack 0 = mainCo
  top : s.Co_CallBack (s.Co_ESP - 1) = s.running
  distinct : ∀ i j, i < s.Co_ESP → j < s.Co_ESP → s.Co_CallBack i = s.Co_CallBack j → i = j
  below : ∀ i, i + 1 < s.Co_ESP → (s.entity (s.Co_CallBack i)).cst =
    some ⟨s.Co_CallBack i, .resume ((List.range (i + 1)).map s.Co_CallBack)⟩
  resumed : ∀ i, i + 1 < s.Co_ESP → s.resumer (s.Co_CallBack (i + 1)) = some (s.Co_CallBack i)
  off : ∀ c, c ∉ s.calls → (s.entity c).ISstart = true → (s.entity c).cst = some ⟨c, .yeild⟩

/-- Who is on the call stack has a place in `Co_CallBack` below `Co_ESP`. -/
theorem mem_calls {c : Co} : c ∈ s.calls ↔ ∃ i < s.Co_ESP, s.Co_CallBack i = c := by
  simp [Thread.calls]

/-- At the start the main coroutine is the only one. -/
theorem CallInv.init (cfg : Config) : CallInv cfg.init := by
  constructor
  case pos => exact Nat.one_pos
  case depth => show 1 ≤ 256; omega
  case main => rfl
  case top => rfl
  case distinct =>
    intro i j hi hj _
    have hi' : i < 1 := hi
    have hj' : j < 1 := hj
    omega
  case below =>
    intro i hi
    have hi' : i + 1 < 1 := hi
    omega
  case resumed =>
    intro i hi
    have hi' : i + 1 < 1 := hi
    omega
  case off =>
    intro c _ hstart
    cases hstart

/-- Only the coroutine on top runs, and the main one is at the bottom. -/
theorem CallInv.two_le (h : CallInv s) (hne : s.running ≠ mainCo) : 2 ≤ s.Co_ESP := by
  by_contra hlt
  have hone : s.Co_ESP = 1 := by
    have := h.pos
    omega
  have htop := h.top
  rw [hone, h.main] at htop
  exact hne htop.symm

/-! ## §2. `Co_resume`. -/

/-- What is written before the switch. -/
theorem startIfFresh_spec (s : Thread) (co : Co) (pfn : Nat) :
    ∃ mem entity, startIfFresh s co pfn = { s with mem, entity } ∧
      (∀ c, c ≠ co → entity c = s.entity c) ∧
      entity co = { s.entity co with
        cst := if (s.entity co).ISstart = false then some ⟨co, .realRunningFun⟩
          else (s.entity co).cst
        ISstart := true } ∧
      mem = if (s.entity co).ISstart = false then store s.mem (s.csm co).top 8 pfn else s.mem := by
  unfold startIfFresh coSwapMake Thread.setEntity
  cases hstart : (s.entity co).ISstart with
  | false =>
      refine ⟨_, _, rfl, ?_, ?_, rfl⟩
      · intro c hc
        dsimp only
        rw [Function.update_of_ne hc, Function.update_of_ne hc]
      · dsimp only
        rw [Function.update_self, Function.update_self]
        rfl
  | true =>
      refine ⟨s.mem, s.entity, rfl, fun _ _ => rfl, ?_, rfl⟩
      have hsame : { s.entity co with ISstart := true } = s.entity co := by rw [← hstart]
      exact hsame.symm

/-- The state in which `Co_resume` calls `co_swap_Co`. -/
def beforeResume (s : Thread) (co : Co) (pfn : Nat) : Thread := pushCall (startIfFresh s co pfn) co

/-- **What `Co_resume` does before the switch**: to the entity it is given, to the word at the top of its
stack, and to the call stack. -/
structure Prepared (s b : Thread) (co : Co) (pfn : Nat) : Prop where
  running : b.running = s.running
  member : b.member = s.member
  polls : b.polls = s.polls
  left : b.left = s.left
  callBack : b.Co_CallBack = Function.update s.Co_CallBack s.Co_ESP co
  coESP : b.Co_ESP = s.Co_ESP + 1
  resumer : b.resumer = Function.update s.resumer co (some s.running)
  other : ∀ c, c ≠ co → b.entity c = s.entity c
  self : b.entity co = { s.entity co with
    cst := if (s.entity co).ISstart = false then some ⟨co, .realRunningFun⟩ else (s.entity co).cst
    ISstart := true }
  mem : b.mem = if (s.entity co).ISstart = false then store s.mem (s.csm co).top 8 pfn else s.mem

/-- What `Co_resume` does before it switches. -/
theorem beforeResume_prepared (s : Thread) (co : Co) (pfn : Nat) :
    Prepared s (beforeResume s co pfn) co pfn := by
  obtain ⟨mem, entity, hstart, hother, hco, hmem⟩ := startIfFresh_spec s co pfn
  unfold beforeResume
  rw [hstart]
  exact ⟨rfl, rfl, rfl, rfl, rfl, rfl, rfl, hother, hco, hmem⟩

/-- The stacks, and what is saved of them, stay as they are. -/
theorem Prepared.same {b : Thread} {pfn : Nat} (h : Prepared s b co pfn) (c : Co) :
    (b.entity c).IsShareStack = (s.entity c).IsShareStack ∧ (b.entity c).Csm = (s.entity c).Csm ∧
      (b.entity c).ESP = (s.entity c).ESP ∧ (b.entity c).Used_Stack = (s.entity c).Used_Stack := by
  by_cases hc : c = co
  · rw [hc, h.self]
    exact ⟨rfl, rfl, rfl, rfl⟩
  · rw [h.other c hc]
    exact ⟨rfl, rfl, rfl, rfl⟩

theorem Prepared.csm {b : Thread} {pfn : Nat} (h : Prepared s b co pfn) (c : Co) :
    b.csm c = s.csm c := by
  unfold Thread.csm
  rw [h.member, (h.same c).2.1]

/-- Nothing is written but the word at the top of the stack of `co`. -/
theorem Prepared.outside {b : Thread} {pfn x : Nat} (h : Prepared s b co pfn)
    (hx : ¬ (s.csm co).InTop x) : b.mem x = s.mem x := by
  rw [h.mem]
  split
  · apply store_outside
    unfold CoStackMember.InTop at hx
    omega
  · rfl

/-- **`Co_resume` returns a switch** to the coroutine it is given. -/
theorem resume_spec (h : CallInv s) (sp pfn : Nat) (hout : co ∉ s.calls)
    (hdepth : s.Co_ESP < MaximumNumberOfCoroutinesAllowed) :
    ∃ t point', coResume s co sp pfn = some t ∧
      Switched (beforeResume s co pfn) t co s.running sp (.resume s.calls) ⟨co, point'⟩ ∧
      ((beforeResume s co pfn).entity co).cst = some ⟨co, point'⟩ ∧
      (point' = .realRunningFun ↔ (s.entity co).ISstart = false) := by
  have hne : co ≠ s.running := by
    intro heq
    apply hout
    rw [heq, ← h.top]
    exact mem_calls.mpr ⟨s.Co_ESP - 1, by have := h.pos; omega, rfl⟩
  have hcst : ∃ point', ((beforeResume s co pfn).entity co).cst = some ⟨co, point'⟩ ∧
      (point' = .realRunningFun ↔ (s.entity co).ISstart = false) := by
    rw [(beforeResume_prepared s co pfn).self]
    cases hst : (s.entity co).ISstart with
    | false => exact ⟨.realRunningFun, rfl, by simp⟩
    | true => exact ⟨.yeild, h.off co hout hst, by simp⟩
  obtain ⟨point', hcst, hiff⟩ := hcst
  obtain ⟨t, ht, hsw⟩ := coSwapCo_spec sp (.resume s.calls) hne hcst
  refine ⟨t, point', ?_, hsw, hcst, hiff⟩
  unfold coResume
  rw [if_pos hdepth]
  dsimp only
  rw [h.top]
  exact ht

/-- **`Co_resume`** puts the coroutine on top of the stack. -/
theorem CallInv.resume (h : CallInv s) {pfn : Nat} {point' : Point} (hout : co ∉ s.calls)
    (hdepth : s.Co_ESP < MaximumNumberOfCoroutinesAllowed)
    (hsw : Switched (beforeResume s co pfn) t co s.running sp (.resume s.calls) ⟨co, point'⟩) :
    CallInv t ∧ t.calls = s.calls ++ [co] := by
  have hprep := beforeResume_prepared s co pfn
  have hcb : t.Co_CallBack = Function.update s.Co_CallBack s.Co_ESP co :=
    hsw.callBack.trans hprep.callBack
  have hesp : t.Co_ESP = s.Co_ESP + 1 := hsw.coESP.trans hprep.coESP
  have hpos := h.pos
  have hold : ∀ i, i < s.Co_ESP → t.Co_CallBack i = s.Co_CallBack i := by
    intro i hi
    rw [hcb, Function.update_of_ne (Nat.ne_of_lt hi)]
  have hnew : t.Co_CallBack s.Co_ESP = co := by
    rw [hcb, Function.update_self]
  have hmap : ∀ n, n ≤ s.Co_ESP → (List.range n).map t.Co_CallBack =
      (List.range n).map s.Co_CallBack := by
    intro n hn
    apply List.map_congr_left
    intro i hi
    exact hold i (Nat.lt_of_lt_of_le (List.mem_range.mp hi) hn)
  have hcalls : t.calls = s.calls ++ [co] := by
    unfold Thread.calls
    rw [hesp, List.range_succ, List.map_append, hmap _ (Nat.le_refl _), List.map_singleton, hnew]
  have hcst : ∀ c, c ≠ co → (t.entity c).cst =
      if c = s.running then some ⟨s.running, .resume s.calls⟩ else (s.entity c).cst := by
    intro c hc
    rw [hsw.entity, hprep.running, hprep.other c hc]
  have hstarted : ∀ c, c ≠ co → (t.entity c).ISstart = (s.entity c).ISstart := by
    intro c hc
    rw [hsw.entity, hprep.other c hc]
  refine ⟨?_, hcalls⟩
  constructor
  case pos => omega
  case depth => omega
  case main => rw [hold 0 hpos]; exact h.main
  case top =>
    rw [hesp, Nat.add_sub_cancel, hnew]
    exact hsw.running.symm
  case distinct =>
    -- the new entry is none of the old ones
    have hfresh : ∀ i, i < s.Co_ESP → s.Co_CallBack i ≠ co :=
      fun i hi heq => hout (mem_calls.mpr ⟨i, hi, heq⟩)
    intro i j hi hj heq
    rw [hesp] at hi hj
    by_cases hin : i = s.Co_ESP
    · by_cases hjn : j = s.Co_ESP
      · rw [hin, hjn]
      · rw [hin, hnew, hold j (by omega)] at heq
        exact absurd heq.symm (hfresh j (by omega))
    · by_cases hjn : j = s.Co_ESP
      · rw [hjn, hnew, hold i (by omega)] at heq
        exact absurd heq (hfresh i (by omega))
      · rw [hold i (by omega), hold j (by omega)] at heq
        exact h.distinct i j (by omega) (by omega) heq
  case below =>
    intro i hi
    rw [hesp] at hi
    have hne : s.Co_CallBack i ≠ co := fun heq => hout (mem_calls.mpr ⟨i, by omega, heq⟩)
    rw [hold i (by omega), hmap (i + 1) (by omega), hcst _ hne]
    by_cases hlast : i + 1 = s.Co_ESP
    · have htop : s.Co_CallBack i = s.running := by
        rw [← h.top]
        congr 1
        omega
      rw [if_pos htop, htop, hlast]
      rfl
    · have hnot : s.Co_CallBack i ≠ s.running := by
        intro heq
        rw [← h.top] at heq
        have := h.distinct i (s.Co_ESP - 1) (by omega) (by omega) heq
        omega
      rw [if_neg hnot]
      exact h.below i (by omega)
  case resumed =>
    intro i hi
    rw [hesp] at hi
    have hres : t.resumer = Function.update s.resumer co (some s.running) :=
      hsw.resumer.trans hprep.resumer
    rw [hres, hold i (by omega)]
    by_cases hlast : i + 1 = s.Co_ESP
    · rw [hlast, hnew, Function.update_self, ← h.top]
      congr 2
      omega
    · have hne : s.Co_CallBack (i + 1) ≠ co :=
        fun heq => hout (mem_calls.mpr ⟨i + 1, by omega, heq⟩)
      rw [hold (i + 1) (by omega), Function.update_of_ne hne]
      exact h.resumed i (by omega)
  case off =>
    intro c hc hst
    rw [hcalls] at hc
    have hc' : c ∉ s.calls ∧ c ≠ co := by simpa using hc
    have hnot : c ≠ s.running := by
      intro heq
      apply hc'.1
      rw [heq, ← h.top]
      exact mem_calls.mpr ⟨s.Co_ESP - 1, by omega, rfl⟩
    rw [hcst c hc'.2, if_neg hnot]
    rw [hstarted c hc'.2] at hst
    exact h.off c hc'.1 hst

/-! ## §3. `Co_yeild`. -/

/-- **`Co_yeild` returns a switch** to the `Co_resume` that resumed the running coroutine. -/
theorem yeild_spec (h : CallInv s) (sp : Nat) (hne : s.running ≠ mainCo) :
    ∃ t pending, coYeild s sp = some t ∧ pending = s.Co_CallBack (s.Co_ESP - 2) ∧
      s.resumer s.running = some pending ∧
      (s.entity pending).cst =
        some ⟨pending, .resume ((List.range (s.Co_ESP - 1)).map s.Co_CallBack)⟩ ∧
      Switched { s with Co_ESP := s.Co_ESP - 1 } t pending s.running sp .yeild
        ⟨pending, .resume ((List.range (s.Co_ESP - 1)).map s.Co_CallBack)⟩ := by
  have htwo := h.two_le hne
  have hidx : s.Co_ESP - 2 + 1 = s.Co_ESP - 1 := by omega
  have hcst := h.below (s.Co_ESP - 2) (by omega)
  have hres := h.resumed (s.Co_ESP - 2) (by omega)
  rw [hidx] at hcst hres
  rw [h.top] at hres
  have hpending : s.Co_CallBack (s.Co_ESP - 2) ≠ s.running := by
    intro heq
    rw [← h.top] at heq
    have := h.distinct (s.Co_ESP - 2) (s.Co_ESP - 1) (by omega) (by omega) heq
    omega
  obtain ⟨t, ht, hsw⟩ := coSwapCo_spec (s := { s with Co_ESP := s.Co_ESP - 1 }) sp .yeild
    hpending hcst
  refine ⟨t, _, ?_, rfl, hres, hcst, hsw⟩
  unfold coYeild
  rw [if_pos htwo]
  dsimp only
  rw [h.top]
  exact ht

/-- **`Co_yeild`** takes the running coroutine off, and its resumer goes on. -/
theorem CallInv.yeild (h : CallInv s) (hne : s.running ≠ mainCo)
    (hsw : Switched { s with Co_ESP := s.Co_ESP - 1 } t (s.Co_CallBack (s.Co_ESP - 2)) s.running sp
      .yeild ⟨s.Co_CallBack (s.Co_ESP - 2), point⟩) :
    CallInv t ∧ t.calls = (List.range (s.Co_ESP - 1)).map s.Co_CallBack := by
  have htwo := h.two_le hne
  have hcb : t.Co_CallBack = s.Co_CallBack := hsw.callBack
  have hesp : t.Co_ESP = s.Co_ESP - 1 := hsw.coESP
  have hcalls : t.calls = (List.range (s.Co_ESP - 1)).map s.Co_CallBack := by
    unfold Thread.calls
    rw [hesp, hcb]
  have hcst : ∀ c, (t.entity c).cst =
      if c = s.running then some ⟨s.running, .yeild⟩ else (s.entity c).cst := by
    intro c
    rw [hsw.entity]
  have hbelow : ∀ i, i < s.Co_ESP - 1 → s.Co_CallBack i ≠ s.running := by
    intro i hi heq
    rw [← h.top] at heq
    have := h.distinct i (s.Co_ESP - 1) (by omega) (by omega) heq
    omega
  refine ⟨?_, hcalls⟩
  constructor
  case pos => omega
  case depth =>
    have := h.depth
    omega
  case main => rw [hcb]; exact h.main
  case top =>
    rw [hcb, hesp]
    exact hsw.running.symm
  case distinct =>
    intro i j hi hj
    rw [hcb]
    exact h.distinct i j (by omega) (by omega)
  case below =>
    intro i hi
    rw [hcb, hcst, if_neg (hbelow i (by omega))]
    exact h.below i (by omega)
  case resumed =>
    intro i hi
    have hres : t.resumer = s.resumer := hsw.resumer
    rw [hcb, hres]
    exact h.resumed i (by omega)
  case off =>
    intro c hc hst
    rw [hcst]
    by_cases hrun : c = s.running
    · rw [if_pos hrun, hrun]
    · rw [if_neg hrun]
      have hst' : (s.entity c).ISstart = true := by
        rw [hsw.entity] at hst
        exact hst
      apply h.off c _ hst'
      -- only the yielder has left the call stack
      intro hin
      obtain ⟨i, hi, heq⟩ := mem_calls.mp hin
      apply hc
      rw [hcalls]
      refine List.mem_map.mpr ⟨i, List.mem_range.mpr ?_, heq⟩
      by_contra hlast
      have hi' : i = s.Co_ESP - 1 := by omega
      rw [hi', h.top] at heq
      exact hrun heq.symm

/-- What the invariant reads. -/
theorem CallInv.congr (h : CallInv s) (hcb : t.Co_CallBack = s.Co_CallBack)
    (hesp : t.Co_ESP = s.Co_ESP) (hrun : t.running = s.running) (hres : t.resumer = s.resumer)
    (hcst : ∀ c, (t.entity c).cst = (s.entity c).cst)
    (hstart : ∀ c, (t.entity c).ISstart = (s.entity c).ISstart) : CallInv t := by
  constructor
  case pos => rw [hesp]; exact h.pos
  case depth => rw [hesp]; exact h.depth
  case main => rw [hcb]; exact h.main
  case top => rw [hcb, hesp, hrun]; exact h.top
  case distinct => rw [hcb, hesp]; exact h.distinct
  case below =>
    intro i hi
    rw [hesp] at hi
    rw [hcb, hcst]
    exact h.below i hi
  case resumed =>
    intro i hi
    rw [hesp] at hi
    rw [hcb, hres]
    exact h.resumed i hi
  case off =>
    intro c hc hst
    unfold Thread.calls at hc
    rw [hcb, hesp] at hc
    rw [hstart] at hst
    rw [hcst]
    exact h.off c hc hst

/-! ## §4. Every step. -/

/-- The actions that end in a `Co_yeild`. -/
def Action.yields : Action → Bool
  | .yeild _ | .finish _ | .poll _ _ => true
  | _ => false

/-- The state in which `Co_yeild` is called. -/
def beforeYeild (s : Thread) : Action → Thread
  | .finish _ => s.setEntity s.running fun e => { e with IsEnd := true }
  | .poll p _ =>
      { s with
        mem := storeItems (copy s.mem p.WillJoinEpoll (List.replicate (p.items.length * itemSize) 0))
          p.WillJoinEpoll p.items
        polls := Function.update s.polls s.running (some p) }
  | _ => s

/-- The address of `c` in the `co_swap_Co` of an action. -/
def Action.esp : Action → Nat
  | .resume _ esp _ | .yeild esp | .finish esp | .poll _ esp => esp
  | _ => 0

/-- `Co_yeild`, the end of a coroutine and a `poll` that blocks switch in one way. -/
theorem step_yields (ha : a.yields = true) : s.step a = coYeild (beforeYeild s a) a.esp := by
  cases a with
  | yeild esp => rfl
  | finish esp => rfl
  | poll p esp => rfl
  | _ => cases ha

theorem beforeYeild_same (ha : a.yields = true) :
    (beforeYeild s a).Co_CallBack = s.Co_CallBack ∧ (beforeYeild s a).Co_ESP = s.Co_ESP ∧
      (beforeYeild s a).running = s.running ∧ (beforeYeild s a).resumer = s.resumer ∧
      ∀ c, ((beforeYeild s a).entity c).cst = (s.entity c).cst ∧
        ((beforeYeild s a).entity c).ISstart = (s.entity c).ISstart := by
  cases a with
  | yeild esp => exact ⟨rfl, rfl, rfl, rfl, fun c => ⟨rfl, rfl⟩⟩
  | poll p esp => exact ⟨rfl, rfl, rfl, rfl, fun c => ⟨rfl, rfl⟩⟩
  | finish esp =>
      refine ⟨rfl, rfl, rfl, rfl, fun c => ?_⟩
      show (Function.update s.entity s.running _ c).cst = _ ∧
        (Function.update s.entity s.running _ c).ISstart = _
      by_cases hc : c = s.running
      · rw [hc, Function.update_self]
        exact ⟨rfl, rfl⟩
      · rw [Function.update_of_ne hc]
        exact ⟨rfl, rfl⟩
  | _ => cases ha

theorem CallInv.beforeYeild (h : CallInv s) (ha : a.yields = true) :
    CallInv (beforeYeild s a) := by
  obtain ⟨hcb, hesp, hrun, hres, hentity⟩ := beforeYeild_same (s := s) ha
  exact h.congr hcb hesp hrun hres (fun c => (hentity c).1) fun c => (hentity c).2

theorem not_main_of_yields (hok : s.Allowed a) (ha : a.yields = true) : s.running ≠ mainCo := by
  cases a with
  | yeild esp => exact hok.2.1
  | finish esp => exact hok.2.1
  | poll p esp => exact hok.2.1
  | _ => cases ha

/-- The switch of a step that yields. -/
def SwitchedBack (s t : Thread) (a : Action) : Prop :=
  Switched { beforeYeild s a with Co_ESP := s.Co_ESP - 1 } t (s.Co_CallBack (s.Co_ESP - 2)) s.running
    a.esp .yeild
    ⟨s.Co_CallBack (s.Co_ESP - 2), .resume ((List.range (s.Co_ESP - 1)).map s.Co_CallBack)⟩

/-- **A `Co_yeild` returns from the `Co_resume`** that resumed the yielder last. -/
theorem CallInv.yields (h : CallInv s) (hok : s.Allowed a) (ha : a.yields = true) :
    ∃ t, s.step a = some t ∧ CallInv t ∧ SwitchedBack s t a ∧
      t.running = s.Co_CallBack (s.Co_ESP - 2) ∧
      s.resumer s.running = some t.running ∧
      (s.entity t.running).cst = some ⟨t.running, .resume t.calls⟩ := by
  obtain ⟨hcb, hesp, hrun, hres, hentity⟩ := beforeYeild_same (s := s) ha
  have hne := not_main_of_yields hok ha
  have hbefore := h.beforeYeild ha
  obtain ⟨t, pending, ht, hpending, hresumer, hcst, hsw⟩ :=
    yeild_spec hbefore a.esp (by rw [hrun]; exact hne)
  rw [hpending] at hsw
  have hback := hbefore.yeild (by rw [hrun]; exact hne) hsw
  rw [hesp, hcb] at hback hpending
  rw [hrun, hres] at hresumer
  rw [(hentity _).1, hesp, hcb] at hcst
  have hswitched : SwitchedBack s t a := by
    unfold SwitchedBack
    rw [← hesp, ← hcb, ← hrun]
    exact hsw
  have hpend : t.running = pending := by
    rw [hpending]
    exact hswitched.running
  refine ⟨t, ?_, hback.1, hswitched, hswitched.running, ?_, ?_⟩
  · rw [step_yields ha]
    exact ht
  · rw [hpend]
    exact hresumer
  · rw [hpend, hback.2]
    exact hcst

/-- **Every allowed step returns, and keeps the invariant.** -/
theorem CallInv.step (h : CallInv s) (hok : s.Allowed a) :
    ∃ t, s.step a = some t ∧ CallInv t := by
  cases hyields : a.yields with
  | true =>
      obtain ⟨t, ht, h', -⟩ := h.yields hok hyields
      exact ⟨t, ht, h'⟩
  | false =>
      cases a with
      | resume co esp pfn =>
          obtain ⟨-, hout, -, hdepth, -⟩ := hok
          obtain ⟨t, point', ht, hsw, -, -⟩ := resume_spec h esp pfn hout hdepth
          exact ⟨t, ht, (h.resume hout hdepth hsw).1⟩
      | write x b => exact ⟨_, rfl, h.congr rfl rfl rfl rfl (fun _ => rfl) fun _ => rfl⟩
      | pollBack => exact ⟨_, rfl, h.congr rfl rfl rfl rfl (fun _ => rfl) fun _ => rfl⟩
      | link c i off b =>
          obtain ⟨-, -, -, p, hp, -⟩ := hok
          refine ⟨{ s with mem := Function.update s.mem (p.WillJoinEpoll + i * itemSize + off) b },
            ?_, h.congr rfl rfl rfl rfl (fun _ => rfl) fun _ => rfl⟩
          show (s.polls c).map _ = _
          rw [Option.mem_def.mp hp]
          rfl
      | yeild esp => cases hyields
      | finish esp => cases hyields
      | poll p esp => cases hyields

/-- The invariant, in every run. -/
theorem CallInv.of_run {cfg : Config} {as : List Action}
    (hrun : Run Thread.Step cfg.init as s) : CallInv s := by
  apply Run.invariant (I := CallInv) _ hrun (CallInv.init cfg)
  intro s a t h hstep
  obtain ⟨t', ht', h'⟩ := h.step hstep.1
  have heq : t = t' := Option.some.inj (hstep.2.symm.trans ht')
  rw [heq]
  exact h'

/-! ## §5. Nested calls. -/

/-- **The call stack is a stack.**  In every state of every run: allowed steps do not fault;
`Co_CallBack[0..Co_ESP)` holds distinct coroutines, the main one at index 0 and the running one at
index `Co_ESP - 1`; `Co_resume` pushes the coroutine it starts or continues, and stands there with the
call stack it found; a `Co_yeild` goes on in the coroutine that resumed the yielder last, in a
`Co_resume`, and that returns with the call stack it had found. -/
theorem callStack_nested {cfg : Config} {as : List Action}
    (hrun : Run Thread.Step cfg.init as s) :
    (∀ a, s.Allowed a → ∃ t, s.step a = some t) ∧
    (0 < s.Co_ESP ∧ s.Co_ESP ≤ MaximumNumberOfCoroutinesAllowed ∧ s.calls.Nodup ∧
      s.Co_CallBack 0 = mainCo ∧ s.Co_CallBack (s.Co_ESP - 1) = s.running) ∧
    (∀ co esp pfn t, s.Step (.resume co esp pfn) t →
      t.running = co ∧ t.calls = s.calls ++ [co] ∧ t.resumer co = some s.running ∧
        (t.entity s.running).cst = some ⟨s.running, .resume s.calls⟩) ∧
    ∀ a t, a.yields = true → s.Step a t →
      s.resumer s.running = some t.running ∧
        ∃ calls, (s.entity t.running).cst = some ⟨t.running, .resume calls⟩ ∧
          t.calls = calls ∧ t.Co_ESP = calls.length := by
  have h := CallInv.of_run hrun
  refine ⟨?_, ⟨h.pos, h.depth, ?_, h.main, h.top⟩, ?_, ?_⟩
  · intro a hok
    obtain ⟨t, ht, -⟩ := h.step hok
    exact ⟨t, ht⟩
  · apply List.Nodup.map_on _ List.nodup_range
    intro i hi j hj
    exact h.distinct i j (List.mem_range.mp hi) (List.mem_range.mp hj)
  · intro co esp pfn t hstep
    obtain ⟨⟨-, hout, -, hdepth, -⟩, hstep⟩ := hstep
    obtain ⟨t', point', ht, hsw, -, -⟩ := resume_spec h esp pfn hout hdepth
    have heq : t' = t := Option.some.inj (ht.symm.trans hstep)
    rw [heq] at hsw
    refine ⟨hsw.running, (h.resume hout hdepth hsw).2, ?_, ?_⟩
    · rw [hsw.resumer, (beforeResume_prepared s co pfn).resumer]
      exact Function.update_self _ _ _
    · rw [hsw.entity, if_pos rfl, (beforeResume_prepared s co pfn).running]
  · intro a t ha hstep
    obtain ⟨t', ht, -, -, -, hresumer, hcst⟩ := h.yields hstep.1 ha
    have heq : t' = t := Option.some.inj (ht.symm.trans hstep.2)
    rw [heq] at hresumer hcst
    exact ⟨hresumer, t.calls, hcst, rfl, by simp [Thread.calls]⟩

/-- Coroutine 3 is resumed by coroutine 1, yields to it, and is resumed again by the main coroutine. -/
theorem callStack_nested_two : ∃ s t, Run Thread.Step Config.twoOnOne.init
    [.resume 1 0 0, .resume 3 8000 0, .yeild 16000, .yeild 8000, .resume 3 0 0] s ∧
    s.calls = [0, 3] ∧ s.Step (.yeild 16000) t ∧ s.resumer 3 = some t.running := by
  have hcheck : checkRun Thread.step Thread.check Config.twoOnOne.init
      [.resume 1 0 0, .resume 3 8000 0, .yeild 16000, .yeild 8000, .resume 3 0 0]
      (fun s => decide (s.calls = [0, 3] ∧ s.running = 3 ∧ s.check (.yeild 16000) = true)) =
        true := by
    decide +kernel
  obtain ⟨s, hrun, hs⟩ := Run.of_check (fun s a t => Thread.step_of_check) hcheck
  obtain ⟨hcalls, hrunning, hok⟩ := of_decide_eq_true hs
  have hallowed : s.Allowed (.yeild 16000) := by
    obtain ⟨hturn, hne, hin⟩ := of_decide_eq_true hok
    exact ⟨hturn, hne, fun _ => hin⟩
  obtain ⟨hreturns, -, -, hyields⟩ := callStack_nested hrun
  obtain ⟨t, ht⟩ := hreturns _ hallowed
  have hresumer := (hyields (.yeild 16000) t rfl ⟨hallowed, ht⟩).1
  rw [hrunning] at hresumer
  exact ⟨s, t, hrun, hcalls, ⟨hallowed, ht⟩, hresumer⟩

end RocketCo.CoSwap
