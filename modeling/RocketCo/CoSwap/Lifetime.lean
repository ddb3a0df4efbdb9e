/-
  RocketCo.CoSwap.Lifetime — which entities `co_swap_Co` and `Copy_stackMember` look into.

  `FreeCo_Entity` deletes the entity and nothing else: a shared stack keeps the address in `current_co`.
  The next coroutine of that stack is given the stack by `co_swap_Co`, which hands the address to
  `Copy_stackMember`.

  A `Heap` is the thread of `Switch` with the entities that are alive.  Addresses may be used again.

  Main result: `freed_never_read_iff`.
-/
import RocketCo.CoSwap.CallStack

namespace RocketCo.CoSwap

open RocketCo.Lib

variable {s t : Thread} {a : Action} {pending current co : Co} {sp : Nat} {point : Point}

/-! ## §1. What `co_swap_Co` reads. -/

/-- The entity that `Copy_stackMember` is called for. -/
def copyReads (s : Thread) (pending : Co) : List Co :=
  if (s.entity pending).IsShareStack = false then []
  else
    match (s.csm pending).current_co with
    | none => []
    | some occupy_Co => if occupy_Co ≠ pending then [occupy_Co] else []

/-- The entity that is read behind `coctx_swap`; `restore_prev` is compared only. -/
def restoreReads (s : Thread) : List Co :=
  match s.using_Co, s.prev_Co with
  | some restore_curr, some restore_prev =>
      if restore_curr ≠ restore_prev then [restore_curr] else []
  | _, _ => []

/-- Every entity that `co_swap_Co(pending, current)` looks into. -/
def coSwapReads (s : Thread) (pending current : Co) : List Co :=
  current :: pending :: (copyReads s pending ++ restoreReads (claimStack s pending))

/-- The occupant of the stack is the only entity read besides the two given. -/
theorem mem_coSwapReads {c : Co} (h : c ∈ coSwapReads s pending current) :
    c = current ∨ c = pending ∨
      ((s.entity pending).IsShareStack = true ∧ (s.csm pending).current_co = some c) := by
  cases hshare : (s.entity pending).IsShareStack with
  | false =>
      have hreads : coSwapReads s pending current = [current, pending] := by
        unfold coSwapReads copyReads
        rw [if_pos hshare, claimStack_private hshare]
        rfl
      have htwo : c = current ∨ c = pending := by simpa [hreads] using h
      exact htwo.imp_right Or.inl
  | true =>
      have hnot : ¬ (s.entity pending).IsShareStack = false := by
        rw [hshare]
        simp
      unfold coSwapReads copyReads at h
      rw [if_neg hnot, claimStack_shared hshare] at h
      unfold restoreReads at h
      dsimp only at h
      cases hocc : (s.csm pending).current_co with
      | none =>
          rw [hocc] at h
          have htwo : c = current ∨ c = pending := by simpa using h
          exact htwo.imp_right Or.inl
      | some occupy =>
          rw [hocc] at h
          dsimp only at h
          by_cases hne : occupy ≠ pending
          · rw [if_pos hne, if_pos (Ne.symm hne)] at h
            have hfour : c = current ∨ c = pending ∨ c = occupy ∨ c = pending := by simpa using h
            rcases hfour with h | h | h | h
            · exact Or.inl h
            · exact Or.inr (Or.inl h)
            · exact Or.inr (Or.inr ⟨rfl, by rw [h]⟩)
            · exact Or.inr (Or.inl h)
          · rw [if_neg hne, if_neg fun heq => hne (Ne.symm heq)] at h
            have htwo : c = current ∨ c = pending := by simpa using h
            exact htwo.imp_right Or.inl

/-- The occupant of the stack is read, unless it is `pending` itself. -/
theorem occupant_mem_reads {c : Co} (hshare : (s.entity pending).IsShareStack = true)
    (hocc : (s.csm pending).current_co = some c) : c ∈ coSwapReads s pending current := by
  have hnot : ¬ (s.entity pending).IsShareStack = false := by
    rw [hshare]
    simp
  unfold coSwapReads copyReads
  rw [if_neg hnot, hocc]
  dsimp only
  by_cases hne : c ≠ pending
  · rw [if_pos hne]
    simp
  · rw [if_neg hne, not_not.mp hne]
    simp

/-! ## §2. Entities come and go. -/

/-- The stack that `CreatAndAlloction` gives to a coroutine. -/
inductive StackChoice where
  /-- One of a `Co_ShareStack`. -/
  | shared (m : Nat)
  /-- A new one. -/
  | own (m stack_size stack_buffer : Nat)

/-- `Co_Create`: a cleared entity, and a new stack unless it shares one. -/
def coCreate (s : Thread) (c : Co) : StackChoice → Thread
  | .shared m =>
      s.setEntity c fun _ => ⟨none, false, false, true, m, 0, none⟩
  | .own m stack_size stack_buffer =>
      { s with member := Function.update s.member m ⟨none, stack_size, stack_buffer⟩ }.setEntity c
        fun _ => ⟨none, false, false, false, m, 0, none⟩

/-- A thread, and which of its entities are allocated.  `lastOn` is a ghost: the coroutine that was the last
to be switched to on a shared stack. -/
structure Heap where
  thread : Thread
  live : Co → Bool
  lastOn : Nat → Option Co

inductive HeapAction where
  | Co_Create (c : Co) (stack : StackChoice)
  | FreeCo_Entity (c : Co)
  | Co_resume (co : Co) (esp pfn : Nat)
  | Co_yeild (esp : Nat)
  /-- The end of `Co_realRunningFun`. -/
  | finish (esp : Nat)

namespace Heap

/-- The coroutine `pending` runs, as `t` says. -/
def switchedTo (s : Heap) (pending : Co) (t : Thread) : Heap :=
  { s with
    thread := t
    lastOn :=
      if (s.thread.entity pending).IsShareStack = true then
        Function.update s.lastOn (s.thread.entity pending).Csm (some pending)
      else s.lastOn }

/-- The coroutine that resumed the running one. -/
def caller (s : Heap) : Co := s.thread.Co_CallBack (s.thread.Co_ESP - 2)

def step (s : Heap) : HeapAction → Option Heap
  | .Co_Create c stack =>
      some { thread := coCreate s.thread c stack
             live := Function.update s.live c true
             lastOn :=
              match stack with
              | .shared _ => s.lastOn
              | .own m _ _ => Function.update s.lastOn m none }
  | .FreeCo_Entity c => some { s with live := Function.update s.live c false }
  | .Co_resume co esp pfn => (coResume s.thread co esp pfn).map (s.switchedTo co)
  | .Co_yeild esp => (coYeild s.thread esp).map (s.switchedTo s.caller)
  | .finish esp => (coRealRunningFunEnd s.thread esp).map (s.switchedTo s.caller)

/-- The coroutine an action switches to. -/
def switchesTo (s : Heap) : HeapAction → Option Co
  | .Co_resume co _ _ => some co
  | .Co_yeild _ | .finish _ => some s.caller
  | _ => none

/-- The entities that an action looks into, in `co_swap_Co` and `Copy_stackMember`. -/
def reads (s : Heap) : HeapAction → List Co
  | .Co_resume co _ pfn =>
      coSwapReads (beforeResume s.thread co pfn) co (s.thread.Co_CallBack (s.thread.Co_ESP - 1))
  | .Co_yeild _ | .finish _ =>
      coSwapReads s.thread s.caller (s.thread.Co_CallBack (s.thread.Co_ESP - 1))
  | _ => []

/-- The rules of the API.  `share` are the stacks of the `Co_ShareStack`s. -/
def Allowed (share : Nat → Bool) (s : Heap) : HeapAction → Prop
  | .Co_Create c (.shared m) => s.live c = false ∧ share m = true
  | .Co_Create c (.own m _ _) => s.live c = false ∧ share m = false ∧
      ∀ d, s.live d = true → (s.thread.entity d).Csm ≠ m
  | .FreeCo_Entity c => s.live c = true ∧ (s.thread.entity c).IsEnd = true ∧ c ∉ s.thread.calls
  | .Co_resume co _ _ => s.live co = true ∧ (s.thread.entity co).IsEnd = false ∧
      co ∉ s.thread.calls ∧ s.thread.Co_ESP < MaximumNumberOfCoroutinesAllowed
  | .Co_yeild _ | .finish _ => s.thread.running ≠ mainCo

def Step (share : Nat → Bool) (s : Heap) (a : HeapAction) (t : Heap) : Prop :=
  s.Allowed share a ∧ s.step a = some t

/-- **Nothing freed is read.** -/
def ReadsLive (s : Heap) (a : HeapAction) : Prop := ∀ c ∈ s.reads a, s.live c = true

/-- When a coroutine with a shared stack is switched to, the one that ran on the stack before has not been
freed. -/
def LastAlive (s : Heap) (a : HeapAction) : Prop :=
  ∀ p ∈ s.switchesTo a, (s.thread.entity p).IsShareStack = true →
    ∀ o ∈ s.lastOn (s.thread.entity p).Csm, s.live o = true

/-- A coroutine is freed only after another one has run on its stack. -/
def FreedBehind (s : Heap) : HeapAction → Prop
  | .FreeCo_Entity c => ∀ m, s.lastOn m ≠ some c
  | _ => True

/-- After `init_thisThread_Env`: the main coroutine is the only one. -/
def init (cfg : Config) : Heap where
  thread := cfg.init
  live c := decide (c = mainCo)
  lastOn _ := none

end Heap

/-! ## §3. The invariant. -/

/-- **The entities behind the pointers of the environment.**  `current_co` is the only one that may be
left behind. -/
structure HeapInv (s : Heap) : Prop where
  calls : CallInv s.thread
  live : ∀ c ∈ s.thread.calls, s.live c = true
  tracks : ∀ m, (s.thread.member m).current_co = s.lastOn m

variable {h k : Heap} {b : HeapAction} {share : Nat → Bool}

theorem HeapInv.init (cfg : Config) : HeapInv (Heap.init cfg) := by
  constructor
  case calls => exact CallInv.init cfg
  case live =>
    intro c hc
    have hmain : c = mainCo := by simpa [Heap.init, Config.init, Thread.calls] using hc
    rw [hmain]
    rfl
  case tracks => exact fun m => rfl

/-- A new entity is not on the call stack. -/
theorem CallInv.create (hinv : CallInv s) {c : Co} (hout : c ∉ s.calls) (stack : StackChoice) :
    CallInv (coCreate s c stack) := by
  have hother : ∀ d, d ≠ c → (coCreate s c stack).entity d = s.entity d := by
    intro d hd
    cases stack with
    | shared m => exact Function.update_of_ne hd _ _
    | own m size buffer => exact Function.update_of_ne hd _ _
  have hnew : ((coCreate s c stack).entity c).ISstart = false := by
    cases stack with
    | shared m =>
        show (Function.update s.entity c _ c).ISstart = false
        rw [Function.update_self]
    | own m size buffer =>
        show (Function.update s.entity c _ c).ISstart = false
        rw [Function.update_self]
  have hsame : (coCreate s c stack).Co_CallBack = s.Co_CallBack ∧
      (coCreate s c stack).Co_ESP = s.Co_ESP ∧ (coCreate s c stack).running = s.running ∧
      (coCreate s c stack).resumer = s.resumer := by
    cases stack with
    | shared m => exact ⟨rfl, rfl, rfl, rfl⟩
    | own m size buffer => exact ⟨rfl, rfl, rfl, rfl⟩
  obtain ⟨hcb, hesp, hrun, hres⟩ := hsame
  -- the call stack is not touched
  have hcalls : (coCreate s c stack).calls = s.calls := by
    unfold Thread.calls
    rw [hcb, hesp]
  constructor
  case pos => rw [hesp]; exact hinv.pos
  case depth => rw [hesp]; exact hinv.depth
  case main => rw [hcb]; exact hinv.main
  case top => rw [hcb, hesp, hrun]; exact hinv.top
  case distinct => rw [hcb, hesp]; exact hinv.distinct
  case below =>
    intro i hi
    rw [hesp] at hi
    have hne : s.Co_CallBack i ≠ c := fun heq => hout (mem_calls.mpr ⟨i, by omega, heq⟩)
    rw [hcb, hother _ hne]
    exact hinv.below i hi
  case resumed => rw [hcb, hesp, hres]; exact hinv.resumed
  -- nothing is asked of `c`: it has not been started
  case off =>
    intro d hd hstart
    rw [hcalls] at hd
    by_cases hdc : d = c
    · rw [hdc, hnew] at hstart
      cases hstart
    · rw [hother d hdc] at hstart ⊢
      exact hinv.off d hd hstart

/-- A switch leaves the stacks to those who have them, but for the shared stack of `pending`. -/
theorem HeapInv.tracks_switch (hinv : HeapInv h) {pending : Co} {s t : Thread} {point : Point}
    {target : CoSwapT} {current : Co}
    (hsw : Switched s t pending current sp point target) (hmember : s.member = h.thread.member)
    (hshare : (s.entity pending).IsShareStack = (h.thread.entity pending).IsShareStack)
    (hcsm : (s.entity pending).Csm = (h.thread.entity pending).Csm) (m : Nat) :
    (t.member m).current_co = (h.switchedTo pending t).lastOn m := by
  show _ = (if (h.thread.entity pending).IsShareStack = true then
    Function.update h.lastOn (h.thread.entity pending).Csm (some pending) else h.lastOn) m
  rw [hsw.member, hshare, hcsm, hmember]
  by_cases hs : (h.thread.entity pending).IsShareStack = true
  · rw [if_pos hs]
    by_cases hm : m = (h.thread.entity pending).Csm
    · rw [if_pos ⟨hs, hm⟩, hm, Function.update_self]
    · rw [if_neg fun hand => hm hand.2, Function.update_of_ne hm]
      exact hinv.tracks m
  · rw [if_neg fun hand => hs hand.1, if_neg hs]
    exact hinv.tracks m

theorem HeapInv.resume (hinv : HeapInv h) {co : Co} {esp pfn : Nat} (hlive : h.live co = true)
    (hout : co ∉ h.thread.calls) (hdepth : h.thread.Co_ESP < MaximumNumberOfCoroutinesAllowed)
    (hk : h.step (.Co_resume co esp pfn) = some k) : HeapInv k := by
  obtain ⟨t, point', ht, hsw, -, -⟩ := resume_spec hinv.calls esp pfn hout hdepth
  have hk' : h.switchedTo co t = k := by
    have hmap : (coResume h.thread co esp pfn).map (h.switchedTo co) = some k := hk
    rw [ht] at hmap
    exact Option.some.inj hmap
  obtain ⟨hcalls, hpushed⟩ := hinv.calls.resume hout hdepth hsw
  have hprep := beforeResume_prepared h.thread co pfn
  rw [← hk']
  constructor
  case calls => exact hcalls
  case live =>
    intro c hc
    have hc' : c ∈ h.thread.calls ++ [co] := by
      rw [← hpushed]
      exact hc
    cases List.mem_append.mp hc' with
    | inl hin => exact hinv.live c hin
    | inr hin =>
        rw [List.mem_singleton.mp hin]
        exact hlive
  case tracks =>
    exact hinv.tracks_switch hsw hprep.member (hprep.same co).1 (hprep.same co).2.1

/-- The coroutine that `Co_yeild` goes back to is on the call stack, and so is the one that yields. -/
theorem HeapInv.caller_mem (hinv : HeapInv h) (hne : h.thread.running ≠ mainCo) :
    h.caller ∈ h.thread.calls ∧ h.thread.Co_CallBack (h.thread.Co_ESP - 1) ∈ h.thread.calls := by
  have htwo := hinv.calls.two_le hne
  exact ⟨mem_calls.mpr ⟨_, by omega, rfl⟩, mem_calls.mpr ⟨_, by omega, rfl⟩⟩

theorem HeapInv.back (hinv : HeapInv h) (ha : a.yields = true)
    (hne : h.thread.running ≠ mainCo)
    (hsame : (beforeYeild h.thread a).member = h.thread.member ∧
      ∀ c, ((beforeYeild h.thread a).entity c).IsShareStack = (h.thread.entity c).IsShareStack ∧
        ((beforeYeild h.thread a).entity c).Csm = (h.thread.entity c).Csm)
    (hk : (coYeild (beforeYeild h.thread a) a.esp).map (h.switchedTo h.caller) = some k) :
    HeapInv k := by
  obtain ⟨hmember, hentity⟩ := hsame
  obtain ⟨hcb, hesp, hrun, -, -⟩ := beforeYeild_same (s := h.thread) ha
  have hbefore := hinv.calls.beforeYeild ha
  obtain ⟨t, pending, ht, hpending, -, -, hsw⟩ :=
    yeild_spec hbefore a.esp (by rw [hrun]; exact hne)
  have hk' : h.switchedTo h.caller t = k := by
    rw [ht] at hk
    exact Option.some.inj hk
  rw [hpending] at hsw
  obtain ⟨hcalls, hpopped⟩ := hbefore.yeild (by rw [hrun]; exact hne) hsw
  have hcaller : (beforeYeild h.thread a).Co_CallBack ((beforeYeild h.thread a).Co_ESP - 2) =
      h.caller := by
    rw [hcb, hesp]
    rfl
  rw [hcaller] at hsw
  rw [← hk']
  constructor
  case calls => exact hcalls
  case live =>
    intro c hc
    have hc' : c ∈ t.calls := hc
    rw [hpopped, hesp, hcb] at hc'
    obtain ⟨i, hi, heq⟩ := List.mem_map.mp hc'
    apply hinv.live c
    exact mem_calls.mpr ⟨i, by have := List.mem_range.mp hi; omega, heq⟩
  case tracks =>
    exact hinv.tracks_switch hsw hmember (hentity h.caller).1 (hentity h.caller).2

/-- **Every action keeps the invariant**, whether it read something freed or not. -/
theorem HeapInv.step (hinv : HeapInv h) (ha : Heap.Step share h b k) : HeapInv k := by
  obtain ⟨hok, hstep⟩ := ha
  cases b with
  | Co_Create c stack =>
      have hdead : h.live c = false := by
        cases stack with
        | shared m => exact hok.1
        | own m size buffer => exact hok.1
      -- a fresh address is not on the call stack: who is there is alive
      have hout : c ∉ h.thread.calls := by
        intro hin
        rw [hinv.live c hin] at hdead
        cases hdead
      rw [← Option.some.inj hstep]
      constructor
      case calls => exact hinv.calls.create hout stack
      case live =>
        intro d hd
        have hd' : d ∈ h.thread.calls := by
          cases stack with
          | shared m => exact hd
          | own m size buffer => exact hd
        have hne : d ≠ c := fun heq => hout (heq ▸ hd')
        show Function.update h.live c true d = true
        rw [Function.update_of_ne hne]
        exact hinv.live d hd'
      case tracks =>
        intro m
        cases stack with
        | shared m' => exact hinv.tracks m
        | own m' size buffer =>
            show (Function.update h.thread.member m' _ m).current_co =
              Function.update h.lastOn m' none m
            by_cases hm : m = m'
            · rw [hm, Function.update_self, Function.update_self]
            · rw [Function.update_of_ne hm, Function.update_of_ne hm]
              exact hinv.tracks m
  | FreeCo_Entity c =>
      rw [← Option.some.inj hstep]
      constructor
      case calls => exact hinv.calls
      case live =>
        intro d hd
        have hne : d ≠ c := fun heq => hok.2.2 (heq ▸ hd)
        show Function.update h.live c false d = true
        rw [Function.update_of_ne hne]
        exact hinv.live d hd
      case tracks => exact hinv.tracks
  | Co_resume co esp pfn => exact hinv.resume hok.1 hok.2.2.1 hok.2.2.2 hstep
  | Co_yeild esp =>
      have hsame : (beforeYeild h.thread (.yeild esp)).member = h.thread.member ∧
          ∀ c, ((beforeYeild h.thread (.yeild esp)).entity c).IsShareStack =
              (h.thread.entity c).IsShareStack ∧
            ((beforeYeild h.thread (.yeild esp)).entity c).Csm = (h.thread.entity c).Csm :=
        ⟨rfl, fun c => ⟨rfl, rfl⟩⟩
      exact hinv.back (a := .yeild esp) rfl hok hsame hstep
  | finish esp =>
      have hsame : (beforeYeild h.thread (.finish esp)).member = h.thread.member ∧
          ∀ c, ((beforeYeild h.thread (.finish esp)).entity c).IsShareStack =
              (h.thread.entity c).IsShareStack ∧
            ((beforeYeild h.thread (.finish esp)).entity c).Csm = (h.thread.entity c).Csm := by
        refine ⟨rfl, fun c => ?_⟩
        show (Function.update h.thread.entity h.thread.running _ c).IsShareStack = _ ∧
          (Function.update h.thread.entity h.thread.running _ c).Csm = _
        by_cases hc : c = h.thread.running
        · rw [hc, Function.update_self]
          exact ⟨rfl, rfl⟩
        · rw [Function.update_of_ne hc]
          exact ⟨rfl, rfl⟩
      exact hinv.back (a := .finish esp) rfl hok hsame hstep

/-! ## §4. What is read is alive. -/

/-- A switch between two live coroutines reads the one that ran before on the stack, and no other. -/
theorem HeapInv.reads_switch (hinv : HeapInv h) {pending current : Co} {s : Thread}
    (hmember : s.member = h.thread.member)
    (hshare : (s.entity pending).IsShareStack = (h.thread.entity pending).IsShareStack)
    (hcsm : (s.entity pending).Csm = (h.thread.entity pending).Csm)
    (hpending : h.live pending = true) (hcurrent : h.live current = true) :
    (∀ c ∈ coSwapReads s pending current, h.live c = true) ↔
      ((h.thread.entity pending).IsShareStack = true →
        ∀ o ∈ h.lastOn (h.thread.entity pending).Csm, h.live o = true) := by
  have hocc : (s.csm pending).current_co = h.lastOn (h.thread.entity pending).Csm := by
    unfold Thread.csm
    rw [hcsm, hmember]
    exact hinv.tracks _
  constructor
  · intro hreads hs o ho
    apply hreads
    apply occupant_mem_reads
    · rw [hshare, hs]
    · rw [hocc]
      exact ho
  · intro hlast c hc
    rcases mem_coSwapReads hc with heq | heq | ⟨hs, hc⟩
    · rw [heq]
      exact hcurrent
    · rw [heq]
      exact hpending
    · rw [hshare] at hs
      rw [hocc] at hc
      exact hlast hs c hc

/-- **Exactly the stacks left by a freed coroutine make `co_swap_Co` read what is freed.** -/
theorem HeapInv.readsLive_iff (hinv : HeapInv h) (hok : h.Allowed share b) :
    h.LastAlive b ↔ h.ReadsLive b := by
  unfold Heap.LastAlive Heap.ReadsLive
  cases b with
  | Co_Create c stack => simp [Heap.switchesTo, Heap.reads]
  | FreeCo_Entity c => simp [Heap.switchesTo, Heap.reads]
  | Co_resume co esp pfn =>
      have hprep := beforeResume_prepared h.thread co pfn
      have hcurrent : h.live (h.thread.Co_CallBack (h.thread.Co_ESP - 1)) = true := by
        apply hinv.live
        have hpos := hinv.calls.pos
        exact mem_calls.mpr ⟨_, by omega, rfl⟩
      have hiff := hinv.reads_switch hprep.member (hprep.same co).1 (hprep.same co).2.1 hok.1 hcurrent
      show (∀ p ∈ some co, _) ↔ ∀ c ∈ coSwapReads (beforeResume h.thread co pfn) co _, _
      rw [hiff]
      simp
  | Co_yeild esp =>
      obtain ⟨hcaller, hcurrent⟩ := hinv.caller_mem hok
      have hiff := hinv.reads_switch (s := h.thread) rfl rfl rfl (hinv.live _ hcaller)
        (hinv.live _ hcurrent)
      show (∀ p ∈ some h.caller, _) ↔ ∀ c ∈ coSwapReads h.thread h.caller _, _
      rw [hiff]
      simp
  | finish esp =>
      obtain ⟨hcaller, hcurrent⟩ := hinv.caller_mem hok
      have hiff := hinv.reads_switch (s := h.thread) rfl rfl rfl (hinv.live _ hcaller)
        (hinv.live _ hcurrent)
      show (∀ p ∈ some h.caller, _) ↔ ∀ c ∈ coSwapReads h.thread h.caller _, _
      rw [hiff]
      simp

/-! ## §5. Runs. -/

/-- **No run reads a freed entity, as long as no shared stack is left by a freed coroutine.**  A run in which
each coroutine is switched to on a shared stack only while the one that ran on it before is not freed reads
live entities only, and no other run does. -/
theorem freed_never_read_iff (cfg : Config) (share : Nat → Bool) (bs : List HeapAction) (k : Heap) :
    Run (fun h b k => Heap.Step share h b k ∧ h.LastAlive b) (Heap.init cfg) bs k ↔
      Run (fun h b k => Heap.Step share h b k ∧ h.ReadsLive b) (Heap.init cfg) bs k :=
  Run.guarded_iff_of_invariant (fun _ _ _ hinv ha => HeapInv.step hinv ha)
    (fun _ _ _ hinv ha => HeapInv.readsLive_iff hinv ha.1) (HeapInv.init cfg)

/-- No shared stack was left by a coroutine that is freed now. -/
def Heap.NoneLeft (h : Heap) : Prop := ∀ m, ∀ o ∈ h.lastOn m, h.live o = true

theorem noneLeft_switch (hleft : h.NoneLeft) {pending : Co} (hpending : h.live pending = true)
    (t : Thread) : (h.switchedTo pending t).NoneLeft := by
  intro m o ho
  change o ∈ (if (h.thread.entity pending).IsShareStack = true then
    Function.update h.lastOn (h.thread.entity pending).Csm (some pending) else h.lastOn) m at ho
  show h.live o = true
  by_cases hs : (h.thread.entity pending).IsShareStack = true
  · rw [if_pos hs] at ho
    by_cases hm : m = (h.thread.entity pending).Csm
    · rw [hm, Function.update_self] at ho
      rw [← Option.some.inj ho]
      exact hpending
    · rw [Function.update_of_ne hm] at ho
      exact hleft m o ho
  · rw [if_neg hs] at ho
    exact hleft m o ho

theorem noneLeft_step (hinv : HeapInv h) (hleft : h.NoneLeft) (ha : Heap.Step share h b k)
    (hfree : h.FreedBehind b) : k.NoneLeft := by
  obtain ⟨hok, hstep⟩ := ha
  cases b with
  | Co_Create c stack =>
      rw [← Option.some.inj hstep]
      intro m o ho
      show Function.update h.live c true o = true
      -- a buffer of its own is handed out afresh: it has no tenant
      have hold : h.lastOn m = some o := by
        cases stack with
        | shared m' => exact ho
        | own m' size buffer =>
            change Function.update h.lastOn m' none m = some o at ho
            by_cases hm : m = m'
            · rw [hm, Function.update_self] at ho
              cases ho
            · rw [Function.update_of_ne hm] at ho
              exact ho
      by_cases hc : o = c
      · rw [hc, Function.update_self]
      · rw [Function.update_of_ne hc]
        exact hleft m o hold
  | FreeCo_Entity c =>
      rw [← Option.some.inj hstep]
      intro m o ho
      -- the coroutine freed is not the last one on its stack
      have hne : o ≠ c := fun heq => hfree m (heq ▸ ho)
      show Function.update h.live c false o = true
      rw [Function.update_of_ne hne]
      exact hleft m o ho
  | Co_resume co esp pfn =>
      obtain ⟨t, -, ht⟩ := Option.map_eq_some_iff.mp hstep
      rw [← ht]
      exact noneLeft_switch hleft hok.1 t
  | Co_yeild esp =>
      obtain ⟨t, -, ht⟩ := Option.map_eq_some_iff.mp hstep
      rw [← ht]
      exact noneLeft_switch hleft (hinv.live _ (hinv.caller_mem hok).1) t
  | finish esp =>
      obtain ⟨t, -, ht⟩ := Option.map_eq_some_iff.mp hstep
      rw [← ht]
      exact noneLeft_switch hleft (hinv.live _ (hinv.caller_mem hok).1) t

/-- **A rule for programs**: whoever frees a coroutine only after another one has run on its stack never
makes `co_swap_Co` read a freed entity. -/
theorem readsLive_of_freedBehind {cfg : Config} {bs : List HeapAction}
    (hrun : Run (fun h b k => Heap.Step share h b k ∧ h.FreedBehind b) (Heap.init cfg) bs h)
    (ha : Heap.Step share h b k) : h.ReadsLive b := by
  have hboth : HeapInv h ∧ h.NoneLeft := by
    apply hrun.invariant (I := fun h => HeapInv h ∧ h.NoneLeft)
    · intro h b k hI hb
      exact ⟨hI.1.step hb.1, noneLeft_step hI.1 hI.2 hb.1 hb.2⟩
    · exact ⟨HeapInv.init cfg, fun m o ho => by cases ho⟩
  apply (hboth.1.readsLive_iff ha.1).mp
  intro p _ _ o ho
  exact hboth.2 _ o ho

/-! ### A coroutine that is freed on the stack it ended on. -/

/-- A test for the actions that create no stack. -/
def Heap.check (share : Nat → Bool) (h : Heap) : HeapAction → Bool
  | .Co_Create c (.shared m) => decide (h.live c = false ∧ share m = true)
  | .Co_Create _ (.own _ _ _) => false
  | .FreeCo_Entity c =>
      decide (h.live c = true ∧ (h.thread.entity c).IsEnd = true ∧ c ∉ h.thread.calls)
  | .Co_resume co _ _ =>
      decide (h.live co = true ∧ (h.thread.entity co).IsEnd = false ∧
        co ∉ h.thread.calls ∧ h.thread.Co_ESP < MaximumNumberOfCoroutinesAllowed)
  | .Co_yeild _ | .finish _ => decide (h.thread.running ≠ mainCo)

theorem Heap.step_of_check (hok : h.check share b = true) (hstep : h.step b = some k) :
    Heap.Step share h b k := by
  refine ⟨?_, hstep⟩
  cases b with
  | Co_Create c stack =>
      cases stack with
      | shared m =>
          have hallowed := of_decide_eq_true hok
          exact hallowed
      | own m size buffer => cases hok
  | FreeCo_Entity c =>
      have hallowed := of_decide_eq_true hok
      exact hallowed
  | Co_resume co esp pfn =>
      have hallowed := of_decide_eq_true hok
      exact hallowed
  | Co_yeild esp =>
      have hallowed := of_decide_eq_true hok
      exact hallowed
  | finish esp =>
      have hallowed := of_decide_eq_true hok
      exact hallowed

/-- Coroutines 1 and 2 share a stack.  Coroutine 1 ends and is freed, and 2 is resumed. -/
theorem not_freed_never_read : ¬ ∀ (cfg : Config) (share : Nat → Bool) (bs : List HeapAction)
    (h k : Heap) (b : HeapAction), Run (Heap.Step share) (Heap.init cfg) bs h →
    Heap.Step share h b k → h.ReadsLive b := by
  intro hall
  let share : Nat → Bool := fun m => decide (m = 1)
  have hcheck : checkRun Heap.step (Heap.check share) (Heap.init Config.twoOnOne)
      [.Co_Create 1 (.shared 1), .Co_Create 2 (.shared 1), .Co_resume 1 0 0, .finish 5000,
        .FreeCo_Entity 1]
      (fun h => decide (h.check share (.Co_resume 2 0 0) = true ∧ (h.step (.Co_resume 2 0 0)).isSome ∧
        1 ∈ h.reads (.Co_resume 2 0 0) ∧ h.live 1 = false)) = true := by
    decide +kernel
  obtain ⟨h, hrun, hh⟩ := Run.of_check (fun s a t => Heap.step_of_check) hcheck
  obtain ⟨hok, hsome, hread, hdead⟩ := of_decide_eq_true hh
  obtain ⟨k, hk⟩ := Option.isSome_iff_exists.mp hsome
  have hlive := hall Config.twoOnOne share _ h k (.Co_resume 2 0 0) hrun
    (Heap.step_of_check hok hk) 1 hread
  rw [hdead] at hlive
  cases hlive

end RocketCo.CoSwap
