/-
  RocketCo.CoSwap.Control — `Co_resume` and `Co_yeild` on the processor.

  `CallStack` takes it as given that a switch goes on where the context of `pending` was left;
  `Context` knows what `coctx_swap` does to the registers, but of no call stack.  Here the two meet:
  each step of a thread that switches is the code in front of `coctx_swap`, a `co_swap_make` for a
  fresh coroutine, and the assembly, called with the entities that `Co_CallBack` names.  In between the
  code of the coroutines does what it likes, as long as it writes over no context.

  Main results:
    • `Execution.Inv.pending_filled` — no switch ever loads a context that nobody filled,
    • `switches_return` — to the coroutine that calls them, `Co_resume` and `Co_yeild` are functions
      that return.
-/
import RocketCo.CoSwap.CallStack
import RocketCo.CoSwap.Context

namespace RocketCo.CoSwap

open RocketCo.Lib RocketCo.Lib.X86
open RocketCo.CoContext (Contexts System Content Made RegsKept Returned Entered ssSize ssSp)

/-! ## §1. Threads on a processor. -/

/-- Where the contexts of the entities `0 .. last` are, the entities themselves, and
`Co_realRunningFun`. -/
structure Layout where
  last : Nat
  contexts : Contexts (Fin (last + 1))
  entity : Co → Word
  Co_realRunningFun : Word

/-- The contexts and the machine. -/
abbrev Layout.Machinery (L : Layout) := System (Fin (L.last + 1))

/-- `Co->cst` -/
def Layout.cst (L : Layout) (c : Co) : Fin (L.last + 1) := Fin.ofNat (L.last + 1) c

/-- `&Co->cst` -/
def Layout.addr (L : Layout) (c : Co) : Nat := L.contexts.addr (L.cst c)

/-- Two coroutines have two contexts. -/
theorem Layout.cst_ne (L : Layout) {c d : Co} (hc : c ≤ L.last) (hd : d ≤ L.last) (hne : c ≠ d) :
    L.cst c ≠ L.cst d := by
  intro heq
  have hval : c % (L.last + 1) = d % (L.last + 1) := congrArg Fin.val heq
  have hc' : c % (L.last + 1) = c := Nat.mod_eq_of_lt (Nat.lt_succ_of_le hc)
  have hd' : d % (L.last + 1) = d := Nat.mod_eq_of_lt (Nat.lt_succ_of_le hd)
  rw [hc', hd'] at hval
  exact hne hval

/-- A thread, and the machine that runs it. -/
structure Execution (L : Layout) where
  thread : Thread
  system : L.Machinery

/-- What the running code does next; `m` is the machine when it has, or when it calls `coctx_swap`. -/
inductive Event where
  | own (a : Action) (m : Machine)
  | switch (a : Action) (m : Machine)

/-- The actions that call `coctx_swap`. -/
def Action.switches : Action → Bool
  | .resume _ _ _ => true
  | a => a.yields

/-- `current`, as `Co_resume` and `Co_yeild` read it. -/
def Thread.current (s : Thread) : Co := s.Co_CallBack (s.Co_ESP - 1)

/-- The argument of `Co_resume`, or `pending` as `Co_yeild` reads it. -/
def Thread.pending (s : Thread) : Action → Co
  | .resume co _ _ => co
  | _ => s.Co_CallBack (s.Co_ESP - 2)

/-- Code that writes over no context. -/
def Reaches (L : Layout) (S S' : L.Machinery) : Prop :=
  S' = S.computed L.contexts S'.cpu ∧
    ∀ c, RegsKept S.cpu.mem S'.cpu.mem (L.contexts.addr c)

/-- `co_swap_make(&Co->cst, Co_realRunningFun, Co, 0)` -/
def madeFor (L : Layout) (S : L.Machinery) (co : Co) : L.Machinery :=
  S.made L.contexts (L.cst co) L.Co_realRunningFun (L.entity co) 0

/-- `Co_resume` and `Co_yeild` up to the call of `coctx_swap`.  `CreatAndAlloction` has put the stack of
the entity into its context. -/
inductive Prologue (L : Layout) (s : Thread) (S : L.Machinery) : Action → L.Machinery → Prop
  | fresh {co : Co} {esp : Nat} {S₁ S₂ : L.Machinery} (h0 : (s.entity co).ISstart = false)
      (hco : co ≤ L.last) (h₁ : Reaches L S S₁)
      (hsp : (ssSp S₁.cpu.mem (L.addr co)).toNat = (s.csm co).stack_buffer)
      (hss : (ssSize S₁.cpu.mem (L.addr co)).toNat = (s.csm co).stack_size)
      (hsize : 32 ≤ (ssSize S₁.cpu.mem (L.addr co)).toNat)
      (hstack : L.contexts.Clear (ssSp S₁.cpu.mem (L.addr co)).toNat
        (ssSize S₁.cpu.mem (L.addr co)).toNat)
      (h₂ : Reaches L (madeFor L S₁ co) S₂) :
      Prologue L s S (.resume co esp L.Co_realRunningFun.toNat) S₂
  | again {co : Co} {esp pfn : Nat} {S₁ : L.Machinery} (h0 : (s.entity co).ISstart = true)
      (h₁ : Reaches L S S₁) : Prologue L s S (.resume co esp pfn) S₁
  | yeild {a : Action} {S₁ : L.Machinery} (ha : a.yields = true) (h₁ : Reaches L S S₁) :
      Prologue L s S a S₁

/-- One step.  `coctx_swap` is called with the contexts of `current` and `pending`, on a stack that is
not inside of a context. -/
inductive Execution.Step {L : Layout} : Execution L → Event → Execution L → Prop
  | own {s : Execution L} {t : Thread} {S : L.Machinery} {a : Action} (ha : a.switches = false)
      (ht : s.thread.Step a t) (hS : Reaches L s.system S) : Step s (.own a S.cpu) ⟨t, S⟩
  | switch {s : Execution L} {t : Thread} {S : L.Machinery} {a : Action} (ha : a.switches = true)
      (ht : s.thread.Step a t) (hS : Prologue L s.thread s.system a S)
      (hrdi : S.cpu.gpr .rdi = BitVec.ofNat 64 (L.addr s.thread.current))
      (hrsi : S.cpu.gpr .rsi = BitVec.ofNat 64 (L.addr (s.thread.pending a)))
      (hstack : L.contexts.Clear (S.cpu.gpr .rsp).toNat 8) :
      Step s (.switch a S.cpu) ⟨t, S.swapped (L.cst s.thread.current)⟩

/-- The first coroutine runs, and no context holds anything. -/
def Execution.Starts {L : Layout} (cfg : Config) (s : Execution L) : Prop :=
  s.thread = cfg.init ∧ s.system.Fresh

/-! ## §2. What a switch changes in the thread. -/

section Thread

variable {s t : Thread} {a : Action} {c : Co}

/-- The coroutine has run before: it has a context to go on from. -/
def Thread.HasRun (s : Thread) (c : Co) : Prop := c = mainCo ∨ (s.entity c).ISstart = true

/-- A step without a switch. -/
theorem own_spec (ha : a.switches = false) (h : s.Step a t) :
    t.running = s.running ∧ t.entity = s.entity ∧ t.calls = s.calls := by
  obtain ⟨_, hstep⟩ := h
  cases a with
  | write x b =>
      rw [← Option.some.inj hstep]
      exact ⟨rfl, rfl, rfl⟩
  | pollBack =>
      rw [← Option.some.inj hstep]
      exact ⟨rfl, rfl, rfl⟩
  | link d i off b =>
      have hmap : (s.polls d).map (fun p =>
          { s with mem := Function.update s.mem (p.WillJoinEpoll + i * itemSize + off) b }) =
          some t := hstep
      obtain ⟨p, _, ht⟩ := Option.map_eq_some_iff.mp hmap
      rw [← ht]
      exact ⟨rfl, rfl, rfl⟩
  | _ => cases ha

/-- **A switch** goes to `pending`, which runs from now on, and changes no other coroutine's place. -/
structure Turned (s t : Thread) (a : Action) : Prop where
  running : t.running = s.pending a
  turned : t.running ≠ s.running
  starts : ∀ c, s.HasRun c → t.HasRun c
  onStack : ∀ c ∈ t.calls, c ∈ s.calls ∨ t.HasRun c
  fresh : ∀ c, c ≠ t.running → t.HasRun c → s.HasRun c
  place : ∀ c, c ≠ s.running → s.HasRun c → (t.entity c).cst = (s.entity c).cst

theorem CallInv.main_mem (h : CallInv s) : mainCo ∈ s.calls :=
  mem_calls.mpr ⟨0, h.pos, h.main⟩

/-- **`Co_resume`** turns control over to the coroutine, ... -/
theorem CallInv.resumed_turned (h : CallInv s) {co : Co} {esp pfn : Nat}
    (hok : s.Step (.resume co esp pfn) t) : Turned s t (.resume co esp pfn) := by
  obtain ⟨⟨-, hout, -, hdepth, -⟩, hstep⟩ := hok
  obtain ⟨t', point', ht, hsw, -, -⟩ := resume_spec h esp pfn hout hdepth
  have heq : t' = t := Option.some.inj (ht.symm.trans hstep)
  rw [heq] at hsw
  have hprep := beforeResume_prepared s co pfn
  have hmain : co ≠ mainCo := fun hco => hout (hco ▸ h.main_mem)
  have hrun : t.running = co := hsw.running
  -- the entities: `co` is started, the others keep their flag
  have hself : (t.entity co).ISstart = true := by
    rw [hsw.entity, hprep.self]
  have hother : ∀ c, c ≠ co → (t.entity c).ISstart = (s.entity c).ISstart := by
    intro c hc
    rw [hsw.entity, hprep.other c hc]
  constructor
  case running => exact hrun
  case turned =>
    rw [hrun, ← h.top]
    intro hco
    exact hout (mem_calls.mpr ⟨s.Co_ESP - 1, by have := h.pos; omega, hco.symm⟩)
  case starts =>
    intro c hc
    by_cases heq : c = co
    · exact Or.inr (by rw [heq, hself])
    · rcases hc with hc | hc
      · exact Or.inl hc
      · exact Or.inr (by rw [hother c heq, hc])
  case onStack =>
    rw [(h.resume hout hdepth hsw).2]
    intro c hc
    rcases List.mem_append.mp hc with hold | hnew
    · exact Or.inl hold
    · rw [List.mem_singleton.mp hnew]
      exact Or.inr (Or.inr hself)
  case fresh =>
    intro c hne hc
    rw [hrun] at hne
    rcases hc with hc | hc
    · exact Or.inl hc
    · exact Or.inr (by rw [← hother c hne, hc])
  case place =>
    intro c hne hc
    rw [hsw.entity]
    show (if c = s.running then _ else _) = _
    rw [if_neg hne]
    by_cases heq : c = co
    · -- only a fresh coroutine gets a new context
      rw [heq] at hc ⊢
      have hstart : (s.entity co).ISstart = true := hc.resolve_left hmain
      rw [hprep.self]
      show (if (s.entity co).ISstart = false then _ else _) = _
      rw [hstart]
      rfl
    · rw [hprep.other c heq]

/-- ... and a **yield** back to its resumer. -/
theorem CallInv.yielded_turned (h : CallInv s) (ha : a.yields = true) (hok : s.Step a t) :
    Turned s t a := by
  obtain ⟨hok, hstep⟩ := hok
  obtain ⟨t', ht, -, hsw, hrun, -, -⟩ := h.yields hok ha
  have heq : t' = t := Option.some.inj (ht.symm.trans hstep)
  rw [heq] at hsw hrun
  obtain ⟨hcb, -, -, -, hentity⟩ := beforeYeild_same (s := s) ha
  have htwo := h.two_le (not_main_of_yields hok ha)
  -- every way of yielding goes to the entry below the top
  have hpending : s.pending a = s.Co_CallBack (s.Co_ESP - 2) := by
    cases a with
    | resume _ _ _ => cases ha
    | _ => rfl
  have hflag : ∀ c, (t.entity c).ISstart = (s.entity c).ISstart := by
    intro c
    rw [hsw.entity]
    exact (hentity c).2
  have hsame : ∀ c, t.HasRun c ↔ s.HasRun c := by
    intro c
    unfold Thread.HasRun
    rw [hflag]
  constructor
  case running => rw [hrun, hpending]
  -- the two topmost entries are different coroutines
  case turned =>
    rw [hrun, ← h.top]
    intro hco
    have := h.distinct _ _ (by omega) (by omega) hco
    omega
  case starts => exact fun c hc => (hsame c).mpr hc
  case onStack =>
    intro c hc
    obtain ⟨i, hi, heq⟩ := mem_calls.mp hc
    rw [hsw.coESP] at hi
    rw [hsw.callBack, hcb] at heq
    exact Or.inl (mem_calls.mpr ⟨i, by simp only at hi; omega, heq⟩)
  case fresh => exact fun c _ hc => (hsame c).mp hc
  case place =>
    intro c hne hc
    rw [hsw.entity]
    show (if c = s.running then _ else _) = _
    rw [if_neg hne]
    exact (hentity c).1

/-- Nobody resumes a coroutine of the call stack, the main one among them. -/
theorem CallInv.resumed_not_main (h : CallInv s) {co : Co} {esp pfn : Nat}
    (hok : s.Step (.resume co esp pfn) t) : co ≠ mainCo := by
  intro hco
  exact hok.1.2.1 (hco ▸ h.main_mem)

theorem CallInv.turned (h : CallInv s) (ha : a.switches = true) (hok : s.Step a t) :
    Turned s t a := by
  cases a with
  | resume co esp pfn => exact h.resumed_turned hok
  | yeild esp => exact h.yielded_turned rfl hok
  | finish esp => exact h.yielded_turned rfl hok
  | poll p esp => exact h.yielded_turned rfl hok
  | _ => cases ha

theorem CallInv.next (h : CallInv s) (hok : s.Step a t) : CallInv t := by
  obtain ⟨t', ht', h'⟩ := h.step hok.1
  have heq : t' = t := Option.some.inj (ht'.symm.trans hok.2)
  rw [← heq]
  exact h'

end Thread

/-! ## §3. The contexts. -/

section Contexts

variable {L : Layout} {s t : Thread} {S S' : L.Machinery} {a : Action}

theorem Reaches.held (h : Reaches L S S') (hS : S.Held L.contexts) : S'.Held L.contexts := by
  rw [h.1]
  exact hS.computed _

theorem Reaches.content (h : Reaches L S S') (c : Fin (L.last + 1)) :
    S'.content c = S.content c := by
  rw [h.1]
  exact CoContext.System.computed_content (h.2 c)

theorem Prologue.held (h : Prologue L s S a S') (hS : S.Held L.contexts) :
    S'.Held L.contexts := by
  cases h with
  | fresh h0 hco h₁ hsp hss hsize hstack h₂ =>
      exact h₂.held ((h₁.held hS).made _ _ _ _ hsize hstack)
  | again h0 h₁ => exact h₁.held hS
  | yeild ha h₁ => exact h₁.held hS

/-- A coroutine that has run keeps its context. -/
theorem Prologue.content (h : Prologue L s S a S') (hs : CallInv s) (hok : s.Step a t) {c : Co}
    (hc : s.HasRun c) (hlive : c ≤ L.last) : S'.content (L.cst c) = S.content (L.cst c) := by
  cases h with
  | @fresh co esp S₁ _ h0 hco h₁ hsp hss hsize hstack h₂ =>
      have hne : c ≠ co := by
        intro heq
        rcases hc with hmain | hstart
        · exact hs.resumed_not_main hok (heq ▸ hmain)
        · rw [heq, h0] at hstart
          cases hstart
      rw [h₂.content, ← h₁.content]
      show Function.update S₁.content (L.cst co) _ (L.cst c) = S₁.content (L.cst c)
      exact Function.update_of_ne (L.cst_ne hlive hco hne) _ _
  | again h0 h₁ => exact h₁.content _
  | yeild ha h₁ => exact h₁.content _

/-- What a fresh coroutine finds in its context. -/
theorem Prologue.made {co : Co} {esp pfn : Nat} (h : Prologue L s S (.resume co esp pfn) S')
    (h0 : (s.entity co).ISstart = false) :
    co ≤ L.last ∧ ∃ k : Made, S'.content (L.cst co) = some (.made k) ∧ k.pfn = L.Co_realRunningFun ∧ k.s = L.entity co ∧
      k.s1 = 0 ∧ k.ss_sp.toNat = (s.csm co).stack_buffer ∧
      k.ss_size.toNat = (s.csm co).stack_size := by
  cases h with
  | @fresh _ _ S₁ _ _ hco h₁ hsp hss hsize hstack h₂ =>
      let k : Made := ⟨L.Co_realRunningFun, L.entity co, 0,
        ssSp S₁.cpu.mem (L.addr co), ssSize S₁.cpu.mem (L.addr co)⟩
      refine ⟨hco, k, ?_, rfl, rfl, rfl, hsp, hss⟩
      rw [h₂.content]
      exact Function.update_self (L.cst co) (some (Content.made k)) S₁.content
  | again h1 _ =>
      rw [h0] at h1
      cases h1
  | yeild ha _ => cases ha

end Contexts

/-! ## §4. The two levels agree. -/

/-- **The call stack and the contexts agree**: whoever has run and does not run now has its context
filled. -/
structure Execution.Inv {L : Layout} (s : Execution L) : Prop where
  calls : CallInv s.thread
  onStack : ∀ c ∈ s.thread.calls, s.thread.HasRun c
  live : ∀ c, s.thread.HasRun c → c ≤ L.last
  held : s.system.Held L.contexts
  filled : ∀ c, c ≠ s.thread.running → s.thread.HasRun c → s.system.content (L.cst c) ≠ none

section Inv

variable {L : Layout} {cfg : Config} {s t : Execution L}

theorem Execution.Starts.inv (h : s.Starts cfg) : s.Inv := by
  obtain ⟨hthread, hfresh⟩ := h
  have hstart : ∀ c, s.thread.HasRun c → c = mainCo := by
    intro c hc
    rcases hc with hmain | hstart
    · exact hmain
    · rw [hthread] at hstart
      cases hstart
  refine ⟨hthread ▸ CallInv.init cfg, ?_, ?_, CoContext.held_of_run hfresh (.nil _), ?_⟩
  · intro c hc
    rw [hthread] at hc
    obtain ⟨i, -, heq⟩ := mem_calls.mp hc
    exact Or.inl heq.symm
  · intro c hc
    rw [hstart c hc]
    exact Nat.zero_le _
  · intro c hne hc
    rw [hstart c hc, hthread] at hne
    exact absurd rfl hne

/-- Whoever runs has run. -/
theorem Execution.Inv.running_hasRun (h : s.Inv) : s.thread.HasRun s.thread.running := by
  refine h.onStack _ (mem_calls.mpr ⟨s.thread.Co_ESP - 1, ?_, h.calls.top⟩)
  have hpos := h.calls.pos
  omega

/-- The code that runs is that of `current`. -/
theorem CallInv.current_eq {s : Thread} (h : CallInv s) : s.current = s.running := h.top

/-- **No switch loads an empty context.** -/
theorem Execution.Inv.pending_filled (h : s.Inv) {a : Action} {u : Thread} {S : L.Machinery}
    (ha : a.switches = true) (hok : s.thread.Step a u) (hS : Prologue L s.thread s.system a S) :
    u.running ≤ L.last ∧ S.content (L.cst u.running) ≠ none := by
  have hturn := h.calls.turned ha hok
  by_cases hrun : s.thread.HasRun u.running
  · have hlive := h.live _ hrun
    rw [hS.content h.calls hok hrun hlive]
    exact ⟨hlive, h.filled _ hturn.turned hrun⟩
  · cases a with
    | resume co esp pfn =>
        have hco : u.running = co := hturn.running
        have h0 : (s.thread.entity co).ISstart = false := by
          rw [← Bool.not_eq_true]
          intro hstart
          exact hrun (Or.inr (by rw [hco, hstart]))
        obtain ⟨hlive, k, hk, -⟩ := hS.made h0
        rw [hco, hk]
        exact ⟨hlive, Option.some_ne_none _⟩
    | _ =>
        -- a `Co_yeild` goes back to a coroutine of the call stack
        have htwo := h.calls.two_le (not_main_of_yields hok.1 (by exact ha))
        refine absurd (h.onStack _ (mem_calls.mpr ⟨s.thread.Co_ESP - 2, by omega, ?_⟩)) hrun
        rw [hturn.running]
        rfl

/-- A switch of the thread is one of the machine. -/
theorem Execution.Inv.swap_step (h : s.Inv) {a : Action} {u : Thread} {S : L.Machinery}
    (ha : a.switches = true) (hok : s.thread.Step a u) (hS : Prologue L s.thread s.system a S)
    (hrdi : S.cpu.gpr .rdi = BitVec.ofNat 64 (L.addr s.thread.current))
    (hrsi : S.cpu.gpr .rsi = BitVec.ofNat 64 (L.addr (s.thread.pending a)))
    (hstack : L.contexts.Clear (S.cpu.gpr .rsp).toNat 8) :
    CoContext.Step L.contexts S
      (.coctx_swap (L.cst s.thread.current) (L.cst (s.thread.pending a)))
      (S.swapped (L.cst s.thread.current)) := by
  have hturn := h.calls.turned ha hok
  obtain ⟨hlive, hfilled⟩ := h.pending_filled ha hok hS
  refine .swap S _ _ hrdi hrsi hstack ?_
  rw [h.calls.current_eq, ← hturn.running,
    S.swapped_content_ne (L.cst_ne hlive (h.live _ h.running_hasRun) hturn.turned)]
  exact hfilled

/-- **One event** of an execution. -/
theorem Execution.Inv.step (h : s.Inv) {e : Event} (hstep : s.Step e t) : t.Inv := by
  cases hstep with
  -- a step of the coroutine itself leaves everybody's context alone
  | @own u S a ha hok hS =>
      obtain ⟨hrun, hentity, hcalls⟩ := own_spec ha hok
      have hsame : ∀ c, u.HasRun c ↔ s.thread.HasRun c := by
        intro c
        unfold Thread.HasRun
        rw [hentity]
      refine ⟨h.calls.next hok, ?_, fun c hc => h.live c ((hsame c).mp hc), hS.held h.held, ?_⟩
      · intro c hc
        have hc' : c ∈ s.thread.calls := by
          rw [← hcalls]
          exact hc
        exact (hsame c).mpr (h.onStack c hc')
      · intro c hne hc
        have hne' : c ≠ s.thread.running := by
          rw [← hrun]
          exact hne
        show S.content (L.cst c) ≠ none
        rw [hS.content]
        exact h.filled c hne' ((hsame c).mp hc)
  -- the registers go to the context of the one that leaves, and nobody else's changes
  | @switch u S a ha hok hS hrdi hrsi hstack =>
      have hturn := h.calls.turned ha hok
      have hlast := h.live _ h.running_hasRun
      refine ⟨h.calls.next hok, ?_, ?_,
        (hS.held h.held).step (h.swap_step ha hok hS hrdi hrsi hstack), ?_⟩
      · intro c hc
        rcases hturn.onStack c hc with hold | hnew
        · exact hturn.starts c (h.onStack c hold)
        · exact hnew
      · intro c hc
        by_cases heq : c = u.running
        · rw [heq]
          exact (h.pending_filled ha hok hS).1
        · exact h.live c (hturn.fresh c heq hc)
      · intro c hne hc
        show (S.swapped (L.cst s.thread.current)).content (L.cst c) ≠ none
        rw [h.calls.current_eq]
        by_cases heq : c = s.thread.running
        · rw [heq, S.swapped_content_self]
          exact Option.some_ne_none _
        · have hrun := hturn.fresh c hne hc
          have hlive := h.live c hrun
          rw [S.swapped_content_ne (L.cst_ne hlive hlast heq),
            hS.content h.calls hok hrun hlive]
          exact h.filled c heq hrun

/-- The invariant, in every execution. -/
theorem Execution.Inv.of_run {start : Execution L} {es : List Event} (h0 : start.Starts cfg)
    (hrun : Run Execution.Step start es s) : s.Inv :=
  hrun.invariant (fun _ _ _ h hstep => Execution.Inv.step h hstep) h0.inv

end Inv

/-! ## §5. `Co_resume` and `Co_yeild` return. -/

section Returns

variable {L : Layout} {cfg : Config} {s t : Execution L}

/-- `Co_realRunningFun(Co, 0)` is entered, on the stack of `Co`. -/
def FirstEntered (L : Layout) (s : Thread) (co : Co) (m : Machine) : Prop :=
  m.rip = L.Co_realRunningFun ∧ m.gpr .rdi = L.entity co ∧ m.gpr .rsi = 0 ∧
    (m.gpr .rsp).toNat % 16 = 8 ∧ (s.csm co).stack_buffer ≤ (m.gpr .rsp).toNat ∧
    (m.gpr .rsp).toNat ≤ (s.csm co).stack_bp

/-- The call of `Co_resume` or `Co_yeild` is pending in `c`, whose code called `coctx_swap` at `m` and
stands at `point`. -/
structure Waits {L : Layout} (c : Co) (m : Machine) (point : Option CoSwapT) (s : Execution L) :
    Prop where
  off : s.thread.running ≠ c
  run : s.thread.HasRun c
  content : s.system.content (L.cst c) = some (.saved m)
  place : (s.thread.entity c).cst = point

/-- **A switch** leaves its caller waiting. -/
theorem Execution.Inv.waits (h : s.Inv) {a : Action} {m : Machine}
    (hstep : s.Step (.switch a m) t) :
    Waits s.thread.running m (t.thread.entity s.thread.running).cst t := by
  cases hstep with
  | @switch u S a ha hok hS hrdi hrsi hstack =>
      have hturn := h.calls.turned ha hok
      refine ⟨hturn.turned, hturn.starts _ h.running_hasRun, ?_, rfl⟩
      show (S.swapped (L.cst s.thread.current)).content (L.cst s.thread.running) =
        some (.saved S.cpu)
      rw [h.calls.current_eq]
      exact S.swapped_content_self _

/-- It waits until it runs again. -/
theorem Waits.step {c : Co} {m : Machine} {point : Option CoSwapT} (hw : Waits c m point s)
    (h : s.Inv) {e : Event} (hstep : s.Step e t) (hoff : t.thread.running ≠ c) :
    Waits c m point t := by
  cases hstep with
  | @own u S a ha hok hS =>
      obtain ⟨-, hentity, -⟩ := own_spec ha hok
      refine ⟨hoff, ?_, ?_, ?_⟩
      · rcases hw.run with hmain | hstart
        · exact Or.inl hmain
        · refine Or.inr ?_
          rw [hentity]
          exact hstart
      · show S.content (L.cst c) = _
        rw [hS.content, hw.content]
      · show (u.entity c).cst = _
        rw [hentity, hw.place]
  | @switch u S a ha hok hS hrdi hrsi hstack =>
      have hturn := h.calls.turned ha hok
      refine ⟨hoff, hturn.starts c hw.run, ?_, ?_⟩
      · have hlive := h.live c hw.run
        have hne := L.cst_ne hlive (h.live _ h.running_hasRun) (Ne.symm hw.off)
        show (S.swapped (L.cst s.thread.current)).content (L.cst c) = _
        rw [h.calls.current_eq, S.swapped_content_ne hne, hS.content h.calls hok hw.run hlive,
          hw.content]
      · show (u.entity c).cst = _
        rw [hturn.place c (Ne.symm hw.off) hw.run, hw.place]

/-- **A call that waits returns** when its coroutine runs again. -/
theorem Waits.returns {c : Co} {m m' : Machine} {point : Option CoSwapT} (hw : Waits c m point s)
    (h : s.Inv) {a : Action} (hstep : s.Step (.switch a m') t) (hon : t.thread.running = c) :
    Returned m t.system.cpu := by
  cases hstep with
  | @switch u S a ha hok hS hrdi hrsi hstack =>
      have hturn := h.calls.turned ha hok
      have hu : u.running = c := hon
      refine (hS.held h.held).returned (h.swap_step ha hok hS hrdi hrsi hstack) ?_
      have hlive := h.live c hw.run
      have hne := L.cst_ne hlive (h.live _ h.running_hasRun) (Ne.symm hw.off)
      rw [h.calls.current_eq, ← hturn.running, hu, S.swapped_content_ne hne,
        hS.content h.calls hok hw.run hlive, hw.content]

/-- **A `Co_resume` returns with the call stack it had found**: nobody resumes a coroutine that stands
in a `Co_resume`, so the switch back to it is a `Co_yeild`. -/
theorem Waits.calls_back {c : Co} {m m' : Machine} {calls : List Co}
    (hw : Waits c m (some ⟨c, .resume calls⟩) s) (h : s.Inv) {a : Action}
    (hstep : s.Step (.switch a m') t) (hon : t.thread.running = c) : t.thread.calls = calls := by
  cases hstep with
  | @switch u S a ha hok hS hrdi hrsi hstack =>
      have hu : u.running = c := hon
      have hturn := h.calls.turned ha hok
      cases hyields : a.yields with
      | true =>
          obtain ⟨u', hu', -, -, -, -, hcst⟩ := h.calls.yields hok.1 hyields
          have heq : u' = u := Option.some.inj (hu'.symm.trans hok.2)
          rw [heq, hu, hw.place] at hcst
          have hpoint : Point.resume calls = .resume u.calls :=
            congrArg CoSwapT.point (Option.some.inj hcst)
          exact (Point.resume.inj hpoint).symm
      | false =>
          cases a with
          | resume co esp pfn =>
              have hco : co = c := by
                rw [← hu, hturn.running]
                rfl
              have hmain := h.calls.resumed_not_main hok
              rw [hco] at hok hmain
              -- off the call stack it would stand in a `Co_yeild`
              have hcst := h.calls.off c hok.1.2.1 (hw.run.resolve_left hmain)
              rw [hw.place] at hcst
              exact absurd (congrArg CoSwapT.point (Option.some.inj hcst)) (by simp)
          | yeild _ => cases hyields
          | finish _ => cases hyields
          | poll _ _ => cases hyields
          | _ => cases ha

/-- Where the caller of a `Co_resume` stands. -/
theorem CallInv.resume_place {s t : Thread} (h : CallInv s) {co : Co} {esp pfn : Nat}
    (hok : s.Step (.resume co esp pfn) t) :
    (t.entity s.running).cst = some ⟨s.running, .resume s.calls⟩ := by
  obtain ⟨⟨-, hout, -, hdepth, -⟩, hstep⟩ := hok
  obtain ⟨t', point', ht, hsw, -, -⟩ := resume_spec h esp pfn hout hdepth
  have heq : t' = t := Option.some.inj (ht.symm.trans hstep)
  rw [heq] at hsw
  rw [hsw.entity, if_pos rfl, (beforeResume_prepared s co pfn).running]

/-- A fresh coroutine enters its function. -/
theorem Execution.Inv.entered (h : s.Inv) {co : Co} {esp pfn : Nat} {m : Machine}
    (hstep : s.Step (.switch (.resume co esp pfn) m) t)
    (h0 : (s.thread.entity co).ISstart = false) : FirstEntered L s.thread co t.system.cpu := by
  cases hstep with
  | @switch u S a ha hok hS hrdi hrsi hstack =>
      have hturn := h.calls.turned ha hok
      have hco : u.running = co := hturn.running
      have hne : co ≠ s.thread.running := by
        rw [← hco]
        exact hturn.turned
      obtain ⟨hlive, k, hk, hpfn, hs, hs1, hsp, hss⟩ := hS.made h0
      have hcontent : (S.swapped (L.cst s.thread.current)).content (L.cst co) = some (.made k) := by
        rw [h.calls.current_eq,
          S.swapped_content_ne (L.cst_ne hlive (h.live _ h.running_hasRun) hne), hk]
      obtain ⟨⟨hrip, hrdi', hrsi', halign, hlo, hhi⟩, -⟩ :=
        (hS.held h.held).entered (h.swap_step ha hok hS hrdi hrsi hstack) hcontent
      rw [hpfn] at hrip
      rw [hs] at hrdi'
      rw [hs1] at hrsi'
      rw [hsp] at hlo
      rw [hsp, hss] at hhi
      exact ⟨hrip, hrdi', hrsi', halign, hlo, hhi⟩

end Returns

/-- **To the coroutine that calls them, `Co_resume` and `Co_yeild` are functions that return.**  In every
run, from every switch on: a coroutine resumed for the first time enters `Co_realRunningFun` on its own
stack, and whenever the caller runs again, its call returns like any function, with the stack pointer
and the registers a called function keeps; a `Co_resume` returns with the call stack it had found. -/
theorem switches_return {L : Layout} {cfg : Config} {start s t : Execution L} {es : List Event}
    {a : Action} {m : Machine} (h0 : start.Starts cfg)
    (hrun : Run Execution.Step start es s) (hswitch : s.Step (.switch a m) t) :
    (∀ co esp pfn, a = .resume co esp pfn → (s.thread.entity co).ISstart = false →
      FirstEntered L s.thread co t.system.cpu) ∧
    ∀ fs r b m' u,
      Run (fun e f e' => e.Step f e' ∧ e'.thread.running ≠ s.thread.running) t fs r →
      r.Step (.switch b m') u → u.thread.running = s.thread.running →
      Returned m u.system.cpu ∧
        ∀ co esp pfn, a = .resume co esp pfn → u.thread.calls = s.thread.calls := by
  have hinv := Execution.Inv.of_run h0 hrun
  refine ⟨?_, ?_⟩
  · intro co esp pfn heq hfresh
    rw [heq] at hswitch
    exact hinv.entered hswitch hfresh
  · intro fs r b m' u hfs hback hon
    -- the caller waits all the way
    obtain ⟨hr, hwait⟩ : r.Inv ∧
        Waits s.thread.running m (t.thread.entity s.thread.running).cst r := by
      refine hfs.invariant (I := fun e => e.Inv ∧
        Waits s.thread.running m (t.thread.entity s.thread.running).cst e) ?_
        ⟨hinv.step hswitch, hinv.waits hswitch⟩
      intro e f e' ⟨he, hw⟩ ⟨hstep, hoff⟩
      exact ⟨he.step hstep, hw.step he hstep hoff⟩
    refine ⟨hwait.returns hr hback hon, ?_⟩
    intro co esp pfn heq
    rw [heq] at hswitch
    have hplace : (t.thread.entity s.thread.running).cst =
        some ⟨s.thread.running, .resume s.thread.calls⟩ := by
      cases hswitch with
      | switch ha hok hS hrdi hrsi hstack => exact hinv.calls.resume_place hok
    rw [hplace] at hwait
    exact hwait.calls_back hr hback hon

/-! ### A coroutine that yields at once. -/

def twoLayout : Layout where
  last := 1
  contexts :=
    { addr := fun c => 0x100000 + 0x1000 * c.val
      fits := by decide
      apart := by decide }
  entity := fun c => BitVec.ofNat 64 (0x200000 + 0x1000 * c)
  Co_realRunningFun := 0x401000

/-- `coctx_swap(&curr->cst, &pending->cst)` is being called with the stack pointer `sp`. -/
def callingSwap (curr pending : Co) (sp : Word) (mem : Mem) : Machine where
  gpr
    | .rdi => BitVec.ofNat 64 (twoLayout.addr curr)
    | .rsi => BitVec.ofNat 64 (twoLayout.addr pending)
    | .rsp => sp
    | _ => 7
  mem := mem
  rip := 0

/-- The stack of coroutine 1 is in its context. -/
def twoExecution : Execution twoLayout where
  thread := Config.twoOnOne.init
  system :=
    { cpu := callingSwap 0 1 0x9000 (writeFields (fun _ => 0) 0x101000 [(14, 4096), (15, 4096)])
      content := fun _ => none }

/-- Code that leaves the memory as it is. -/
theorem reaches_machine {L : Layout} (S : L.Machinery) {m : Machine} (h : m.mem = S.cpu.mem) :
    Reaches L S (S.computed L.contexts m) := by
  refine ⟨rfl, ?_⟩
  intro c i _
  show m.mem _ = _
  rw [h]

/-- Coroutine 1 yields on its own stack. -/
theorem yeild_step (t : Execution twoLayout) {v : Thread} (ht : t.thread.Step (.yeild 5000) v)
    (hcurrent : t.thread.current = 1) (hpending : t.thread.pending (.yeild 5000) = 0) :
    t.Step (.switch (.yeild 5000) (callingSwap 1 0 0x1800 t.system.cpu.mem))
      ⟨v, (t.system.computed twoLayout.contexts
        (callingSwap 1 0 0x1800 t.system.cpu.mem)).swapped (twoLayout.cst t.thread.current)⟩ := by
  have hrdi : (callingSwap 1 0 0x1800 t.system.cpu.mem).gpr .rdi =
      BitVec.ofNat 64 (twoLayout.addr t.thread.current) := by
    rw [hcurrent]
    rfl
  have hrsi : (callingSwap 1 0 0x1800 t.system.cpu.mem).gpr .rsi =
      BitVec.ofNat 64 (twoLayout.addr (t.thread.pending (.yeild 5000))) := by
    rw [hpending]
    rfl
  have hstack : twoLayout.contexts.Clear (0x1800 : Word).toNat 8 :=
    ⟨by decide +kernel, by decide +kernel⟩
  have hcode : Prologue twoLayout t.thread t.system (.yeild 5000)
      (t.system.computed twoLayout.contexts (callingSwap 1 0 0x1800 t.system.cpu.mem)) :=
    .yeild rfl (reaches_machine t.system rfl)
  exact .switch rfl ht hcode hrdi hrsi hstack

/-- The main coroutine resumes coroutine 1, which yields: the `Co_resume` returns, with the call stack
it had found. -/
theorem switches_return_two : ∃ (t u : Execution twoLayout) (m m' : Machine),
    twoExecution.Step (.switch (.resume 1 0 0x401000) m) t ∧
    FirstEntered twoLayout twoExecution.thread 1 t.system.cpu ∧
    t.Step (.switch (.yeild 5000) m') u ∧ Returned m u.system.cpu ∧ u.thread.calls = [0] := by
  have hcheck : checkRun Thread.step Thread.check Config.twoOnOne.init [.resume 1 0 0x401000]
      (fun s => decide (s.check (.yeild 5000) = true ∧ s.running = 1 ∧ s.current = 1 ∧
        s.pending (.yeild 5000) = 0)) = true := by
    decide +kernel
  obtain ⟨s, hrun, hs⟩ := Run.of_check (fun s a t => Thread.step_of_check) hcheck
  obtain ⟨hok, hrunning, hcurrent, hpending⟩ := of_decide_eq_true hs
  have hresume : Config.twoOnOne.init.Step (.resume 1 0 0x401000) s := hrun.single
  have h0 : twoExecution.Starts Config.twoOnOne := ⟨rfl, fun _ => rfl⟩
  -- the first switch, to a context just made
  let S₁ := twoExecution.system.computed twoLayout.contexts twoExecution.system.cpu
  let S := (madeFor twoLayout S₁ 1).computed twoLayout.contexts (madeFor twoLayout S₁ 1).cpu
  have hprologue : Prologue twoLayout twoExecution.thread twoExecution.system
      (.resume 1 0 0x401000) S :=
    .fresh rfl (by decide) (reaches_machine twoExecution.system rfl) (by decide +kernel)
      (by decide +kernel) (by decide +kernel) ⟨by decide +kernel, by decide +kernel⟩
      (reaches_machine _ rfl)
  have hout : twoExecution.Step (.switch (.resume 1 0 0x401000) S.cpu)
      ⟨s, S.swapped (twoLayout.cst twoExecution.thread.current)⟩ :=
    .switch rfl hresume hprologue rfl rfl ⟨by decide +kernel, by decide +kernel⟩
  -- the second one, back from its stack
  have hallowed : s.Allowed (.yeild 5000) := by
    obtain ⟨hturn, hne, hin⟩ := of_decide_eq_true hok
    exact ⟨hturn, hne, fun _ => hin⟩
  obtain ⟨v, hv, -⟩ := (CallInv.of_run hrun).step hallowed
  have hback := yeild_step ⟨s, S.swapped (twoLayout.cst twoExecution.thread.current)⟩
    ⟨hallowed, hv⟩ hcurrent hpending
  have hon : v.running = twoExecution.thread.running := by
    have hturned := (CallInv.of_run hrun).turned (a := .yeild 5000) rfl ⟨hallowed, hv⟩
    rw [hturned.running, hpending]
    rfl
  obtain ⟨hfirst, hreturns⟩ := switches_return h0 (.nil _) hout
  obtain ⟨hreturned, hcalls⟩ := hreturns [] _ _ _ _ (.nil _) hback hon
  exact ⟨_, _, _, _, hout, hfirst 1 0 0x401000 rfl rfl, hback, hreturned,
    hcalls 1 0 0x401000 rfl⟩

end RocketCo.CoSwap
