/-
  RocketCo.CoSwap.SavedStacks — the memory for what is saved of shared stacks.

  `Copy_stackMember` gives the last copy of a coroutine back to `tc_malloc` and asks for a new one.
  `FreeCo_Entity` deletes the entity, and the address of its copy with it.

  A `Copies` is the heap of `Lifetime` with the blocks of `tc_malloc`, which is never refused one here.

  Main results:
    • `copies_counted` — as long as no shared stack is left by a freed coroutine, what is given to `tc_free` is
      a block that is out, and those that are out are one for each coroutine that was saved, and the ones that
      went with their entity, which stay out for good,
    • `sharers_lose_copy` — when a coroutine is freed only after another one has run on its stack, each
      one with a shared stack takes a block with it.
-/
import RocketCo.CoSwap.Lifetime
import RocketCo.Lib.Slots

namespace RocketCo.CoSwap

open RocketCo.Lib

/-! ## §1. Blocks. -/

/-- The coroutine that `co_swap_Co` calls `Copy_stackMember` for. -/
def Heap.copied (h : Heap) : HeapAction → Option Co
  | .Co_resume co _ pfn => (copyReads (beforeResume h.thread co pfn) co).head?
  | .Co_yeild _ | .finish _ => (copyReads h.thread h.caller).head?
  | _ => none

/-- The heap, where the copies are (`Used_Stack` of each entity), and the blocks of `tc_malloc`.  The last two
fields are ghosts: the copies whose entity was deleted, and the number of coroutines with a shared stack that
were freed. -/
structure Copies where
  heap : Heap
  Used_Stack : Co → Option Nat
  held : Finset Nat
  lost : Finset Nat
  sharers : Nat

namespace Copies

/-- The blocks in `Copy_stackMember`: `tc_free` of the last one, if any, and `tc_malloc`. -/
def copyStackMember (s : Copies) (occupy : Co) (block : Nat) : Copies :=
  { s with
    Used_Stack := Function.update s.Used_Stack occupy (some block)
    held := insert block (s.held \ (s.Used_Stack occupy).toFinset) }

/-- `block` is what `tc_malloc` returns. -/
def step (s : Copies) (b : HeapAction) (block : Nat) : Option Copies :=
  (s.heap.step b).map fun heap =>
    match b with
    | .Co_Create c _ => { s with heap, Used_Stack := Function.update s.Used_Stack c none }
    | .FreeCo_Entity c =>
        { s with
          heap
          Used_Stack := Function.update s.Used_Stack c none
          lost := s.lost ∪ (s.Used_Stack c).toFinset
          sharers := if (s.heap.thread.entity c).IsShareStack = true then s.sharers + 1 else s.sharers }
    | _ =>
        match s.heap.copied b with
        | none => { s with heap }
        | some occupy => { s.copyStackMember occupy block with heap }

/-- What an action gives to `tc_free`. -/
def frees (s : Copies) (b : HeapAction) : Option Nat := (s.heap.copied b).bind s.Used_Stack

/-- `tc_malloc` returns a block that is not out; it may be the one that was just given back. -/
def Fresh (s : Copies) (b : HeapAction) (block : Nat) : Prop :=
  block ∈ s.held → s.frees b = some block

def Step (share : Nat → Bool) (s : Copies) (b : HeapAction × Nat) (t : Copies) : Prop :=
  Heap.Step share s.heap b.1 t.heap ∧ s.Fresh b.1 b.2 ∧ s.step b.1 b.2 = some t

def init (cfg : Config) : Copies := ⟨Heap.init cfg, fun _ => none, ∅, ∅, 0⟩

/-- The coroutines that have a copy of their stack. -/
def savers (s : Copies) : Set Co :=
  {c | s.heap.live c = true ∧ (s.heap.thread.entity c).Used_Stack ≠ none}

end Copies

variable {h k : Heap} {b : HeapAction} {share : Nat → Bool} {p : Co} {s t : Copies}

/-! ## §2. What a switch does to the heap. -/

/-- The coroutine that `Copy_stackMember` is called for is the one that is evicted. -/
theorem copyReads_head {x : Thread} {c : Co} :
    (copyReads x p).head? = some c ↔ x.Evicts p c := by
  unfold copyReads Thread.Evicts
  by_cases hshare : (x.entity p).IsShareStack = false
  · rw [if_pos hshare]
    simp [hshare]
  · have hs : (x.entity p).IsShareStack = true := Bool.eq_true_of_not_eq_false hshare
    rw [if_neg hshare]
    cases hocc : (x.csm p).current_co with
    | none => simp
    | some o =>
        dsimp only
        by_cases hne : o ≠ p
        · rw [if_pos hne]
          constructor
          · intro hhead
            have hoc : o = c := Option.some.inj hhead
            exact ⟨hs, congrArg some hoc, hoc ▸ hne⟩
          · intro hev
            exact hev.2.1
        · rw [if_neg hne]
          constructor
          · intro hhead
            cases hhead
          · intro hev
            exact absurd (Option.some.inj hev.2.1 ▸ hev.2.2) hne

/-- The thread in which `co_swap_Co` is called to switch to `p`, as the action `b` prepares it. -/
structure Ready (h : Heap) (b : HeapAction) (p : Co) (x : Thread) : Prop where
  copied : h.copied b = (copyReads x p).head?
  member : x.member = h.thread.member
  stack : ∀ c, (x.entity c).IsShareStack = (h.thread.entity c).IsShareStack ∧
    (x.entity c).Csm = (h.thread.entity c).Csm ∧
    (x.entity c).Used_Stack = (h.thread.entity c).Used_Stack
  started : ∀ c, (x.entity c).ISstart = true ↔
    (h.thread.entity c).ISstart = true ∨ c = p ∧ c ∉ h.thread.calls
  ended : ∀ c, (x.entity c).IsEnd = true → (h.thread.entity c).IsEnd = true ∨
    c = h.thread.running ∧ h.thread.running ≠ mainCo

/-- **The effect of a switch**, as far as it matters who is saved. -/
structure SwitchEffect (h k : Heap) (b : HeapAction) (p : Co) : Prop where
  live : k.live = h.live
  lastOn : k.lastOn = if (h.thread.entity p).IsShareStack = true then
    Function.update h.lastOn (h.thread.entity p).Csm (some p) else h.lastOn
  copied : ∀ c, h.copied b = some c ↔ (h.thread.entity p).IsShareStack = true ∧
    h.lastOn (h.thread.entity p).Csm = some c ∧ c ≠ p
  stack : ∀ c, (k.thread.entity c).IsShareStack = (h.thread.entity c).IsShareStack ∧
    (k.thread.entity c).Csm = (h.thread.entity c).Csm
  saved : ∀ c, (k.thread.entity c).Used_Stack ≠ none ↔
    h.copied b = some c ∨ (h.thread.entity c).Used_Stack ≠ none
  started : ∀ c, (k.thread.entity c).ISstart = true ↔
    (h.thread.entity c).ISstart = true ∨ c = p ∧ c ∉ h.thread.calls
  ended : ∀ c, (k.thread.entity c).IsEnd = true → (h.thread.entity c).IsEnd = true ∨
    c = h.thread.running ∧ h.thread.running ≠ mainCo
  calls : ∀ c ∈ k.thread.calls, c ∈ h.thread.calls ∨ c = p

/-- From a prepared thread `co_swap_Co` has the effect of a switch. -/
theorem Ready.effect {x y : Thread} {current : Co} {sp : Nat} {point : Point} {target : CoSwapT}
    (hready : Ready h b p x) (hinv : HeapInv h) (hsw : Switched x y p current sp point target)
    (hcalls : ∀ c ∈ y.calls, c ∈ h.thread.calls ∨ c = p) :
    SwitchEffect h (h.switchedTo p y) b p := by
  -- the code looks at the member's `current_co`, the ghost at the tenant that ran last
  have hevicts : ∀ c, x.Evicts p c ↔ (h.thread.entity p).IsShareStack = true ∧
      h.lastOn (h.thread.entity p).Csm = some c ∧ c ≠ p := by
    intro c
    unfold Thread.Evicts Thread.csm
    rw [(hready.stack p).1, (hready.stack p).2.1, hready.member, hinv.tracks]
  have hcopied : ∀ c, h.copied b = some c ↔ x.Evicts p c := by
    intro c
    rw [hready.copied, copyReads_head]
  constructor
  case live => rfl
  case lastOn => rfl
  case copied =>
    intro c
    rw [hcopied, hevicts]
  case stack =>
    intro c
    show (y.entity c).IsShareStack = _ ∧ (y.entity c).Csm = _
    rw [hsw.entity]
    exact ⟨(hready.stack c).1, (hready.stack c).2.1⟩
  case saved =>
    intro c
    show (y.entity c).Used_Stack ≠ none ↔ _
    rw [hsw.entity, hcopied]
    dsimp only
    by_cases hev : x.Evicts p c
    · rw [if_pos hev]
      simp [hev]
    · rw [if_neg hev, (hready.stack c).2.2]
      simp [hev]
  case started =>
    intro c
    show (y.entity c).ISstart = true ↔ _
    rw [hsw.entity]
    exact hready.started c
  case ended =>
    intro c
    show (y.entity c).IsEnd = true → _
    rw [hsw.entity]
    exact hready.ended c
  case calls => exact hcalls

/-- So it is for `Co_resume` ... -/
theorem SwitchEffect.resume (hinv : HeapInv h) {co : Co} {esp pfn : Nat}
    (hout : co ∉ h.thread.calls) (hdepth : h.thread.Co_ESP < MaximumNumberOfCoroutinesAllowed)
    (hk : h.step (.Co_resume co esp pfn) = some k) :
    SwitchEffect h k (.Co_resume co esp pfn) co := by
  obtain ⟨y, point', hy, hsw, -, -⟩ := resume_spec hinv.calls esp pfn hout hdepth
  have hk' : h.switchedTo co y = k := by
    have hmap : (coResume h.thread co esp pfn).map (h.switchedTo co) = some k := hk
    rw [hy] at hmap
    exact Option.some.inj hmap
  obtain ⟨-, hpushed⟩ := hinv.calls.resume hout hdepth hsw
  have hprep := beforeResume_prepared h.thread co pfn
  -- `Co_resume` pushes `co` and makes its first context, and touches no other one
  have hready : Ready h (.Co_resume co esp pfn) co (beforeResume h.thread co pfn) := by
    constructor
    case copied => rfl
    case member => exact hprep.member
    case stack =>
      intro c
      exact ⟨(hprep.same c).1, (hprep.same c).2.1, (hprep.same c).2.2.2⟩
    case started =>
      intro c
      by_cases hc : c = co
      · rw [hc, hprep.self]
        simp [hout]
      · rw [hprep.other c hc]
        simp [hc]
    case ended =>
      intro c hend
      by_cases hc : c = co
      · rw [hc, hprep.self] at hend
        exact Or.inl (hc ▸ hend)
      · rw [hprep.other c hc] at hend
        exact Or.inl hend
  rw [← hk']
  apply hready.effect hinv hsw
  intro c hc
  rw [hpushed] at hc
  rcases List.mem_append.mp hc with hin | hin
  · exact Or.inl hin
  · exact Or.inr (List.mem_singleton.mp hin)

/-- The end of a coroutine is marked before its `Co_yeild`, or nothing is. -/
theorem beforeYeild_ready {a : Action} (ha : a.yields = true)
    (hb : h.copied b = (copyReads h.thread h.caller).head?) (hinv : HeapInv h)
    (hne : h.thread.running ≠ mainCo) :
    Ready h b h.caller { beforeYeild h.thread a with Co_ESP := h.thread.Co_ESP - 1 } := by
  have hcaller := (hinv.caller_mem hne).1
  have hstarted : ∀ c, (h.thread.entity c).ISstart = true ↔
      (h.thread.entity c).ISstart = true ∨ c = h.caller ∧ c ∉ h.thread.calls := by
    intro c
    constructor
    · exact Or.inl
    · rintro (hst | ⟨heq, hout⟩)
      · exact hst
      · exact absurd (heq ▸ hcaller) hout
  cases a with
  | yeild esp => exact ⟨hb, rfl, fun c => ⟨rfl, rfl, rfl⟩, hstarted, fun c => Or.inl⟩
  | poll f esp => exact ⟨hb, rfl, fun c => ⟨rfl, rfl, rfl⟩, hstarted, fun c => Or.inl⟩
  -- only here an entity changes before the switch: that of the running one, which ends
  | finish esp =>
      have hentity : ∀ c, (beforeYeild h.thread (.finish esp)).entity c =
          { h.thread.entity c with
            IsEnd := if c = h.thread.running then true else (h.thread.entity c).IsEnd } := by
        intro c
        show Function.update h.thread.entity h.thread.running _ c = _
        by_cases hc : c = h.thread.running
        · rw [hc, Function.update_self, if_pos rfl]
        · rw [Function.update_of_ne hc, if_neg hc]
      constructor
      case copied =>
        rw [hb]
        congr 1
        unfold copyReads Thread.csm
        dsimp only
        rw [hentity]
        rfl
      case member => rfl
      case stack =>
        intro c
        dsimp only
        rw [hentity]
        exact ⟨rfl, rfl, rfl⟩
      case started =>
        intro c
        dsimp only
        rw [hentity]
        exact hstarted c
      case ended =>
        intro c hend
        dsimp only at hend
        rw [hentity] at hend
        by_cases hc : c = h.thread.running
        · exact Or.inr ⟨hc, hne⟩
        · dsimp only at hend
          rw [if_neg hc] at hend
          exact Or.inl hend
  | _ => cases ha

/-- ... and for `Co_yeild` and the end of a coroutine. -/
theorem SwitchEffect.back {a : Action} (ha : a.yields = true)
    (hb : h.copied b = (copyReads h.thread h.caller).head?) (hinv : HeapInv h)
    (hne : h.thread.running ≠ mainCo)
    (hk : (coYeild (beforeYeild h.thread a) a.esp).map (h.switchedTo h.caller) = some k) :
    SwitchEffect h k b h.caller := by
  obtain ⟨hcb, hesp, hrun, -, -⟩ := beforeYeild_same (s := h.thread) ha
  have hbefore := hinv.calls.beforeYeild ha
  obtain ⟨y, pending, hy, hpending, -, -, hsw⟩ :=
    yeild_spec hbefore a.esp (by rw [hrun]; exact hne)
  have hk' : h.switchedTo h.caller y = k := by
    rw [hy] at hk
    exact Option.some.inj hk
  rw [hpending] at hsw
  obtain ⟨-, hpopped⟩ := hbefore.yeild (by rw [hrun]; exact hne) hsw
  have hcaller : (beforeYeild h.thread a).Co_CallBack ((beforeYeild h.thread a).Co_ESP - 2) =
      h.caller := by
    rw [hcb, hesp]
    rfl
  rw [hcaller, hesp] at hsw
  rw [← hk']
  apply (beforeYeild_ready ha hb hinv hne).effect hinv hsw
  intro c hc
  rw [hpopped, hesp, hcb] at hc
  obtain ⟨i, hi, heq⟩ := List.mem_map.mp hc
  have hlt := List.mem_range.mp hi
  exact Or.inl (mem_calls.mpr ⟨i, by omega, heq⟩)

/-- **Whatever switches has this effect.** -/
theorem HeapInv.switchEffect (hinv : HeapInv h) (ha : Heap.Step share h b k)
    (hp : h.switchesTo b = some p) : SwitchEffect h k b p := by
  obtain ⟨hok, hstep⟩ := ha
  cases b with
  | Co_Create c stack => cases hp
  | FreeCo_Entity c => cases hp
  | Co_resume co esp pfn =>
      rw [← Option.some.inj hp]
      exact .resume hinv hok.2.2.1 hok.2.2.2 hstep
  | Co_yeild esp =>
      rw [← Option.some.inj hp]
      exact .back (a := .yeild esp) rfl rfl hinv hok hstep
  | finish esp =>
      rw [← Option.some.inj hp]
      exact .back (a := .finish esp) rfl rfl hinv hok hstep

/-! ## §3. The blocks are counted. -/

/-- What `CreatAndAlloction` and `FreeCo_Entity` do to the other entities: nothing. -/
theorem coCreate_entity {x : Thread} {c d : Co} (stack : StackChoice) (hne : d ≠ c) :
    (coCreate x c stack).entity d = x.entity d := by
  cases stack with
  | shared m => exact Function.update_of_ne hne _ _
  | own m size buffer => exact Function.update_of_ne hne _ _

/-- A new entity has no copy, was not started and has not ended. -/
theorem coCreate_self {x : Thread} {c : Co} (stack : StackChoice) :
    ((coCreate x c stack).entity c).Used_Stack = none ∧
      ((coCreate x c stack).entity c).ISstart = false ∧
      ((coCreate x c stack).entity c).IsEnd = false := by
  cases stack with
  | shared m =>
      show (Function.update x.entity c _ c).Used_Stack = _ ∧ (Function.update x.entity c _ c).ISstart = _ ∧
        (Function.update x.entity c _ c).IsEnd = _
      rw [Function.update_self]
      exact ⟨rfl, rfl, rfl⟩
  | own m size buffer =>
      show (Function.update x.entity c _ c).Used_Stack = _ ∧ (Function.update x.entity c _ c).ISstart = _ ∧
        (Function.update x.entity c _ c).IsEnd = _
      rw [Function.update_self]
      exact ⟨rfl, rfl, rfl⟩

/-- **The invariant**: the live coroutines hold one block each, those that were saved. -/
structure CopiesInv (s : Copies) : Prop where
  heap : HeapInv s.heap
  slots : ∃ S : Slots Co, S.slot = s.Used_Stack ∧ S.lost = s.lost ∧ S.held = s.held
  live : ∀ c, s.Used_Stack c ≠ none → s.heap.live c = true
  agrees : ∀ c, s.heap.live c = true →
    (s.Used_Stack c ≠ none ↔ (s.heap.thread.entity c).Used_Stack ≠ none)

theorem CopiesInv.init (cfg : Config) : CopiesInv (Copies.init cfg) := by
  constructor
  case heap => exact HeapInv.init cfg
  case slots => exact ⟨Slots.empty, rfl, rfl, rfl⟩
  case live =>
    intro c hc
    exact absurd rfl hc
  case agrees =>
    intro c _
    show (none : Option Nat) ≠ none ↔ (none : Option (List (BitVec 8))) ≠ none
    simp

/-- A switch copies one stack, or none. -/
theorem Copies.step_switch {block : Nat} (hp : s.heap.switchesTo b = some p)
    (hstep : s.step b block = some t) :
    s.heap.copied b = none ∧ t = { s with heap := t.heap } ∨
      ∃ occupy, s.heap.copied b = some occupy ∧
        t = { s.copyStackMember occupy block with heap := t.heap } := by
  have hmatch : ∃ heap, t = (match s.heap.copied b with
      | none => { s with heap }
      | some occupy => { s.copyStackMember occupy block with heap }) := by
    cases b with
    | Co_Create c stack => cases hp
    | FreeCo_Entity c => cases hp
    | Co_resume co esp pfn =>
        obtain ⟨heap, -, heq⟩ := Option.map_eq_some_iff.mp hstep
        exact ⟨heap, heq.symm⟩
    | Co_yeild esp =>
        obtain ⟨heap, -, heq⟩ := Option.map_eq_some_iff.mp hstep
        exact ⟨heap, heq.symm⟩
    | finish esp =>
        obtain ⟨heap, -, heq⟩ := Option.map_eq_some_iff.mp hstep
        exact ⟨heap, heq.symm⟩
  obtain ⟨heap, heq⟩ := hmatch
  cases hcopied : s.heap.copied b with
  | none =>
      rw [hcopied] at heq
      exact Or.inl ⟨rfl, by rw [heq]⟩
  | some occupy =>
      rw [hcopied] at heq
      exact Or.inr ⟨occupy, rfl, by rw [heq]⟩

/-- `Co_Create`: the new entity has no copy. -/
theorem CopiesInv.create (hinv : CopiesInv s) {c : Co} {stack : StackChoice} {block : Nat}
    (ha : Copies.Step share s (.Co_Create c stack, block) t) : CopiesInv t := by
  have hheap := hinv.heap.step ha.1
  have hdead : s.heap.live c = false := by
    have hok := ha.1.1
    cases stack with
    | shared m => exact hok.1
    | own m size buffer => exact hok.1
  have hnone : s.Used_Stack c = none := by
    by_contra hne
    rw [hinv.live c hne] at hdead
    cases hdead
  -- `c` was not alive before, so there is no copy to forget
  have hsame : Function.update s.Used_Stack c none = s.Used_Stack := by
    rw [← hnone]
    exact Function.update_eq_self c s.Used_Stack
  obtain ⟨heap, hk, heq⟩ := Option.map_eq_some_iff.mp ha.2.2
  have hk' := Option.some.inj hk
  rw [← heq] at hheap ⊢
  dsimp only
  rw [hsame]
  constructor
  case heap => exact hheap
  case slots => exact hinv.slots
  case live =>
    intro d hd
    show heap.live d = true
    rw [← hk']
    show Function.update s.heap.live c true d = true
    by_cases hdc : d = c
    · rw [hdc, Function.update_self]
    · rw [Function.update_of_ne hdc]
      exact hinv.live d hd
  case agrees =>
    intro d hd
    change heap.live d = true at hd
    show s.Used_Stack d ≠ none ↔ (heap.thread.entity d).Used_Stack ≠ none
    rw [← hk'] at hd ⊢
    show s.Used_Stack d ≠ none ↔ ((coCreate s.heap.thread c stack).entity d).Used_Stack ≠ none
    by_cases hdc : d = c
    · rw [hdc, hnone, (coCreate_self stack).1]
      simp
    · change Function.update s.heap.live c true d = true at hd
      rw [Function.update_of_ne hdc] at hd
      rw [coCreate_entity stack hdc]
      exact hinv.agrees d hd

/-- `FreeCo_Entity`: a copy of the freed one goes with its entity. -/
theorem CopiesInv.free (hinv : CopiesInv s) {c : Co} {block : Nat}
    (ha : Copies.Step share s (.FreeCo_Entity c, block) t) : CopiesInv t := by
  have hheap := hinv.heap.step ha.1
  obtain ⟨heap, hk, heq⟩ := Option.map_eq_some_iff.mp ha.2.2
  have hk' := Option.some.inj hk
  obtain ⟨S, hslot, hlost, hheld⟩ := hinv.slots
  rw [← heq] at hheap ⊢
  constructor
  case heap => exact hheap
  case slots =>
    refine ⟨S.lose c, ?_, ?_, hheld⟩
    · show Function.update S.slot c none = _
      rw [hslot]
    · show S.lost ∪ (S.slot c).toFinset = _
      rw [hslot, hlost]
  case live =>
    intro d hd
    change Function.update s.Used_Stack c none d ≠ none at hd
    have hdc : d ≠ c := by
      intro hdc
      rw [hdc, Function.update_self] at hd
      exact hd rfl
    rw [Function.update_of_ne hdc] at hd
    show heap.live d = true
    rw [← hk']
    show Function.update s.heap.live c false d = true
    rw [Function.update_of_ne hdc]
    exact hinv.live d hd
  case agrees =>
    intro d hd
    change heap.live d = true at hd
    rw [← hk'] at hd
    change Function.update s.heap.live c false d = true at hd
    have hdc : d ≠ c := by
      intro hdc
      rw [hdc, Function.update_self] at hd
      cases hd
    rw [Function.update_of_ne hdc] at hd
    show Function.update s.Used_Stack c none d ≠ none ↔ (heap.thread.entity d).Used_Stack ≠ none
    rw [← hk', Function.update_of_ne hdc]
    exact hinv.agrees d hd

/-- Who is saved is alive. -/
theorem SwitchEffect.copied_live (hsw : SwitchEffect h k b p) (hp : h.switchesTo b = some p)
    (halive : h.LastAlive b) {occupy : Co} (hocc : h.copied b = some occupy) :
    h.live occupy = true := by
  obtain ⟨hshare, hlast, -⟩ := (hsw.copied occupy).mp hocc
  exact halive p hp hshare occupy hlast

/-- A switch: the copy of the evicted one is taken back and a new one is given out. -/
theorem CopiesInv.switch (hinv : CopiesInv s) {block : Nat} (ha : Copies.Step share s (b, block) t)
    (halive : s.heap.LastAlive b) (hp : s.heap.switchesTo b = some p) : CopiesInv t := by
  have hheap := hinv.heap.step ha.1
  have hsw := hinv.heap.switchEffect ha.1 hp
  obtain ⟨S, hslot, hlost, hheld⟩ := hinv.slots
  rcases Copies.step_switch hp ha.2.2 with ⟨hnone, heq⟩ | ⟨occupy, hocc, heq⟩
  -- nothing is copied: the blocks stay where they are
  · rw [heq]
    constructor
    case heap => exact hheap
    case slots => exact ⟨S, hslot, hlost, hheld⟩
    case live =>
      intro c hc
      show t.heap.live c = true
      rw [hsw.live]
      exact hinv.live c hc
    case agrees =>
      intro c hc
      change t.heap.live c = true at hc
      rw [hsw.live] at hc
      show s.Used_Stack c ≠ none ↔ (t.heap.thread.entity c).Used_Stack ≠ none
      rw [hsw.saved, hnone, hinv.agrees c hc]
      simp
  -- the block may be the one that `occupy` has just given up, and no other
  · have hfresh : block ∈ S.held → S.slot occupy = some block := by
      intro hin
      have hfrees := ha.2.1 (hheld ▸ hin)
      unfold Copies.frees at hfrees
      rw [hocc] at hfrees
      rw [hslot]
      exact hfrees
    rw [heq]
    constructor
    case heap => exact hheap
    case slots =>
      refine ⟨S.renew occupy block hfresh, ?_, hlost, ?_⟩
      · show Function.update S.slot occupy (some block) = _
        rw [hslot]
        rfl
      · show insert block (S.held \ (S.slot occupy).toFinset) = _
        rw [hslot, hheld]
        rfl
    case live =>
      intro c hc
      change Function.update s.Used_Stack occupy (some block) c ≠ none at hc
      show t.heap.live c = true
      rw [hsw.live]
      by_cases hco : c = occupy
      · rw [hco]
        exact hsw.copied_live hp halive hocc
      · rw [Function.update_of_ne hco] at hc
        exact hinv.live c hc
    case agrees =>
      intro c hc
      change t.heap.live c = true at hc
      rw [hsw.live] at hc
      show Function.update s.Used_Stack occupy (some block) c ≠ none ↔
        (t.heap.thread.entity c).Used_Stack ≠ none
      rw [hsw.saved, hocc]
      by_cases hco : c = occupy
      · rw [hco, Function.update_self]
        simp
      · rw [Function.update_of_ne hco, hinv.agrees c hc]
        simp [Ne.symm hco]

/-- **Every action keeps the invariant**, if the coroutine it saves is alive. -/
theorem CopiesInv.step (hinv : CopiesInv s) {b : HeapAction × Nat} (ha : Copies.Step share s b t)
    (halive : s.heap.LastAlive b.1) : CopiesInv t := by
  obtain ⟨b, block⟩ := b
  cases b with
  | Co_Create c stack => exact hinv.create ha
  | FreeCo_Entity c => exact hinv.free ha
  | Co_resume co esp pfn => exact hinv.switch ha halive rfl
  | Co_yeild esp => exact hinv.switch ha halive rfl
  | finish esp => exact hinv.switch ha halive rfl

/-- What was lost stays lost. -/
theorem Copies.lost_step {b : HeapAction × Nat} (ha : Copies.Step share s b t) : s.lost ⊆ t.lost := by
  obtain ⟨b, block⟩ := b
  have hswitch : ∀ p, s.heap.switchesTo b = some p → s.lost ⊆ t.lost := by
    intro p hp
    rcases Copies.step_switch hp ha.2.2 with ⟨-, heq⟩ | ⟨occupy, -, heq⟩
    · rw [heq]
    · rw [heq]
      exact Finset.Subset.refl _
  cases b with
  | Co_Create c stack =>
      obtain ⟨heap, -, heq⟩ := Option.map_eq_some_iff.mp ha.2.2
      rw [← heq]
  | FreeCo_Entity c =>
      obtain ⟨heap, -, heq⟩ := Option.map_eq_some_iff.mp ha.2.2
      rw [← heq]
      exact Finset.subset_union_left
  | Co_resume co esp pfn => exact hswitch co rfl
  | Co_yeild esp => exact hswitch _ rfl
  | finish esp => exact hswitch _ rfl

/-! ## §4. Runs that find the last one alive. -/

/-- A step that finds the coroutine alive that ran before on the stack. -/
def Copies.AliveStep (share : Nat → Bool) (s : Copies) (b : HeapAction × Nat) (t : Copies) : Prop :=
  Copies.Step share s b t ∧ s.heap.LastAlive b.1

/-- The invariant, in every run in which the last coroutine on a stack is alive. -/
theorem CopiesInv.run (cfg : Config) {bs : List (HeapAction × Nat)}
    (hrun : Run (Copies.AliveStep share) (Copies.init cfg) bs s) : CopiesInv s :=
  hrun.invariant (fun _ _ _ hinv ha => hinv.step ha.1 ha.2) (CopiesInv.init cfg)

/-- The copies of the live coroutines are those that `Slots` counts. -/
theorem CopiesInv.holders (hinv : CopiesInv s) {S : Slots Co} (hslot : S.slot = s.Used_Stack) :
    S.holders = s.savers := by
  ext c
  show S.slot c ≠ none ↔ s.heap.live c = true ∧ _
  rw [hslot]
  constructor
  · intro hc
    have hlive := hinv.live c hc
    exact ⟨hlive, (hinv.agrees c hlive).mp hc⟩
  · intro hc
    exact (hinv.agrees c hc.1).mpr hc.2

/-- **The count of the blocks.** -/
theorem CopiesInv.card_held (hinv : CopiesInv s) :
    s.held.card = s.savers.ncard + s.lost.card := by
  obtain ⟨S, hslot, hlost, hheld⟩ := hinv.slots
  rw [← hheld, ← hlost, ← hinv.holders hslot]
  exact S.card_held

/-- **Copies are given back once, or never.**  In a run that switches to a shared stack only while the
coroutine that ran on it before is not freed: the blocks that are out are one for each live coroutine that was
saved and those that went with their entity; what is given to `tc_free` is one of the former; and the latter
stay out in whatever follows. -/
theorem copies_counted (cfg : Config) (share : Nat → Bool) (bs : List (HeapAction × Nat)) (s : Copies)
    (hrun : Run (Copies.AliveStep share) (Copies.init cfg) bs s) :
    s.held.card = s.savers.ncard + s.lost.card ∧
      (∀ b t, Copies.AliveStep share s b t → ∀ a ∈ s.frees b.1, a ∈ s.held ∧ a ∉ s.lost) ∧
      ∀ bs' t, Run (Copies.AliveStep share) s bs' t → s.lost ⊆ t.held := by
  have hinv := CopiesInv.run cfg hrun
  refine ⟨hinv.card_held, ?_, ?_⟩
  · intro b t _ a ha
    obtain ⟨S, hslot, hlost, hheld⟩ := hinv.slots
    obtain ⟨occupy, -, hused⟩ := Option.bind_eq_some_iff.mp ha
    rw [← hslot] at hused
    rw [← hheld, ← hlost]
    exact S.owned hused
  · intro bs' t hrest
    have hlost : s.lost ⊆ t.lost :=
      hrest.invariant (I := fun t => s.lost ⊆ t.lost)
        (fun _ _ _ hsub ha => hsub.trans (Copies.lost_step ha.1)) (Finset.Subset.refl _)
    obtain ⟨S, -, hlost', hheld⟩ := (CopiesInv.run cfg (hrun.trans hrest)).slots
    rw [← hheld]
    exact hlost.trans (hlost' ▸ S.lost_subset)

/-! ## §5. Runs that free a coroutine behind another one. -/

/-- A step that frees a coroutine only after another one has taken its stack. -/
def Copies.BehindStep (share : Nat → Bool) (s : Copies) (b : HeapAction × Nat) (t : Copies) : Prop :=
  Copies.Step share s b t ∧
    ∀ c, b.1 = .FreeCo_Entity c → (s.heap.thread.csm c).current_co ≠ some c

/-- **A coroutine with a shared stack** that has started ran on its stack last, or it was saved. -/
structure SharersInv (share : Nat → Bool) (s : Copies) : Prop where
  copies : CopiesInv s
  noneLeft : s.heap.NoneLeft
  shared : ∀ c, s.heap.live c = true → (s.heap.thread.entity c).IsShareStack = true →
    share (s.heap.thread.entity c).Csm = true
  last : ∀ m c, s.heap.lastOn m = some c →
    (s.heap.thread.entity c).IsShareStack = true ∧ (s.heap.thread.entity c).Csm = m
  saved : ∀ c, s.Used_Stack c ≠ none → (s.heap.thread.entity c).IsShareStack = true
  started : ∀ c ∈ s.heap.thread.calls, c ≠ mainCo → (s.heap.thread.entity c).ISstart = true
  ended : ∀ c, s.heap.live c = true → (s.heap.thread.entity c).IsEnd = true →
    (s.heap.thread.entity c).ISstart = true
  left : ∀ c, s.heap.live c = true → (s.heap.thread.entity c).IsShareStack = true →
    (s.heap.thread.entity c).ISstart = true →
    s.heap.lastOn (s.heap.thread.entity c).Csm = some c ∨ s.Used_Stack c ≠ none
  lost : s.lost.card = s.sharers

theorem SharersInv.init (share : Nat → Bool) (cfg : Config) : SharersInv share (Copies.init cfg) := by
  have hmain : ∀ c, (Copies.init cfg).heap.live c = true → c = mainCo :=
    fun c hc => of_decide_eq_true hc
  constructor
  case copies => exact CopiesInv.init cfg
  case noneLeft =>
    intro m o ho
    cases ho
  case shared =>
    intro c hc hs
    have hprivate : cfg.IsShareStack c = true := hs
    rw [hmain c hc, cfg.main] at hprivate
    cases hprivate
  case last =>
    intro m c hc
    cases hc
  case saved =>
    intro c hc
    exact absurd rfl hc
  case started =>
    intro c hc hne
    have heq : c = mainCo := by
      simpa [Copies.init, Heap.init, Config.init, Thread.calls] using hc
    exact absurd heq hne
  case ended =>
    intro c _ hend
    cases hend
  case left =>
    intro c _ _ hstart
    cases hstart
  case lost => rfl

/-- `Co_Create`: the new coroutine was not started. -/
theorem SharersInv.create (hinv : SharersInv share s) {c : Co} {stack : StackChoice} {block : Nat}
    (ha : Copies.Step share s (.Co_Create c stack, block) t) (hcopies : CopiesInv t)
    (hleft : t.heap.NoneLeft) : SharersInv share t := by
  have hdead : s.heap.live c = false := by
    have hok := ha.1.1
    cases stack with
    | shared m => exact hok.1
    | own m size buffer => exact hok.1
  have halive : ∀ d, s.heap.live d = true → d ≠ c := by
    intro d hd hdc
    rw [hdc, hdead] at hd
    cases hd
  -- the stack that is given is one of the `Co_ShareStack`s, or has had nobody on it
  have hstack : ((coCreate s.heap.thread c stack).entity c).IsShareStack = true →
      share ((coCreate s.heap.thread c stack).entity c).Csm = true := by
    have hok := ha.1.1
    cases stack with
    | shared m =>
        show (Function.update s.heap.thread.entity c _ c).IsShareStack = true →
          share (Function.update s.heap.thread.entity c _ c).Csm = true
        rw [Function.update_self]
        exact fun _ => hok.2
    | own m size buffer =>
        show (Function.update s.heap.thread.entity c _ c).IsShareStack = true → _
        rw [Function.update_self]
        intro hs
        cases hs
  obtain ⟨heap, hk, heq⟩ := Option.map_eq_some_iff.mp ha.2.2
  have hk' := Option.some.inj hk
  have hentity : ∀ d, d ≠ c → heap.thread.entity d = s.heap.thread.entity d := by
    intro d hd
    rw [← hk']
    exact coCreate_entity stack hd
  have hself : heap.thread.entity c = (coCreate s.heap.thread c stack).entity c := by
    rw [← hk']
  have hlive : ∀ d, d ≠ c → heap.live d = true → s.heap.live d = true := by
    intro d hd hdl
    rw [← hk'] at hdl
    change Function.update s.heap.live c true d = true at hdl
    rwa [Function.update_of_ne hd] at hdl
  have hcalls : heap.thread.calls = s.heap.thread.calls := by
    rw [← hk']
    cases stack with
    | shared m => rfl
    | own m size buffer => rfl
  have hlast : ∀ m, heap.lastOn m = s.heap.lastOn m ∨ heap.lastOn m = none ∧ share m = false := by
    intro m
    have hok := ha.1.1
    rw [← hk']
    cases stack with
    | shared m' => exact Or.inl rfl
    | own m' size buffer =>
        show Function.update s.heap.lastOn m' none m = _ ∨ Function.update s.heap.lastOn m' none m = _ ∧ _
        by_cases hm : m = m'
        · rw [hm, Function.update_self]
          exact Or.inr ⟨rfl, hok.2.1⟩
        · rw [Function.update_of_ne hm]
          exact Or.inl rfl
  rw [← heq] at hcopies hleft ⊢
  have hsaved : ∀ d, d ≠ c → Function.update s.Used_Stack c none d = s.Used_Stack d :=
    fun d hd => Function.update_of_ne hd _ _
  constructor
  case copies => exact hcopies
  case noneLeft => exact hleft
  case shared =>
    intro d hd
    show (heap.thread.entity d).IsShareStack = true → share (heap.thread.entity d).Csm = true
    by_cases hdc : d = c
    · rw [hdc, hself]
      exact hstack
    · rw [hentity d hdc]
      exact hinv.shared d (hlive d hdc hd)
  case last =>
    intro m d hd
    have hold : s.heap.lastOn m = some d := by
      change heap.lastOn m = some d at hd
      rcases hlast m with hm | ⟨hm, -⟩
      · rw [← hm, hd]
      · rw [hm] at hd
        cases hd
    show (heap.thread.entity d).IsShareStack = true ∧ (heap.thread.entity d).Csm = m
    rw [hentity d (halive d (hinv.noneLeft m d hold))]
    exact hinv.last m d hold
  case saved =>
    intro d hd
    change Function.update s.Used_Stack c none d ≠ none at hd
    have hdc : d ≠ c := by
      intro hdc
      rw [hdc, Function.update_self] at hd
      exact hd rfl
    rw [hsaved d hdc] at hd
    show (heap.thread.entity d).IsShareStack = true
    rw [hentity d hdc]
    exact hinv.saved d hd
  case started =>
    intro d hd hne
    change d ∈ heap.thread.calls at hd
    rw [hcalls] at hd
    show (heap.thread.entity d).ISstart = true
    rw [hentity d (halive d (hinv.copies.heap.live d hd))]
    exact hinv.started d hd hne
  case ended =>
    intro d hd hend
    change (heap.thread.entity d).IsEnd = true at hend
    show (heap.thread.entity d).ISstart = true
    by_cases hdc : d = c
    · rw [hdc, hself, (coCreate_self stack).2.2] at hend
      cases hend
    · rw [hentity d hdc] at hend ⊢
      exact hinv.ended d (hlive d hdc hd) hend
  case left =>
    intro d hd hs hst
    change (heap.thread.entity d).IsShareStack = true at hs
    change (heap.thread.entity d).ISstart = true at hst
    show heap.lastOn (heap.thread.entity d).Csm = some d ∨ Function.update s.Used_Stack c none d ≠ none
    by_cases hdc : d = c
    · rw [hdc, hself, (coCreate_self stack).2.1] at hst
      cases hst
    · rw [hentity d hdc] at hs hst ⊢
      have hdl := hlive d hdc hd
      rw [hsaved d hdc]
      rcases hlast (s.heap.thread.entity d).Csm with hm | ⟨-, hm⟩
      · rw [hm]
        exact hinv.left d hdl hs hst
      · rw [hinv.shared d hdl hs] at hm
        cases hm
  case lost => exact hinv.lost

/-- `FreeCo_Entity`: another one has its stack, so there is a copy of it that gets lost. -/
theorem SharersInv.free (hinv : SharersInv share s) {c : Co} {block : Nat}
    (ha : Copies.Step share s (.FreeCo_Entity c, block) t)
    (hfree : s.heap.FreedBehind (.FreeCo_Entity c)) (hcopies : CopiesInv t)
    (hleft : t.heap.NoneLeft) : SharersInv share t := by
  obtain ⟨hlivec, hendc, hout⟩ := ha.1.1
  obtain ⟨heap, hk, heq⟩ := Option.map_eq_some_iff.mp ha.2.2
  have hk' := Option.some.inj hk
  obtain ⟨S, hslot, hlost, -⟩ := hinv.copies.slots
  have hthread : heap.thread = s.heap.thread ∧ heap.lastOn = s.heap.lastOn := by
    rw [← hk']
    exact ⟨rfl, rfl⟩
  -- the others live on; the record of `c` is not read again
  have hlive : ∀ d, heap.live d = true → d ≠ c ∧ s.heap.live d = true := by
    intro d hd
    rw [← hk'] at hd
    change Function.update s.heap.live c false d = true at hd
    by_cases hdc : d = c
    · rw [hdc, Function.update_self] at hd
      cases hd
    · rw [Function.update_of_ne hdc] at hd
      exact ⟨hdc, hd⟩
  rw [← heq] at hcopies hleft ⊢
  obtain ⟨hthread, hlast⟩ := hthread
  constructor
  case copies => exact hcopies
  case noneLeft => exact hleft
  case shared =>
    intro d hd
    show (heap.thread.entity d).IsShareStack = true → share (heap.thread.entity d).Csm = true
    rw [hthread]
    exact hinv.shared d (hlive d hd).2
  case last =>
    intro m d hd
    change heap.lastOn m = some d at hd
    rw [hlast] at hd
    show (heap.thread.entity d).IsShareStack = true ∧ (heap.thread.entity d).Csm = m
    rw [hthread]
    exact hinv.last m d hd
  case saved =>
    intro d hd
    change Function.update s.Used_Stack c none d ≠ none at hd
    -- the pointer to the copy goes with the record
    have hdc : d ≠ c := by
      intro hdc
      rw [hdc, Function.update_self] at hd
      exact hd rfl
    rw [Function.update_of_ne hdc] at hd
    show (heap.thread.entity d).IsShareStack = true
    rw [hthread]
    exact hinv.saved d hd
  case started =>
    intro d hd hne
    change d ∈ heap.thread.calls at hd
    rw [hthread] at hd
    show (heap.thread.entity d).ISstart = true
    rw [hthread]
    exact hinv.started d hd hne
  case ended =>
    intro d hd hend
    change (heap.thread.entity d).IsEnd = true at hend
    show (heap.thread.entity d).ISstart = true
    rw [hthread] at hend ⊢
    exact hinv.ended d (hlive d hd).2 hend
  case left =>
    intro d hd hs hst
    change (heap.thread.entity d).IsShareStack = true at hs
    change (heap.thread.entity d).ISstart = true at hst
    show heap.lastOn (heap.thread.entity d).Csm = some d ∨ Function.update s.Used_Stack c none d ≠ none
    obtain ⟨hdc, hdl⟩ := hlive d hd
    rw [hthread] at hs hst ⊢
    rw [hlast, Function.update_of_ne hdc]
    exact hinv.left d hdl hs hst
  case lost =>
    show (s.lost ∪ (s.Used_Stack c).toFinset).card =
      if (s.heap.thread.entity c).IsShareStack = true then s.sharers + 1 else s.sharers
    by_cases hs : (s.heap.thread.entity c).IsShareStack = true
    · -- it has ended, and another one has run on its stack: it was saved
      have hsaved : S.slot c ≠ none := by
        rw [hslot]
        rcases hinv.left c hlivec hs (hinv.ended c hlivec hendc) with hm | hused
        · exact absurd hm (hfree _)
        · exact hused
      -- the copy it leaves is one that nobody frees
      have hcard := Slots.card_lose hsaved
      change (S.lost ∪ (S.slot c).toFinset).card = _ at hcard
      rw [hslot, hlost] at hcard
      rw [if_pos hs, hcard, hinv.lost]
    -- a private stack is never saved
    · have hnone : s.Used_Stack c = none := by
        by_contra hne
        exact hs (hinv.saved c hne)
      rw [if_neg hs, hnone, Option.toFinset_none, Finset.union_empty]
      exact hinv.lost

/-- A switch: `pending` is the last one on its stack, and the one before it is saved. -/
theorem SharersInv.switch (hinv : SharersInv share s) {block : Nat}
    (ha : Copies.Step share s (b, block) t) (hp : s.heap.switchesTo b = some p)
    (hcopies : CopiesInv t) (hleft : t.heap.NoneLeft) : SharersInv share t := by
  have hsw := hinv.copies.heap.switchEffect ha.1 hp
  have hcopied : ∀ c, s.heap.copied b = some c → (s.heap.thread.entity c).IsShareStack = true := by
    intro c hc
    exact (hinv.last _ c ((hsw.copied c).mp hc).2.1).1
  -- the tenant that goes is saved, every other one keeps the block it has
  have hsaved : ∀ c, t.Used_Stack c ≠ none ↔ s.heap.copied b = some c ∨ s.Used_Stack c ≠ none := by
    intro c
    rcases Copies.step_switch hp ha.2.2 with ⟨hnone, heq⟩ | ⟨occupy, hocc, heq⟩
    · rw [heq, hnone]
      simp
    · rw [heq, hocc]
      show Function.update s.Used_Stack occupy (some block) c ≠ none ↔ _
      by_cases hco : c = occupy
      · rw [hco, Function.update_self]
        simp
      · rw [Function.update_of_ne hco]
        simp [Ne.symm hco]
  -- a switch renews a block and never loses one
  have hghosts : t.lost = s.lost ∧ t.sharers = s.sharers := by
    rcases Copies.step_switch hp ha.2.2 with ⟨-, heq⟩ | ⟨occupy, -, heq⟩
    · rw [heq]
      exact ⟨rfl, rfl⟩
    · rw [heq]
      exact ⟨rfl, rfl⟩
  constructor
  case copies => exact hcopies
  case noneLeft => exact hleft
  case shared =>
    intro c hc
    rw [hsw.live] at hc
    rw [(hsw.stack c).1, (hsw.stack c).2]
    exact hinv.shared c hc
  -- the stack switched to has a new tenant, the other ones keep theirs
  case last =>
    intro m c hc
    rw [(hsw.stack c).1, (hsw.stack c).2]
    rw [hsw.lastOn] at hc
    by_cases hs : (s.heap.thread.entity p).IsShareStack = true
    · rw [if_pos hs] at hc
      by_cases hm : m = (s.heap.thread.entity p).Csm
      · rw [hm, Function.update_self] at hc
        rw [← Option.some.inj hc]
        exact ⟨hs, hm.symm⟩
      · rw [Function.update_of_ne hm] at hc
        exact hinv.last m c hc
    · rw [if_neg hs] at hc
      exact hinv.last m c hc
  case saved =>
    intro c hc
    rw [(hsw.stack c).1]
    rcases (hsaved c).mp hc with hcopy | hused
    · exact hcopied c hcopy
    · exact hinv.saved c hused
  case started =>
    intro c hc hne
    rw [hsw.started]
    by_cases hin : c ∈ s.heap.thread.calls
    · exact Or.inl (hinv.started c hin hne)
    · rcases hsw.calls c hc with hin' | heq
      · exact absurd hin' hin
      · exact Or.inr ⟨heq, hin⟩
  -- only the coroutine that runs can end, and it is on the call stack
  case ended =>
    intro c hc hend
    rw [hsw.live] at hc
    rw [hsw.started]
    rcases hsw.ended c hend with hold | ⟨heq, hne⟩
    · exact Or.inl (hinv.ended c hc hold)
    · rw [heq]
      have hpos := hinv.copies.heap.calls.pos
      have hrun : s.heap.thread.running ∈ s.heap.thread.calls := by
        rw [← hinv.copies.heap.calls.top]
        exact mem_calls.mpr ⟨_, by omega, rfl⟩
      exact Or.inl (hinv.started _ hrun hne)
  case left =>
    intro c hc hs hst
    rw [hsw.live] at hc
    rw [(hsw.stack c).1] at hs
    rw [(hsw.stack c).2, hsaved, hsw.lastOn]
    by_cases hcp : c = p
    · rw [hcp] at hs ⊢
      rw [if_pos hs, Function.update_self]
      exact Or.inl rfl
    -- `c` does not run next, so it has been started before
    · have hold : (s.heap.thread.entity c).ISstart = true := by
        rcases (hsw.started c).mp hst with hold | ⟨heq, -⟩
        · exact hold
        · exact absurd heq hcp
      rcases hinv.left c hc hs hold with hm | hused
      · by_cases hsp : (s.heap.thread.entity p).IsShareStack = true
        · rw [if_pos hsp]
          by_cases hstack : (s.heap.thread.entity c).Csm = (s.heap.thread.entity p).Csm
          · -- the stack goes to `p`, and `c` is saved
            rw [hstack] at hm
            exact Or.inr (Or.inl ((hsw.copied c).mpr ⟨hsp, hm, hcp⟩))
          · rw [Function.update_of_ne hstack]
            exact Or.inl hm
        · rw [if_neg hsp]
          exact Or.inl hm
      · exact Or.inr (Or.inr hused)
  case lost => rw [hghosts.1, hghosts.2, hinv.lost]

/-- Whoever runs on a shared stack next finds the last one alive. -/
theorem SharersInv.alive (hinv : SharersInv share s) (b : HeapAction) : s.heap.LastAlive b :=
  fun _ _ _ o ho => hinv.noneLeft _ o ho

/-- The three kinds of steps. -/
theorem SharersInv.step (hinv : SharersInv share s) {b : HeapAction × Nat}
    (ha : Copies.BehindStep share s b t) : SharersInv share t := by
  obtain ⟨b, block⟩ := b
  obtain ⟨ha, hbehind⟩ := ha
  -- a coroutine can be the last one on its own stack only
  have hfree : s.heap.FreedBehind b := by
    cases b with
    | FreeCo_Entity c =>
        intro m hm
        have hocc := hinv.copies.heap.tracks (s.heap.thread.entity c).Csm
        rw [(hinv.last m c hm).2, hm] at hocc
        apply hbehind c rfl
        show (s.heap.thread.member (s.heap.thread.entity c).Csm).current_co = some c
        rw [(hinv.last m c hm).2, hocc]
    | _ => trivial
  have hcopies := hinv.copies.step ha (hinv.alive b)
  have hleft := noneLeft_step hinv.copies.heap hinv.noneLeft ha.1 hfree
  cases b with
  | Co_Create c stack => exact hinv.create ha hcopies hleft
  | FreeCo_Entity c => exact hinv.free ha hfree hcopies hleft
  | Co_resume co esp pfn => exact hinv.switch ha rfl hcopies hleft
  | Co_yeild esp => exact hinv.switch ha rfl hcopies hleft
  | finish esp => exact hinv.switch ha rfl hcopies hleft

/-- The invariant, in every run that frees a coroutine only behind another one. -/
theorem SharersInv.run {cfg : Config} {bs : List (HeapAction × Nat)}
    (hrun : Run (Copies.BehindStep share) (Copies.init cfg) bs s) : SharersInv share s :=
  hrun.invariant (fun _ _ _ hinv ha => hinv.step ha) (SharersInv.init share cfg)

/-- These runs are among those of `copies_counted`. -/
theorem alive_of_behind {cfg : Config} {bs : List (HeapAction × Nat)}
    (hrun : Run (Copies.BehindStep share) (Copies.init cfg) bs s) :
    Run (Copies.AliveStep share) (Copies.init cfg) bs s := by
  induction hrun with
  | nil => exact .nil _
  | snoc hrun ha ih => exact .snoc ih ⟨ha.1, (SharersInv.run hrun).alive _⟩

/-- **To free safely is to lose memory.**  In a run that frees a coroutine only after another one has taken
its stack, the blocks that are out are one for each live coroutine that was saved, and one for each
coroutine with a shared stack that was freed. -/
theorem sharers_lose_copy (cfg : Config) (share : Nat → Bool) (bs : List (HeapAction × Nat)) (s : Copies)
    (hrun : Run (Copies.BehindStep share) (Copies.init cfg) bs s) :
    s.held.card = s.savers.ncard + s.sharers ∧ s.lost.card = s.sharers := by
  have hinv := SharersInv.run hrun
  refine ⟨?_, hinv.lost⟩
  rw [hinv.copies.card_held, hinv.lost]

/-! ### Two coroutines on one stack. -/

/-- A test for the actions that create no stack. -/
def Copies.check (share : Nat → Bool) (s : Copies) (b : HeapAction × Nat) : Bool :=
  s.heap.check share b.1 && decide (b.2 ∈ s.held → s.frees b.1 = some b.2) &&
    match b.1 with
    | .FreeCo_Entity c => decide ((s.heap.thread.csm c).current_co ≠ some c)
    | _ => true

/-- The blocks do not influence the heap. -/
theorem Copies.step_heap {block : Nat} (hstep : s.step b block = some t) :
    s.heap.step b = some t.heap := by
  obtain ⟨heap, hk, heq⟩ := Option.map_eq_some_iff.mp hstep
  have hheap : t.heap = heap := by
    rw [← heq]
    cases b with
    | Co_Create c stack => rfl
    | FreeCo_Entity c => rfl
    | _ =>
        dsimp only
        split
        · rfl
        · rfl
  rw [hheap, hk]

theorem Copies.step_of_check {b : HeapAction × Nat} (hok : s.check share b = true)
    (hstep : s.step b.1 b.2 = some t) : Copies.BehindStep share s b t := by
  unfold Copies.check at hok
  rw [Bool.and_eq_true, Bool.and_eq_true] at hok
  obtain ⟨⟨hheap, hfresh⟩, hbehind⟩ := hok
  have hblock : s.Fresh b.1 b.2 := by
    have hok := of_decide_eq_true hfresh
    exact hok
  refine ⟨⟨Heap.step_of_check hheap (Copies.step_heap hstep), hblock, hstep⟩, ?_⟩
  intro c hc
  rw [hc] at hbehind
  exact of_decide_eq_true hbehind

/-- Coroutines 1 and 2 share stack 1, and each one is saved before 2 is freed. -/
def Copies.twoOnOne : List (HeapAction × Nat) :=
  [(.Co_Create 1 (.shared 1), 0), (.Co_Create 2 (.shared 1), 0), (.Co_resume 1 0 0, 0),
    (.Co_yeild 8160, 0), (.Co_resume 2 0 0, 7), (.finish 8160, 0), (.Co_resume 1 0 0, 8),
    (.finish 8160, 0), (.FreeCo_Entity 2, 0)]

theorem Copies.twoOnOne_run : ∃ s,
    Run (Copies.BehindStep fun m => decide (m = 1)) (Copies.init Config.twoOnOne) Copies.twoOnOne s ∧
      s.held = {7, 8} ∧ s.lost = {8} ∧ s.sharers = 1 := by
  have hcheck : checkRun (fun s b => s.step b.1 b.2) (Copies.check fun m => decide (m = 1))
      (Copies.init Config.twoOnOne) Copies.twoOnOne
      (fun s => decide (s.held = {7, 8} ∧ s.lost = {8} ∧ s.sharers = 1)) = true := by
    decide +kernel
  obtain ⟨s, hrun, hs⟩ := Run.of_check (fun s b t => Copies.step_of_check) hcheck
  exact ⟨s, hrun, of_decide_eq_true hs⟩

/-- Two coroutines on one stack: one copy is in use, and the other one went with its entity. -/
theorem copies_counted_two : ∃ s,
    Run (Copies.AliveStep fun m => decide (m = 1)) (Copies.init Config.twoOnOne) Copies.twoOnOne s ∧
      s.held = {7, 8} ∧ s.lost = {8} ∧ s.savers.ncard = 1 := by
  obtain ⟨s, hrun, hheld, hlost, -⟩ := Copies.twoOnOne_run
  have halive := alive_of_behind hrun
  have hcount := (copies_counted _ _ _ s halive).1
  have hcard : ({7, 8} : Finset Nat).card = 2 ∧ ({8} : Finset Nat).card = 1 := by decide
  rw [hheld, hlost, hcard.1, hcard.2] at hcount
  exact ⟨s, halive, hheld, hlost, by omega⟩

theorem sharers_lose_copy_two : ∃ s,
    Run (Copies.BehindStep fun m => decide (m = 1)) (Copies.init Config.twoOnOne) Copies.twoOnOne s ∧
      s.held = {7, 8} ∧ s.savers.ncard = 1 ∧ s.sharers = 1 := by
  obtain ⟨s, hrun, hheld, -, hsharers⟩ := Copies.twoOnOne_run
  have hcount := (sharers_lose_copy _ _ _ s hrun).1
  have hcard : ({7, 8} : Finset Nat).card = 2 := by decide
  rw [hheld, hsharers, hcard] at hcount
  exact ⟨s, hrun, hheld, by omega, hsharers⟩

end RocketCo.CoSwap
