/-
  RocketCo.CoRoutine.ThreadEnv — how a thread gets its environment, when memory runs out.

  `init_thisThread_Env` sets `CurrentThread_CoEnv` behind the first of its requests for memory; the main
  coroutine, the `Co_Epoll` with its wheel, the `Epoll` and the two lists follow.  `Co_Create` catches
  `std::bad_alloc`, and all later calls take a pointer that is not null for a complete environment.

    • `initThisThreadEnv_spec` — what a refused request leaves behind,
    • `consistent_runs_iff` — the environment of a thread is null or complete all the time exactly in the
      runs in which no request of `init_thisThread_Env` but its first is refused; no call faults there.
-/
import Mathlib.Logic.Function.Basic
import RocketCo.CoRoutine.TimeWheel
import RocketCo.CoSwap.Switch
import RocketCo.Lib.Alloc

namespace RocketCo.CoRoutine

open RocketCo.Lib
open RocketCo.CoSwap (MaximumNumberOfCoroutinesAllowed)

/-! ## §1. Data. -/

/-- `Co_Epoll`; the wheel is the addresses of its slots. -/
structure CoEpoll where
  epoll_t : Option Nat
  Wheel : List Nat
  ActiveLink : Option Nat
  TimeoutLink : Option Nat

structure CoRountinueEnv where
  Co_CallBack : Nat → Option Nat
  Co_ESP : Nat
  Epoll_ : Option CoEpoll
  using_Co : Option Nat
  prev_Co : Option Nat

/-- `new Co_Rountinue_Env()`. -/
def CoRountinueEnv.zero : CoRountinueEnv := ⟨fun _ => none, 0, none, none, none⟩

/-- `Co_Stack_Member`. -/
structure StackMember where
  current_co : Option Nat
  stack_size : BitVec 32
  stack_buffer : Nat

/-- `Co_Entity`; the stack pointer and the size are those of its context. -/
structure ThreadEntity where
  env : Option Nat
  Csm : Option StackMember
  ss_sp : Option Nat
  ss_size : BitVec 32
  ISstart : Bool
  IsMain : Bool
  IsEnd : Bool
  IsHook : Bool
  IsShareStack : Bool

/-- Behind `bzero`. -/
def ThreadEntity.zero : ThreadEntity := ⟨none, none, none, 0, false, false, false, false, false⟩

structure CoShareStack where
  alloc_idx : BitVec 32
  stack_size : BitVec 32
  count : BitVec 32
  stack_array : Nat → StackMember

structure CoAttribute where
  stack_size : BitVec 32
  shareStack : Option Nat

/-- `Co_Attribute::Default_StackSize`. -/
def defaultStackSize : BitVec 32 := 128 * 1024

/-- `Co_Attribute::Maximum_StackSize`. -/
def maximumStackSize : BitVec 32 := 8 * 1024 * 1024

def CoAttribute.default : CoAttribute := ⟨defaultStackSize, none⟩

/-- `Co_RealFun`: how many requests a copy of it makes. -/
structure CoRealFun where
  copy : Nat

/-- `nullptr` as a `Co_RealFun`. -/
def CoRealFun.null : CoRealFun := ⟨0⟩

/-- The thread's two pointers, and the objects by their addresses.  The `Co_ShareStack`s are the
user's. -/
structure ThreadState where
  CurrentThread_CoEnv : Option Nat
  DeleteThread_CoEnv : Option Nat
  env : Nat → Option CoRountinueEnv
  entity : Nat → Option ThreadEntity
  share : Nat → Option CoShareStack

namespace ThreadState

def setEnv (s : ThreadState) (e : Nat) (env : Option CoRountinueEnv) : ThreadState :=
  { s with env := Function.update s.env e env }

def setEntity (s : ThreadState) (co : Nat) (x : ThreadEntity) : ThreadState :=
  { s with entity := Function.update s.entity co (some x) }

def setShare (s : ThreadState) (m : Nat) (x : CoShareStack) : ThreadState :=
  { s with share := Function.update s.share m (some x) }

end ThreadState

/-- An entry of `Co_CallBack`, if there is one. -/
def CoRountinueEnv.slot (env : CoRountinueEnv) (i : Int) : Option (Option Nat) :=
  if 0 ≤ i ∧ i < MaximumNumberOfCoroutinesAllowed then some (env.Co_CallBack i.toNat) else none

/-- `Co_CallBack[Co_ESP++] = co`. -/
def CoRountinueEnv.push (env : CoRountinueEnv) (co : Nat) : CoRountinueEnv :=
  { env with
    Co_CallBack := Function.update env.Co_CallBack env.Co_ESP (some co)
    Co_ESP := env.Co_ESP + 1 }

/-! ## §2. Coroutines and environments are made. -/

/-- The size a stack gets: within the bounds, and a multiple of 4KB. -/
def alignedStackSize (n : BitVec 32) : BitVec 32 :=
  let n :=
    if n.sle 0 then defaultStackSize
    else if maximumStackSize.slt n then maximumStackSize
    else n
  if n &&& 0xFFF ≠ 0 then (n &&& ~~~0xFFF) + 0x1000 else n

/-- Writes to the fields of an environment. -/
def updateEnv (e : Option Nat) (f : CoRountinueEnv → CoRountinueEnv) : Alloc ThreadState Unit := do
  let x ← Alloc.load fun s => e.bind fun e => (s.env e).map fun env => (e, env)
  Alloc.change fun s => s.setEnv x.1 (some (f x.2))

/-- Writes through `Epoll_`. -/
def updateEpoll (e : Option Nat) (f : CoEpoll → CoEpoll) : Alloc ThreadState Unit := do
  let x ← Alloc.load fun s => (e.bind s.env).bind CoRountinueEnv.Epoll_
  updateEnv e fun env => { env with Epoll_ := some (f x) }

def updateEntity (co : Nat) (f : ThreadEntity → ThreadEntity) : Alloc ThreadState Unit := do
  let x ← Alloc.load fun s => s.entity co
  Alloc.change fun s => s.setEntity co (f x)

/-- A `Co_ShareStack` gives its stacks in turn; `unsigned` is divided by `int`. -/
def shareStackMember (m : Nat) : Alloc ThreadState StackMember := do
  let x ← Alloc.load fun s => s.share m
  let index ← Alloc.load fun _ => if x.count = 0 then none else some (x.alloc_idx.umod x.count)
  Alloc.change fun s => s.setShare m { x with alloc_idx := x.alloc_idx + 1 }
  pure (x.stack_array index.toNat)

/-- `Free_Co_Rountinue_Env`. -/
def freeCoRountinueEnv : Option Nat → Alloc ThreadState Unit
  | none => pure ()
  | some e => do
      let env ← Alloc.load fun s => s.env e
      -- `delete env->Epoll_->epoll_t`, and the two lists; they may be null
      let _ ← Alloc.load fun _ => env.Epoll_
      Alloc.change fun s => s.setEnv e none

/-- `DeleteThread_CoEnv.reset`. -/
def resetDelete (e : Option Nat) : Alloc ThreadState Unit := do
  let old ← Alloc.load fun s => some s.DeleteThread_CoEnv
  Alloc.change fun s => { s with DeleteThread_CoEnv := e }
  freeCoRountinueEnv old

section Program

variable (memory : Nat → Bool)

/-- `new Co_Stack_Member()` and its buffer. -/
def newStackMember (size : BitVec 32) : Alloc ThreadState StackMember := do
  let _ ← Alloc.new memory
  let buffer ← Alloc.new memory
  pure ⟨none, size, buffer⟩

/-- The stack `CreatAndAlloction` gives to a coroutine: one that is shared, or its own. -/
def chooseStack (attr : CoAttribute) : Alloc ThreadState StackMember :=
  match attr.shareStack with
  | some m => shareStackMember m
  | none => newStackMember memory (alignedStackSize attr.stack_size)

/-- `CreatAndAlloction`.  Nobody sees the entity before all of it is written. -/
def creatAndAlloction (env : Option Nat) (attr : Option CoAttribute) (fn : CoRealFun) :
    Alloc ThreadState Nat := do
  let attr := attr.getD .default
  let co ← Alloc.new memory
  let _ ← Alloc.news memory fn.copy
  let csm ← chooseStack memory attr
  Alloc.change fun s => s.setEntity co
    { ThreadEntity.zero with
      env := env
      Csm := some csm
      ss_sp := some csm.stack_buffer
      ss_size := csm.stack_size
      IsShareStack := attr.shareStack.isSome }
  pure co

/-- `new Co_Epoll()`: the object, `Wheel.resize` and the slots. -/
def newCoEpoll : Alloc ThreadState CoEpoll := do
  let _ ← Alloc.new memory
  let _ ← Alloc.new memory
  let slots ← Alloc.news memory defaultSize
  pure ⟨none, slots, none, none⟩

/-- `init_thisThread_Env`, from `CreatAndAlloction` on. -/
def fillEnv (temp : Option Nat) : Alloc ThreadState Unit := do
  let main ← creatAndAlloction memory temp none .null
  updateEntity main fun x => { x with IsMain := true }
  updateEnv temp fun env => { env with prev_Co := none, using_Co := none }
  -- `co_swap_init`
  updateEntity main fun x => { x with ss_sp := none, ss_size := 0 }
  updateEnv temp fun env => env.push main
  let epoll ← newCoEpoll memory
  updateEnv temp fun env => { env with Epoll_ := some epoll }
  let epoll_t ← Alloc.new memory
  updateEpoll temp fun x => { x with epoll_t := some epoll_t }
  let timeout ← Alloc.new memory
  updateEpoll temp fun x => { x with TimeoutLink := some timeout }
  let active ← Alloc.new memory
  updateEpoll temp fun x => { x with ActiveLink := some active }

def initThisThreadEnv : Alloc ThreadState Unit := do
  resetDelete none
  let e ← Alloc.new memory
  Alloc.change fun s => { s.setEnv e (some .zero) with CurrentThread_CoEnv := some e }
  resetDelete (some e)
  updateEnv (some e) fun env => { env with Co_ESP := 0 }
  fillEnv memory (some e)

/-! ## §3. The calls of a thread. -/

/-- `if(get_thisThread_Env() == nullptr) init_thisThread_Env()`, and the pointer behind it. -/
def ensureEnv : Alloc ThreadState (Option Nat) := do
  let e ← Alloc.load fun s => some s.CurrentThread_CoEnv
  if e = none then
    initThisThreadEnv memory
  Alloc.load fun s => some s.CurrentThread_CoEnv

/-- `Co_Create`; what it stores in `*Co`, if it does.  The function is passed by value. -/
def coCreate (attr : Option CoAttribute) (fn : CoRealFun) : Alloc ThreadState (Option Nat) :=
  Alloc.catching
    (do
      let env ← ensureEnv memory
      let _ ← Alloc.news memory fn.copy
      let co ← creatAndAlloction memory env attr fn
      pure (some co))
    none

def getCurrentCoEpoll : Alloc ThreadState (Option CoEpoll) := do
  let e ← ensureEnv memory
  let env ← Alloc.load fun s => e.bind s.env
  pure env.Epoll_

end Program

/-- `GetCurrCo`. -/
def threadCurrCo (e : Option Nat) : Alloc ThreadState (Option Nat) := do
  let env ← Alloc.load fun s => e.bind s.env
  Alloc.load fun _ => env.slot (env.Co_ESP - 1)

def getCurrentCoEntity : Alloc ThreadState (Option Nat) := do
  let e ← Alloc.load fun s => some s.CurrentThread_CoEnv
  if e = none then pure none else threadCurrCo e

/-- `Co_resume`, up to the switch, which saves the context of `current`. -/
def threadResume (co : Nat) : Alloc ThreadState Unit := do
  let x ← Alloc.load fun s => s.entity co
  let env ← Alloc.load fun s => x.env.bind s.env
  let current ← Alloc.load fun _ => env.slot (env.Co_ESP - 1)
  updateEntity co fun x => { x with ISstart := true }
  let _ ← Alloc.load fun _ => env.slot env.Co_ESP
  updateEnv x.env fun env => env.push co
  let _ ← Alloc.load fun s => current.bind s.entity

/-- `Co_yeild`, up to the switch. -/
def threadYeild : Alloc ThreadState Unit := do
  let e ← Alloc.load fun s => some s.CurrentThread_CoEnv
  let env ← Alloc.load fun s => e.bind s.env
  let pending ← Alloc.load fun _ => env.slot (env.Co_ESP - 2)
  let current ← Alloc.load fun _ => env.slot (env.Co_ESP - 1)
  updateEnv e fun env => { env with Co_ESP := env.Co_ESP - 1 }
  let _ ← Alloc.load fun s => pending.bind s.entity
  let _ ← Alloc.load fun s => current.bind s.entity

inductive ThreadCall where
  | Co_Create (attr : Option CoAttribute) (fn : CoRealFun)
  | GetCurrentCoEpoll
  | GetCurrentCoEntity
  | Co_resume (co : Nat)
  | Co_yeild

/-- A call, without its result. -/
def ThreadCall.run (memory : Nat → Bool) : ThreadCall → Alloc ThreadState Unit
  | .Co_Create attr fn => do
      let _ ← coCreate memory attr fn
  | .GetCurrentCoEpoll => do
      let _ ← getCurrentCoEpoll memory
  | .GetCurrentCoEntity => do
      let _ ← getCurrentCoEntity
  | .Co_resume co => threadResume co
  | .Co_yeild => threadYeild

/-! ## §4. What is asked of the environment. -/

structure CoEpoll.Complete (p : CoEpoll) : Prop where
  epoll_t : p.epoll_t ≠ none
  Wheel : p.Wheel.length = defaultSize
  ActiveLink : p.ActiveLink ≠ none
  TimeoutLink : p.TimeoutLink ≠ none

namespace ThreadState

/-- The main coroutine is at the bottom of a call stack of coroutines, and nothing is missing. -/
structure Complete (s : ThreadState) (env : CoRountinueEnv) : Prop where
  main : ∃ m x, env.Co_CallBack 0 = some m ∧ s.entity m = some x ∧ x.IsMain = true
  esp : 1 ≤ env.Co_ESP ∧ env.Co_ESP ≤ MaximumNumberOfCoroutinesAllowed
  calls : ∀ i < env.Co_ESP, ∃ co x, env.Co_CallBack i = some co ∧ s.entity co = some x
  epoll : ∃ p, env.Epoll_ = some p ∧ p.Complete

/-- **What is asked**: the environment is null or complete. -/
def Consistent (s : ThreadState) : Prop :=
  ∀ e, s.CurrentThread_CoEnv = some e → ∃ env, s.env e = some env ∧ s.Complete env

/-- The rules of the API: a `Co_ShareStack` has stacks, a coroutine that is resumed has been created and
finds a free entry, and the main coroutine does not yield. -/
def Legal (s : ThreadState) : ThreadCall → Prop
  | .Co_Create attr _ =>
      ∀ m, attr.bind CoAttribute.shareStack = some m → ∃ x, s.share m = some x ∧ x.count ≠ 0
  | .Co_resume co => (∃ x, s.entity co = some x) ∧
      ∀ env, s.CurrentThread_CoEnv.bind s.env = some env → env.Co_ESP < MaximumNumberOfCoroutinesAllowed
  | .Co_yeild => ∃ env, s.CurrentThread_CoEnv.bind s.env = some env ∧ 2 ≤ env.Co_ESP
  | .GetCurrentCoEpoll | .GetCurrentCoEntity => True

/-- **What this is for**: no call and not the end of the thread faults, and the `Co_Epoll` and the current
coroutine are there. -/
structure Works (memory : Nat → Bool) (n : Nat) (s : ThreadState) : Prop where
  calls : ∀ a, s.Legal a → ∃ t, Alloc.ends (a.run memory (n, s)) = some t
  epoll : ∀ e, s.CurrentThread_CoEnv = some e →
    ∃ p, getCurrentCoEpoll memory (n, s) = .ok (some p) (n, s) ∧ p.Complete
  current : ∀ e, s.CurrentThread_CoEnv = some e →
    ∃ co x, getCurrentCoEntity (n, s) = .ok (some co) (n, s) ∧ s.entity co = some x
  exit : ∃ t, freeCoRountinueEnv s.DeleteThread_CoEnv (n, s) = .ok () t

/-- The requests of `init_thisThread_Env`: the environment; the main coroutine, its stack and the
buffer; the `Co_Epoll`, the wheel and its slots; the `Epoll` and the two lists. -/
def initRequests : Nat := 1 + 3 + (2 + defaultSize) + 3

/-- A call that makes an environment where there is none. -/
def Enters : ThreadCall → Prop
  | .Co_Create _ _ | .GetCurrentCoEpoll => True
  | _ => False

/-- **When it is**: `init_thisThread_Env` is refused its first request, or none. -/
def Unbroken (memory : Nat → Bool) (s : Nat × ThreadState) (a : ThreadCall) : Prop :=
  Enters a → s.2.CurrentThread_CoEnv = none →
    memory s.1 = false ∨ Alloc.Granted memory s.1 initRequests

def Step (memory : Nat → Bool) (s : Nat × ThreadState) (a : ThreadCall) (t : Nat × ThreadState) :
    Prop :=
  s.2.Legal a ∧ Alloc.ends (a.run memory s) = some t

/-- A thread that has not called anything yet. -/
def start (share : Nat → Option CoShareStack) : Nat × ThreadState :=
  (0, ⟨none, none, fun _ => none, fun _ => none, share⟩)

end ThreadState

/-! ## §5. Writes through pointers. -/

variable {memory : Nat → Bool} {n k : Nat} {s₀ : ThreadState} {E : Nat → ThreadState → Prop}

open Alloc

/-- **What every call keeps**: the two pointers are one, the entities are below the next address, and all
of them belong to the environment. -/
structure ThreadInv (n : Nat) (s : ThreadState) : Prop where
  delete : s.DeleteThread_CoEnv = s.CurrentThread_CoEnv
  fresh : ∀ co, n ≤ co → s.entity co = none
  owned : ∀ co x, s.entity co = some x → ∃ e, s.CurrentThread_CoEnv = some e ∧ x.env = some e

/-- **While the environment is filled**: it is published, and the main coroutine is the only one. -/
structure Filling (e main : Nat) (x : ThreadEntity) (env : CoRountinueEnv)
    (share : Nat → Option CoShareStack) (s : ThreadState) : Prop where
  current : s.CurrentThread_CoEnv = some e
  delete : s.DeleteThread_CoEnv = some e
  env : s.env e = some env
  entity : s.entity = Function.update (fun _ => none) main (some x)
  share : s.share = share

section Writes

variable {e : Nat} {env : CoRountinueEnv}

/-- An assignment to a field of an entity that is there. -/
theorem updateEntity_run {s : ThreadState} {co : Nat} {x : ThreadEntity}
    (f : ThreadEntity → ThreadEntity) (hx : s.entity co = some x) :
    updateEntity co f (n, s) = .ok () (n, s.setEntity co (f x)) :=
  Eq.trans (run_bind (run_load hx)) rfl

/-- An assignment to a field of an environment that is there. -/
theorem updateEnv_run {s : ThreadState} {p : Option Nat} (f : CoRountinueEnv → CoRountinueEnv)
    (hp : p = some e) (henv : s.env e = some env) :
    updateEnv p f (n, s) = .ok () (n, s.setEnv e (some (f env))) := by
  have hload : (p.bind fun e => (s.env e).map fun env => (e, env)) = some (e, env) := by
    simp [hp, henv]
  exact Eq.trans (run_bind (run_load hload)) rfl

theorem updateEnv_spec (f : CoRountinueEnv → CoRountinueEnv) (henv : s₀.env e = some env) :
    Ensures (At memory n k s₀) (updateEnv (some e) f)
      (fun _ => At memory n k (s₀.setEnv e (some (f env)))) E :=
  .of_run (updateEnv_run f rfl henv) fun hgranted => ⟨rfl, hgranted, rfl⟩

theorem updateEntity_spec {co : Nat} {x : ThreadEntity} (f : ThreadEntity → ThreadEntity)
    (hx : s₀.entity co = some x) :
    Ensures (At memory n k s₀) (updateEntity co f)
      (fun _ => At memory n k (s₀.setEntity co (f x))) E :=
  .of_run (updateEntity_run f hx) fun hgranted => ⟨rfl, hgranted, rfl⟩

end Writes

/-- There is nothing to delete. -/
theorem resetDelete_spec (e : Option Nat) (hnull : s₀.DeleteThread_CoEnv = none) :
    Ensures (At memory n k s₀) (resetDelete e)
      (fun _ => At memory n k { s₀ with DeleteThread_CoEnv := e }) E :=
  .bind_load (congrArg some hnull) (.bind_change (.ret fun _ h => h))

section Filling

variable {e main : Nat} {x : ThreadEntity} {env : CoRountinueEnv}
  {share : Nat → Option CoShareStack}

/-- While the environment is filled: a field of it ... -/
theorem Filling.updateEnv (f : CoRountinueEnv → CoRountinueEnv) :
    Ensures (Reached memory n k (Filling e main x env share)) (CoRoutine.updateEnv (some e) f)
      (fun _ => Reached memory n k (Filling e main x (f env) share)) E := by
  refine .each fun s h => (updateEnv_spec f h.env).post ?_
  intro _ m t hpost
  obtain ⟨hm, hgranted, rfl⟩ := hpost
  exact ⟨hm, hgranted, h.current, h.delete, by simp [ThreadState.setEnv], h.entity, h.share⟩

/-- ... a field of its `Co_Epoll` ... -/
theorem Filling.updateEpoll {p : CoEpoll} (f : CoEpoll → CoEpoll) (hp : env.Epoll_ = some p) :
    Ensures (Reached memory n k (Filling e main x env share)) (CoRoutine.updateEpoll (some e) f)
      (fun _ => Reached memory n k
        (Filling e main x { env with Epoll_ := some (f p) } share)) E := by
  refine .each fun s h => ?_
  have hload : ((some e).bind s.env).bind CoRountinueEnv.Epoll_ = some p := by simp [h.env, hp]
  exact .bind_load hload (.at h (Filling.updateEnv _))

/-- ... and a field of the main coroutine. -/
theorem Filling.updateEntity (f : ThreadEntity → ThreadEntity) :
    Ensures (Reached memory n k (Filling e main x env share)) (CoRoutine.updateEntity main f)
      (fun _ => Reached memory n k (Filling e main (f x) env share)) E := by
  refine .each fun s h => ?_
  have hx : s.entity main = some x := by simp [h.entity]
  refine (updateEntity_spec f hx).post ?_
  intro _ m t hpost
  obtain ⟨hm, hgranted, rfl⟩ := hpost
  exact ⟨hm, hgranted, h.current, h.delete, h.env, by simp [ThreadState.setEntity, h.entity],
    h.share⟩

end Filling

/-! ## §6. What is made, and what is left behind. -/

/-- `new Co_Epoll()` makes two requests and one for each slot; the `Epoll` and the two lists come later. -/
theorem newCoEpoll_spec {I : ThreadState → Prop}
    (hE : ∀ m s, n + k < m → ¬ Granted memory (n + k) (2 + defaultSize) → I s → E m s) :
    Ensures (Reached memory n k I) (newCoEpoll memory)
      (fun p => Reached memory n (k + (2 + defaultSize)) fun s =>
        I s ∧ ∃ slots : List Nat, slots.length = defaultSize ∧ p = ⟨none, slots, none, none⟩) E := by
  refine .bind (.new (refused_later hE 0 (by omega) fun _ h => h)) fun _ =>
    .bind (.new (refused_later hE 1 (by omega) fun _ h => h.1)) fun _ =>
    .bind (.news (refused_later hE 2 (by omega) fun _ h => h.1.1)) fun slots => .pure ?_
  intro m s hpost
  obtain ⟨rfl, hgranted, ⟨⟨hI, -⟩, -⟩, hlen⟩ := hpost
  have hcount : k + 1 + 1 + defaultSize = k + (2 + defaultSize) := by omega
  rw [hcount] at hgranted ⊢
  exact ⟨rfl, hgranted, hI, slots, hlen, rfl⟩

/-- A stack of a `Co_ShareStack` is taken without a request. -/
theorem shareStackMember_spec {m : Nat} {x : CoShareStack} (hx : s₀.share m = some x)
    (hcount : x.count ≠ 0) :
    Ensures (At memory n k s₀) (shareStackMember m)
      (fun _ => At memory n k (s₀.setShare m { x with alloc_idx := x.alloc_idx + 1 })) E :=
  .bind_load hx (.bind_load (if_neg hcount) (.bind_change (.ret fun _ h => h)))

/-- A stack of its own takes two requests. -/
theorem newStackMember_spec {I : ThreadState → Prop} (size : BitVec 32)
    (hE : ∀ m s, n + k < m → ¬ Granted memory (n + k) 2 → I s → E m s) :
    Ensures (Reached memory n k I) (newStackMember memory size)
      (fun _ => Reached memory n (k + 2) I) E := by
  refine .bind (.new (refused_later hE 0 (by omega) fun _ h => h)) fun _ =>
    .bind (.new (refused_later hE 1 (by omega) fun _ h => h.1)) fun _ => .pure ?_
  intro m s hpost
  obtain ⟨hm, hgranted, ⟨hI, -⟩, -⟩ := hpost
  exact ⟨hm, hgranted, hI⟩

/-- The requests of `CreatAndAlloction` for a stack. -/
def stackRequests (attr : CoAttribute) : Nat := if attr.shareStack.isSome then 0 else 2

/-- A shared stack takes no memory, and only its turn moves on. -/
theorem chooseStack_spec {attr : CoAttribute}
    (hlegal : ∀ m, attr.shareStack = some m → ∃ x, s₀.share m = some x ∧ x.count ≠ 0)
    (hE : ∀ m, n + k < m → ¬ Granted memory (n + k) (stackRequests attr) → E m s₀) :
    Ensures (At memory n k s₀) (chooseStack memory attr)
      (fun _ => Reached memory n (k + stackRequests attr) fun s =>
        ∃ share, (attr.shareStack = none → share = s₀.share) ∧ s = { s₀ with share := share }) E := by
  unfold chooseStack
  cases hattr : attr.shareStack with
  | none =>
      have hreq : stackRequests attr = 2 := by simp [stackRequests, hattr]
      rw [hreq] at hE ⊢
      refine (newStackMember_spec (I := fun s => s = s₀) _ ?_).post ?_
      · intro m s hm hrefused heq
        subst heq
        exact hE m hm hrefused
      · intro _ m s hpost
        obtain ⟨hm, hgranted, rfl⟩ := hpost
        exact ⟨hm, hgranted, s.share, fun _ => rfl, rfl⟩
  | some m =>
      have hreq : stackRequests attr = 0 := by simp [stackRequests, hattr]
      obtain ⟨x, hx, hcount⟩ := hlegal m hattr
      rw [hreq]
      refine (shareStackMember_spec hx hcount).post ?_
      intro _ i s hpost
      obtain ⟨hi, hgranted, rfl⟩ := hpost
      exact ⟨hi, hgranted, _, by simp, rfl⟩

/-- The requests of `CreatAndAlloction`. -/
def createRequests (attr : Option CoAttribute) (fn : CoRealFun) : Nat :=
  1 + fn.copy + stackRequests (attr.getD .default)

/-- **A new coroutine**: nothing else changes, but the turn of a `Co_ShareStack`. -/
theorem creatAndAlloction_spec {attr : Option CoAttribute} {fn : CoRealFun} (e : Option Nat)
    (hlegal : s₀.Legal (.Co_Create attr fn))
    (hE : ∀ m, n + k < m → ¬ Granted memory (n + k) (createRequests attr fn) → E m s₀) :
    Ensures (At memory n k s₀) (creatAndAlloction memory e attr fn)
      (fun co => Reached memory n (k + createRequests attr fn) fun s => co = n + k ∧
        ∃ (x : ThreadEntity) (share : Nat → Option CoShareStack), x.env = e ∧
          (attr.bind CoAttribute.shareStack = none → share = s₀.share) ∧
          s = { s₀.setEntity co x with share := share }) E := by
  have hshare : (attr.getD .default).shareStack = attr.bind CoAttribute.shareStack := by
    cases attr <;> rfl
  have hlegal' : ∀ m, (attr.getD .default).shareStack = some m →
      ∃ x, s₀.share m = some x ∧ x.count ≠ 0 := by
    rw [hshare]
    exact hlegal
  refine .bind (.new ?_) fun co => .bind (.news ?_) fun _ => .each ?_
  -- the entity is refused
  · intro m s hm hrefused heq
    subst heq
    refine hE m hm fun hall => hrefused (hall.of_le (k := 0) ?_)
    unfold createRequests
    omega
  -- the copy of the function is refused
  · intro m s hm hrefused hpost
    obtain ⟨rfl, -⟩ := hpost
    refine hE m (by omega) fun hall => hrefused (hall.of_le (k := 1) ?_)
    unfold createRequests
    omega
  · intro s hpost
    obtain ⟨⟨rfl, rfl⟩, -⟩ := hpost
    refine .bind (chooseStack_spec hlegal' ?_) fun csm => ?_
    -- the stack is refused
    · intro m hm hrefused
      refine hE m (by omega) fun hall => hrefused ?_
      have hat : n + (k + 1 + fn.copy) = n + k + (1 + fn.copy) := by omega
      rw [hat]
      exact hall.of_le (Nat.le_refl _)
    · have hcount : k + 1 + fn.copy + stackRequests (attr.getD .default) =
          k + createRequests attr fn := by
        unfold createRequests
        omega
      rw [hcount]
      refine .each fun t hpost => ?_
      obtain ⟨share, hsame, rfl⟩ := hpost
      refine .bind_change (.ret fun t heq => ?_)
      subst heq
      exact ⟨rfl, _, share, rfl, fun hnone => hsame (hshare.trans hnone), rfl⟩

/-- What a refusal leaves behind while the environment is filled. -/
def LeftBroken (memory : Nat → Bool) (n m : Nat) (s : ThreadState) : Prop :=
  ThreadInv m s ∧ ¬ Granted memory n ThreadState.initRequests ∧ ¬ s.Consistent

/-- An environment without a complete `Co_Epoll` is not complete. -/
theorem ThreadState.not_consistent {s : ThreadState} {e : Nat} {env : CoRountinueEnv}
    (hcurrent : s.CurrentThread_CoEnv = some e) (henv : s.env e = some env)
    (hepoll : ∀ p, env.Epoll_ = some p → ¬ p.Complete) : ¬ s.Consistent := by
  intro hcons
  obtain ⟨env', henv', hcomplete⟩ := hcons e hcurrent
  rw [henv] at henv'
  cases henv'
  obtain ⟨p, hp, hall⟩ := hcomplete.epoll
  exact hepoll p hp hall

section Fill

variable {e main : Nat} {x : ThreadEntity} {env : CoRountinueEnv}
  {share : Nat → Option CoShareStack} {s : ThreadState} {m : Nat}

/-- What is being filled keeps the invariant of the thread. -/
theorem Filling.inv (h : Filling e main x env share s) (hx : x.env = some e) (hm : main < m) :
    ThreadInv m s := by
  refine ⟨by rw [h.current, h.delete], ?_, ?_⟩
  · intro co hco
    have hne : co ≠ main := by omega
    simp [h.entity, hne]
  · intro co y hy
    rw [h.entity] at hy
    by_cases hco : co = main
    · rw [hco, Function.update_self] at hy
      cases hy
      exact ⟨e, h.current, hx⟩
    · rw [Function.update_of_ne hco] at hy
      contradiction

/-- **With nothing missing** it is complete. -/
theorem Filling.consistent {p : CoEpoll} (h : Filling e main x env share s) (hx : x.IsMain = true)
    (hmain : env.Co_CallBack 0 = some main) (hesp : env.Co_ESP = 1) (hp : env.Epoll_ = some p)
    (hcomplete : p.Complete) : s.Consistent := by
  have hentity : s.entity main = some x := by simp [h.entity]
  intro e' he'
  rw [h.current] at he'
  cases he'
  have hbounds : 1 ≤ env.Co_ESP ∧ env.Co_ESP ≤ MaximumNumberOfCoroutinesAllowed := by
    rw [hesp]
    decide
  refine ⟨env, h.env, ⟨main, x, hmain, hentity, hx⟩, hbounds, ?_, p, hp, hcomplete⟩
  intro i hi
  have hzero : i = 0 := by omega
  rw [hzero]
  exact ⟨main, x, hmain, hentity⟩

/-- **A refusal on the way** leaves an environment that is not complete. -/
theorem Filling.left {c : Nat} (h : Filling e (n + 1) x env share s) (hx : x.env = some e)
    (hepoll : ∀ p, env.Epoll_ = some p → ¬ p.Complete) (hm : n + 1 < m)
    (hrefused : ¬ Granted memory (n + k) c) (hk : k + c ≤ ThreadState.initRequests) :
    LeftBroken memory n m s :=
  ⟨h.inv hx hm, fun hall => hrefused (hall.of_le hk),
    ThreadState.not_consistent h.current h.env hepoll⟩

/-- A request that is refused while the environment is filled leaves a broken one. -/
theorem Filling.new (hx : x.env = some e) (hepoll : ∀ p, env.Epoll_ = some p → ¬ p.Complete)
    (hpos : 1 ≤ k) (hk : k + 1 ≤ ThreadState.initRequests) :
    Ensures (Reached memory n k (Filling e (n + 1) x env share)) (Alloc.new memory)
      (fun _ => Reached memory n (k + 1) (Filling e (n + 1) x env share)) (LeftBroken memory n) := by
  refine (Ensures.new ?_).post ?_
  · intro m s hm hrefused h
    exact h.left hx hepoll (by omega) hrefused hk
  · intro _ m s hpost
    obtain ⟨hm, hgranted, h, -⟩ := hpost
    exact ⟨hm, hgranted, h⟩

end Fill

/-- **`init_thisThread_Env` behind its first request** completes the environment, or is refused and leaves a
broken one. -/
theorem fillEnv_spec {e : Nat} (hcurrent : s₀.CurrentThread_CoEnv = some e)
    (hdelete : s₀.DeleteThread_CoEnv = some e) (henv : s₀.env e = some .zero)
    (hentity : s₀.entity = fun _ => none) :
    Ensures (At memory n 1 s₀) (fillEnv memory (some e))
      (fun _ => Reached memory n ThreadState.initRequests fun s => s.CurrentThread_CoEnv = some e ∧
        ThreadInv (n + ThreadState.initRequests) s ∧ s.Consistent ∧ s.share = s₀.share)
      (LeftBroken memory n) := by
  have hlegal : s₀.Legal (.Co_Create none .null) := by
    intro m hm
    simp at hm
  refine .bind (creatAndAlloction_spec (some e) hlegal ?_) fun main => .each ?_
  · intro m hm hrefused
    refine ⟨⟨by rw [hcurrent, hdelete], by simp [hentity], by simp [hentity]⟩, ?_, ?_⟩
    · intro hall
      exact hrefused (hall.of_le (by decide))
    · exact ThreadState.not_consistent hcurrent henv (by simp [CoRountinueEnv.zero])
  · intro s hpost
    obtain ⟨rfl, x, share, hx, hshare, rfl⟩ := hpost
    -- the main coroutine gets the address behind that of the environment
    have hfill : Filling e (n + 1) x .zero s₀.share
        { s₀.setEntity (n + 1) x with share := share } :=
      ⟨hcurrent, hdelete, henv, by simp [ThreadState.setEntity, hentity], hshare rfl⟩
    refine .at hfill ?_
    refine .bind (Filling.updateEntity _) fun _ => .bind (Filling.updateEnv _) fun _ =>
      .bind (Filling.updateEntity _) fun _ => .bind (Filling.updateEnv _) fun _ =>
      .bind (newCoEpoll_spec ?_) fun epoll => .each ?_
    · intro m s hm hrefused h
      exact h.left hx (by simp [CoRountinueEnv.zero, CoRountinueEnv.push]) (by omega) hrefused
        (by decide)
    · intro s hpost
      obtain ⟨hs, slots, hlen, rfl⟩ := hpost
      refine .at hs ?_
      refine .bind (Filling.updateEnv _) fun _ =>
        .bind (Filling.new hx ?_ (by decide) (by decide)) fun a =>
        .bind (Filling.updateEpoll _ rfl) fun _ =>
        .bind (Filling.new hx ?_ (by decide) (by decide)) fun b =>
        .bind (Filling.updateEpoll _ rfl) fun _ =>
        .bind (Filling.new hx ?_ (by decide) (by decide)) fun c =>
        (Filling.updateEpoll _ rfl).post ?_
      -- refused in turn: the `Epoll` and the two lists
      · intro p hp hall
        cases hp
        exact hall.epoll_t rfl
      · intro p hp hall
        cases hp
        exact hall.TimeoutLink rfl
      · intro p hp hall
        cases hp
        exact hall.ActiveLink rfl
      · intro _ m s hpost
        obtain ⟨hm, hgranted, h⟩ := hpost
        refine ⟨hm, hgranted, h.current, h.inv hx ?_, ?_, h.share⟩
        · unfold ThreadState.initRequests
          omega
        · exact h.consistent rfl (by simp [CoRountinueEnv.push, CoRountinueEnv.zero]) rfl rfl
            ⟨Option.some_ne_none _, hlen, Option.some_ne_none _, Option.some_ne_none _⟩

/-- Addresses that were not given out then may have been since. -/
theorem ThreadInv.mono {m : Nat} {s : ThreadState} (h : ThreadInv n s) (hm : n ≤ m) :
    ThreadInv m s :=
  ⟨h.delete, fun co hco => h.fresh co (Nat.le_trans hm hco), h.owned⟩

/-- **`init_thisThread_Env`** makes a complete environment when all of its requests are met, and leaves
none when the first is refused.  When another one is, it leaves an environment that is not complete. -/
theorem initThisThreadEnv_spec (hinv : ThreadInv n s₀) (hnull : s₀.CurrentThread_CoEnv = none) :
    Ensures (At memory n 0 s₀) (initThisThreadEnv memory)
      (fun _ => Reached memory n ThreadState.initRequests fun s => s.CurrentThread_CoEnv ≠ none ∧
        ThreadInv (n + ThreadState.initRequests) s ∧ s.Consistent ∧ s.share = s₀.share)
      (fun m s => ThreadInv m s ∧
        (memory n = false ∨ Granted memory n ThreadState.initRequests ↔ s.Consistent)) := by
  have hdelete : s₀.DeleteThread_CoEnv = none := by rw [hinv.delete, hnull]
  have hsame : { s₀ with DeleteThread_CoEnv := none } = s₀ := by rw [← hdelete]
  -- an entity has an environment, so there is none yet
  have hentity : s₀.entity = fun _ => none := by
    funext co
    cases hco : s₀.entity co with
    | none => rfl
    | some x =>
        obtain ⟨e, he, -⟩ := hinv.owned co x hco
        rw [hnull] at he
        contradiction
  refine .bind (resetDelete_spec none hdelete) fun _ => ?_
  rw [hsame]
  refine .bind (.new ?_) fun e => .each ?_
  · intro m s hm hrefused heq
    subst heq
    -- the first request of all is refused: nothing has been done
    have hfirst : memory n = false := by
      by_contra hmem
      refine hrefused fun j hj => ?_
      have hj0 : j = 0 := by omega
      rw [hj0]
      simpa using hmem
    refine ⟨hinv.mono (by omega), iff_of_true (Or.inl hfirst) ?_⟩
    intro e he
    rw [hnull] at he
    contradiction
  · -- the number of the request is the address of the environment
    intro s hpost
    obtain ⟨rfl, rfl⟩ := hpost
    refine .granted fun hone => ?_
    have hfirst : memory e = true := hone 0 (by omega)
    have hput : (s.setEnv e (some .zero)).env e = some .zero := by simp [ThreadState.setEnv]
    refine .bind_change (.bind (resetDelete_spec _ hdelete) fun _ =>
      .bind (updateEnv_spec _ hput) fun _ => .each fun t ht => ?_)
    have hcurrent : t.CurrentThread_CoEnv = some e := by rw [ht]; rfl
    have hdelete' : t.DeleteThread_CoEnv = some e := by rw [ht]; rfl
    have hzero : t.env e = some .zero := by simp [ht, ThreadState.setEnv, CoRountinueEnv.zero]
    have hnone : t.entity = fun _ => none := by rw [ht]; exact hentity
    have hshare : t.share = s.share := by rw [ht]; rfl
    refine (fillEnv_spec hcurrent hdelete' hzero hnone).mono (fun _ _ h => h) ?_ ?_
    -- all requests are granted
    · intro _ m u hpost
      obtain ⟨hm, hgranted, hcurrent, hinv', hcons, hsame⟩ := hpost
      exact ⟨hm, hgranted, by simp [hcurrent], hinv', hcons, hsame.trans hshare⟩
    -- one behind the first is refused: a half-made environment stays behind
    · intro m t hleft
      obtain ⟨hinv', hrefused, hbroken⟩ := hleft
      refine ⟨hinv', iff_of_false ?_ hbroken⟩
      intro hor
      rcases hor with hno | hall
      · rw [hfirst] at hno
        contradiction
      · exact hrefused hall

/-! ## §7. The calls. -/

/-- **A complete environment stays complete** while no coroutine goes away. -/
theorem ThreadState.Complete.keep {s t : ThreadState} {env : CoRountinueEnv} (h : s.Complete env)
    (hentity : ∀ co x, s.entity co = some x → ∃ y, t.entity co = some y ∧ y.IsMain = x.IsMain) :
    t.Complete env := by
  obtain ⟨⟨m, x, hm, hx, hmain⟩, hesp, hcalls, hepoll⟩ := h
  refine ⟨?_, hesp, ?_, hepoll⟩
  · obtain ⟨y, hy, hsame⟩ := hentity m x hx
    exact ⟨m, y, hm, hy, hsame.trans hmain⟩
  · intro i hi
    obtain ⟨co, x, hco, hx⟩ := hcalls i hi
    obtain ⟨y, hy, -⟩ := hentity co x hx
    exact ⟨co, y, hco, hy⟩

section Created

variable {s : ThreadState} {e m : Nat} {x : ThreadEntity} {share : Nat → Option CoShareStack}

/-- A new entity belongs to the environment ... -/
theorem ThreadInv.created (hinv : ThreadInv n s) (hcurrent : s.CurrentThread_CoEnv = some e)
    (hx : x.env = some e) (hm : n < m) :
    ThreadInv m { s.setEntity n x with share := share } := by
  refine ⟨hinv.delete, ?_, ?_⟩
  · intro co hco
    have hne : co ≠ n := by omega
    simp [ThreadState.setEntity, hne, hinv.fresh co (by omega)]
  · intro co y hy
    by_cases hco : co = n
    · subst hco
      simp only [ThreadState.setEntity, Function.update_self] at hy
      cases hy
      exact ⟨e, hcurrent, hx⟩
    · simp only [ThreadState.setEntity, Function.update_of_ne hco] at hy
      exact hinv.owned co y hy

/-- ... and does not disturb what was consistent. -/
theorem ThreadState.Consistent.created (hcons : s.Consistent) (hfresh : s.entity n = none) :
    ({ s.setEntity n x with share := share } : ThreadState).Consistent := by
  intro e he
  obtain ⟨env, henv, hcomplete⟩ := hcons e he
  refine ⟨env, henv, hcomplete.keep ?_⟩
  intro co y hy
  have hne : co ≠ n := by
    intro heq
    subst heq
    rw [hfresh] at hy
    contradiction
  exact ⟨y, by simp [ThreadState.setEntity, hne, hy], rfl⟩

end Created

/-- The requests behind which a thread has an environment. -/
def ensureRequests (s : ThreadState) : Nat :=
  if s.CurrentThread_CoEnv = none then ThreadState.initRequests else 0

/-- **What is asked of a call that makes an environment where there is none.** -/
def Entered (memory : Nat → Bool) (n : Nat) (s : ThreadState) (m : Nat) (t : ThreadState) : Prop :=
  ThreadInv m t ∧ ((s.CurrentThread_CoEnv = none →
    memory n = false ∨ Granted memory n ThreadState.initRequests) ↔ t.Consistent)

/-- Behind requests that were met nothing can be wrong any more. -/
theorem Entered.of_granted {s t : ThreadState} {m : Nat} (hgranted : Granted memory n (ensureRequests s))
    (hinv : ThreadInv m t) (hcons : t.Consistent) : Entered memory n s m t := by
  refine ⟨hinv, iff_of_true ?_ hcons⟩
  intro hnull
  rw [ensureRequests, if_pos hnull] at hgranted
  exact Or.inr hgranted

/-- **Every entry point** makes the environment when there is none. -/
theorem ensureEnv_spec (hinv : ThreadInv n s₀) (hcons : s₀.Consistent) :
    Ensures (At memory n 0 s₀) (ensureEnv memory)
      (fun e => Reached memory n (ensureRequests s₀) fun s => e = s.CurrentThread_CoEnv ∧ e ≠ none ∧
        ThreadInv (n + ensureRequests s₀) s ∧ s.Consistent ∧ s.share = s₀.share)
      (Entered memory n s₀) := by
  by_cases hnull : s₀.CurrentThread_CoEnv = none
  · have hreq : ensureRequests s₀ = ThreadState.initRequests := if_pos hnull
    refine .bind_load rfl ?_
    rw [if_pos hnull, hreq]
    refine .bind ((initThisThreadEnv_spec hinv hnull).error ?_) fun _ => .each ?_
    · intro m t hleft
      obtain ⟨hinv', hiff⟩ := hleft
      exact ⟨hinv', ⟨fun h => hiff.mp (h hnull), fun h _ => hiff.mpr h⟩⟩
    · intro t hpost
      obtain ⟨hcurrent, hinv', hcons', hshare⟩ := hpost
      exact .load_at rfl ⟨rfl, hcurrent, hinv', hcons', hshare⟩
  · have hreq : ensureRequests s₀ = 0 := if_neg hnull
    refine .bind_load rfl ?_
    rw [if_neg hnull, hreq]
    exact Ensures.load_at rfl ⟨rfl, hnull, hinv, hcons, rfl⟩

/-- A refusal behind `ensureEnv` does no harm. -/
theorem Entered.refused {s t : ThreadState} {m : Nat} (hgranted : Granted memory n (ensureRequests s))
    (hinv : ThreadInv (n + ensureRequests s) t) (hcons : t.Consistent)
    (hm : n + ensureRequests s ≤ m) : Entered memory n s m t :=
  .of_granted hgranted (hinv.mono hm) hcons

/-- **`Co_Create`** catches every refusal; only one in the making of the environment leaves it broken. -/
theorem coCreate_spec {attr : Option CoAttribute} {fn : CoRealFun} (hinv : ThreadInv n s₀)
    (hcons : s₀.Consistent) (hlegal : s₀.Legal (.Co_Create attr fn)) :
    Ensures (At memory n 0 s₀) (coCreate memory attr fn)
      (fun _ => Entered memory n s₀) E := by
  refine .catching (.bind (ensureEnv_spec hinv hcons) fun e => .granted fun hgranted => .each ?_)
  intro s hpost
  obtain ⟨rfl, hne, hinv', hcons', hshare⟩ := hpost
  obtain ⟨e, he⟩ := Option.ne_none_iff_exists'.mp hne
  have hlegal' : s.Legal (.Co_Create attr fn) := by
    intro m hm
    rw [hshare]
    exact hlegal m hm
  refine .bind (.news ?_) fun _ => .each ?_
  · intro m t hm _ heq
    subst heq
    exact .refused hgranted hinv' hcons' (by omega)
  · intro t hpost
    obtain ⟨rfl, -⟩ := hpost
    refine .bind (creatAndAlloction_spec _ hlegal' ?_) fun co => .pure ?_
    · intro m hm _
      exact .refused hgranted hinv' hcons' (by omega)
    · intro m u hpost
      obtain ⟨hm, -, rfl, x, share, hx, -, rfl⟩ := hpost
      have hpos : n + (ensureRequests s₀ + fn.copy) < m := by
        rw [hm]
        unfold createRequests
        omega
      have hbefore := hinv'.mono (m := n + (ensureRequests s₀ + fn.copy)) (by omega)
      refine .of_granted hgranted (hbefore.created he (hx.trans he) hpos) ?_
      exact hcons'.created (hbefore.fresh _ (Nat.le_refl _))

/-- `GetCurrentCoEpoll` makes the environment when there is none. -/
theorem getCurrentCoEpoll_spec (hinv : ThreadInv n s₀) (hcons : s₀.Consistent) :
    Ensures (At memory n 0 s₀) (getCurrentCoEpoll memory)
      (fun _ => Entered memory n s₀) (Entered memory n s₀) := by
  refine .bind (ensureEnv_spec hinv hcons) fun e => .granted fun hgranted => .each ?_
  intro s hpost
  obtain ⟨rfl, hne, hinv', hcons', -⟩ := hpost
  obtain ⟨e, he⟩ := Option.ne_none_iff_exists'.mp hne
  obtain ⟨env, henv, -⟩ := hcons' e he
  have hload : s.CurrentThread_CoEnv.bind s.env = some env := by
    rw [he]
    exact henv
  refine .bind_load hload (.pure ?_)
  intro m t hpost
  obtain ⟨hm, -, rfl⟩ := hpost
  exact .refused hgranted hinv' hcons' (by omega)

/-! ## §8. Calls on a complete environment. -/

/-- An index below 256 is inside `Co_CallBack`. -/
theorem CoRountinueEnv.slot_of_lt (env : CoRountinueEnv) {i : Nat}
    (hi : i < MaximumNumberOfCoroutinesAllowed) : env.slot i = some (env.Co_CallBack i) := by
  unfold CoRountinueEnv.slot
  rw [if_pos ⟨Int.natCast_nonneg i, Int.ofNat_lt.mpr hi⟩, Int.toNat_natCast]

/-- No coroutine goes away when the fields of one are written. -/
theorem entity_setEntity {s : ThreadState} {co c : Nat} {x x' y : ThreadEntity}
    (hx : s.entity co = some x) (hmain : x'.IsMain = x.IsMain) (hy : s.entity c = some y) :
    ∃ z, (s.setEntity co x').entity c = some z ∧ z.IsMain = y.IsMain := by
  by_cases hc : c = co
  · subst hc
    rw [hx] at hy
    cases hy
    exact ⟨x', by simp [ThreadState.setEntity], hmain⟩
  · exact ⟨y, by simp [ThreadState.setEntity, hc, hy], rfl⟩

section Complete

variable {s : ThreadState} {e : Nat} {env : CoRountinueEnv}

/-- The entry `i` below the top is a coroutine. -/
theorem ThreadState.Complete.slot (h : s.Complete env) {i : Nat} (hi : i < env.Co_ESP) :
    ∃ co x, env.slot ((env.Co_ESP : Int) - (i + 1 : Nat)) = some (some co) ∧
      s.entity co = some x := by
  obtain ⟨co, x, hco, hx⟩ := h.calls (env.Co_ESP - (i + 1)) (by omega)
  have hat : (env.Co_ESP : Int) - (i + 1 : Nat) = ((env.Co_ESP - (i + 1) : Nat) : Int) := by omega
  have hlt : env.Co_ESP - (i + 1) < MaximumNumberOfCoroutinesAllowed := by
    have := h.esp.2
    omega
  exact ⟨co, x, by rw [hat, env.slot_of_lt hlt, hco], hx⟩

/-- Without an environment there is no current coroutine; ... -/
theorem getCurrentCoEntity_null (hnull : s.CurrentThread_CoEnv = none) :
    getCurrentCoEntity (n, s) = .ok none (n, s) :=
  Eq.trans (run_bind (run_load (congrArg some hnull))) rfl

/-- ... with a complete one there is. -/
theorem getCurrentCoEntity_run (hcurrent : s.CurrentThread_CoEnv = some e) (henv : s.env e = some env)
    (h : s.Complete env) : ∃ co x, getCurrentCoEntity (n, s) = .ok (some co) (n, s) ∧
      s.entity co = some x := by
  obtain ⟨co, x, hco, hx⟩ := h.slot (i := 0) h.esp.1
  refine ⟨co, x, ?_, hx⟩
  refine Eq.trans (run_bind (run_load (congrArg some hcurrent))) ?_
  refine Eq.trans (run_bind (run_load henv)) ?_
  exact run_load hco

theorem getCurrentCoEpoll_run (hcurrent : s.CurrentThread_CoEnv = some e)
    (henv : s.env e = some env) :
    getCurrentCoEpoll memory (n, s) = .ok env.Epoll_ (n, s) := by
  have hensure : ensureEnv memory (n, s) = .ok (some e) (n, s) := by
    refine Eq.trans (run_bind (run_load (congrArg some hcurrent))) ?_
    rw [if_neg (Option.some_ne_none e)]
    exact run_load (congrArg some hcurrent)
  refine Eq.trans (run_bind hensure) ?_
  exact Eq.trans (run_bind (run_load henv)) rfl

/-- The deleter, on an environment whose `Co_Epoll` is there. -/
theorem freeCoRountinueEnv_run {p : CoEpoll} (henv : s.env e = some env) (hp : env.Epoll_ = some p) :
    freeCoRountinueEnv (some e) (n, s) = .ok () (n, s.setEnv e none) := by
  refine Eq.trans (run_bind (run_load henv)) ?_
  exact Eq.trans (run_bind (run_load hp)) rfl

/-- **A coroutine is resumed**: it is on top of the call stack. -/
theorem threadResume_run {co : Nat} {x : ThreadEntity} (henv : s.env e = some env)
    (h : s.Complete env) (hx : s.entity co = some x) (he : x.env = some e)
    (hroom : env.Co_ESP < MaximumNumberOfCoroutinesAllowed) :
    threadResume co (n, s) =
      .ok () (n, (s.setEntity co { x with ISstart := true }).setEnv e (some (env.push co))) := by
  obtain ⟨current, y, hslot, hy⟩ := h.slot (i := 0) h.esp.1
  have hthere : x.env.bind s.env = some env := by
    rw [he]
    exact henv
  refine Eq.trans (run_bind (run_load hx)) ?_
  refine Eq.trans (run_bind (run_load hthere)) ?_
  refine Eq.trans (run_bind (run_load hslot)) ?_
  refine Eq.trans (run_bind (updateEntity_run _ hx)) ?_
  refine Eq.trans (run_bind (run_load (env.slot_of_lt hroom))) ?_
  refine Eq.trans (run_bind (updateEnv_run _ he henv)) ?_
  obtain ⟨z, hz, -⟩ : ∃ z, (s.setEntity co { x with ISstart := true }).entity current = some z ∧
    z.IsMain = y.IsMain := entity_setEntity hx rfl hy
  exact Eq.trans (run_bind (run_load hz)) rfl

/-- **The running coroutine yields**: it leaves the call stack. -/
theorem threadYeild_run (hcurrent : s.CurrentThread_CoEnv = some e) (henv : s.env e = some env)
    (h : s.Complete env) (htwo : 2 ≤ env.Co_ESP) :
    threadYeild (n, s) =
      .ok () (n, s.setEnv e (some { env with Co_ESP := env.Co_ESP - 1 })) := by
  obtain ⟨current, y, hslot, hy⟩ := h.slot (i := 0) h.esp.1
  obtain ⟨pending, z, hslot', hz⟩ := h.slot (i := 1) htwo
  refine Eq.trans (run_bind (run_load (congrArg some hcurrent))) ?_
  refine Eq.trans (run_bind (run_load henv)) ?_
  refine Eq.trans (run_bind (run_load hslot')) ?_
  refine Eq.trans (run_bind (run_load hslot)) ?_
  refine Eq.trans (run_bind (updateEnv_run _ rfl henv)) ?_
  refine Eq.trans (run_bind (run_load hz)) ?_
  exact Eq.trans (run_bind (run_load hy)) rfl

end Complete

/-- A coroutine is pushed while there is room ... -/
theorem ThreadState.Complete.push {s : ThreadState} {env : CoRountinueEnv} {co : Nat}
    {x : ThreadEntity} (h : s.Complete env) (hx : s.entity co = some x)
    (hroom : env.Co_ESP < MaximumNumberOfCoroutinesAllowed) : s.Complete (env.push co) := by
  obtain ⟨⟨m, y, hm, hy, hmain⟩, hesp, hcalls, hepoll⟩ := h
  have hzero : 0 ≠ env.Co_ESP := by omega
  refine ⟨⟨m, y, ?_, hy, hmain⟩, ?_, ?_, hepoll⟩
  · simpa [CoRountinueEnv.push, hzero] using hm
  · simp only [CoRountinueEnv.push]
    omega
  · intro i hi
    by_cases htop : i = env.Co_ESP
    · exact ⟨co, x, by simp [CoRountinueEnv.push, htop], hx⟩
    · have hlt : i < env.Co_ESP := by
        simp only [CoRountinueEnv.push] at hi
        omega
      obtain ⟨c, z, hc, hz⟩ := hcalls i hlt
      exact ⟨c, z, by simpa [CoRountinueEnv.push, htop] using hc, hz⟩

/-- ... and popped while the main one is not the last. -/
theorem ThreadState.Complete.pop {s : ThreadState} {env : CoRountinueEnv} (h : s.Complete env)
    (htwo : 2 ≤ env.Co_ESP) : s.Complete { env with Co_ESP := env.Co_ESP - 1 } := by
  obtain ⟨hmain, hesp, hcalls, hepoll⟩ := h
  refine ⟨hmain, ?_, fun i hi => hcalls i ?_, hepoll⟩
  · show 1 ≤ env.Co_ESP - 1 ∧ env.Co_ESP - 1 ≤ MaximumNumberOfCoroutinesAllowed
    omega
  · have hlt : i < env.Co_ESP - 1 := hi
    omega

/-- The environment is written. -/
theorem ThreadState.Complete.consistent {s : ThreadState} {e : Nat} {env : CoRountinueEnv}
    (hcurrent : s.CurrentThread_CoEnv = some e) (h : s.Complete env) :
    (s.setEnv e (some env)).Consistent := by
  intro e' he'
  have heq : e' = e := Option.some.inj (he'.symm.trans hcurrent)
  refine ⟨env, by simp [ThreadState.setEnv, heq], h.keep fun co x hx => ⟨x, hx, rfl⟩⟩

theorem ThreadInv.setEntity {s : ThreadState} {co : Nat} {x x' : ThreadEntity} (h : ThreadInv n s)
    (hx : s.entity co = some x) (hx' : x'.env = x.env) : ThreadInv n (s.setEntity co x') := by
  refine ⟨h.delete, ?_, ?_⟩
  · intro c hc
    have hne : c ≠ co := by
      intro heq
      subst heq
      rw [h.fresh c hc] at hx
      contradiction
    simp [ThreadState.setEntity, hne, h.fresh c hc]
  · intro c y hy
    by_cases hco : c = co
    · subst hco
      simp only [ThreadState.setEntity, Function.update_self] at hy
      cases hy
      rw [hx']
      exact h.owned c x hx
    · simp only [ThreadState.setEntity, Function.update_of_ne hco] at hy
      exact h.owned c y hy

theorem ThreadInv.setEnv {s : ThreadState} (h : ThreadInv n s) (e : Nat)
    (env : Option CoRountinueEnv) : ThreadInv n (s.setEnv e env) :=
  ⟨h.delete, h.fresh, h.owned⟩

/-! ## §9. Runs. -/

open ThreadState

/-- Behind a call on a consistent state. -/
def Met (memory : Nat → Bool) (n : Nat) (s : ThreadState) (a : ThreadCall) (m : Nat)
    (t : ThreadState) : Prop :=
  ThreadInv m t ∧ (Unbroken memory (n, s) a ↔ t.Consistent)

/-- A call that makes an environment has met what is asked of it. -/
theorem Entered.met {s t : ThreadState} {a : ThreadCall} {m : Nat} (ha : Enters a)
    (h : Entered memory n s m t) : Met memory n s a m t := by
  refine ⟨h.1, ?_⟩
  unfold Unbroken
  rw [← h.2]
  exact ⟨fun hall => hall ha, fun hall _ => hall⟩

/-- A call that does not enter. -/
theorem Met.of_consistent {s t : ThreadState} {a : ThreadCall} {m : Nat} (ha : ¬ Enters a)
    (hinv : ThreadInv m t) (hcons : t.Consistent) : Met memory n s a m t :=
  ⟨hinv, iff_of_true (fun hall => absurd hall ha) hcons⟩

/-- **One call.** -/
theorem ThreadCall.spec {a : ThreadCall} (hinv : ThreadInv n s₀) (hcons : s₀.Consistent)
    (hlegal : s₀.Legal a) :
    Ensures (At memory n 0 s₀) (a.run memory) (fun _ => Met memory n s₀ a)
      (Met memory n s₀ a) := by
  cases a with
  | Co_Create attr fn =>
      exact .bind (coCreate_spec hinv hcons hlegal) fun _ => .pure fun _ _ h => h.met trivial
  | GetCurrentCoEpoll =>
      refine .bind ((getCurrentCoEpoll_spec hinv hcons).error fun _ _ h => h.met trivial)
        fun _ => .pure fun _ _ h => h.met trivial
  | GetCurrentCoEntity =>
      have hmet : Met memory n s₀ .GetCurrentCoEntity n s₀ := .of_consistent id hinv hcons
      -- without an environment there is no coroutine to return
      cases hcurrent : s₀.CurrentThread_CoEnv with
      | none =>
          exact .of_run (Eq.trans (run_bind (getCurrentCoEntity_null hcurrent)) rfl) fun _ => hmet
      | some e =>
          obtain ⟨env, henv, hcomplete⟩ := hcons e hcurrent
          obtain ⟨co, x, hrun, -⟩ := getCurrentCoEntity_run (n := n + 0) hcurrent henv hcomplete
          exact .of_run (Eq.trans (run_bind hrun) rfl) fun _ => hmet
  | Co_resume co =>
      obtain ⟨⟨x, hx⟩, hroom⟩ := hlegal
      obtain ⟨e, hcurrent, he⟩ := hinv.owned co x hx
      obtain ⟨env, henv, hcomplete⟩ := hcons e hcurrent
      have hthere : s₀.CurrentThread_CoEnv.bind s₀.env = some env := by
        rw [hcurrent]
        exact henv
      have hfree := hroom env hthere
      refine .of_run (threadResume_run henv hcomplete hx he hfree) fun _ => .of_consistent id ?_ ?_
      · exact ThreadInv.setEnv (hinv.setEntity hx (by rfl)) _ _
      · have hstarted : (s₀.setEntity co { x with ISstart := true }).entity co =
            some { x with ISstart := true } := by simp [ThreadState.setEntity]
        have hkeep := hcomplete.keep (t := s₀.setEntity co { x with ISstart := true })
          fun c y hy => entity_setEntity hx rfl hy
        exact (hkeep.push hstarted hfree).consistent hcurrent
  | Co_yeild =>
      obtain ⟨env, henv, htwo⟩ := hlegal
      obtain ⟨e, hcurrent, hput⟩ := Option.bind_eq_some_iff.mp henv
      obtain ⟨env', henv', hcomplete⟩ := hcons e hcurrent
      rw [hput] at henv'
      cases henv'
      refine .of_run (threadYeild_run hcurrent hput hcomplete htwo) fun _ => .of_consistent id ?_ ?_
      · exact hinv.setEnv _ _
      · exact (hcomplete.pop htwo).consistent hcurrent

theorem ThreadInv.start (share : Nat → Option CoShareStack) :
    ThreadInv (start share).1 (start share).2 :=
  ⟨rfl, fun _ _ => rfl, fun _ _ h => by cases h⟩

theorem consistent_start (share : Nat → Option CoShareStack) : (start share).2.Consistent := by
  intro e he
  cases he

/-- **One step of a run.** -/
theorem ThreadState.Step.met {s t : Nat × ThreadState} {a : ThreadCall} (hinv : ThreadInv s.1 s.2)
    (hcons : s.2.Consistent) (h : Step memory s a t) :
    ThreadInv t.1 t.2 ∧ (Unbroken memory s a ↔ t.2.Consistent) := by
  obtain ⟨n, s⟩ := s
  obtain ⟨m, u, hends, hmet⟩ := (ThreadCall.spec hinv hcons h.1).ends At.start
  have heq : t = (m, u) := Option.some.inj (h.2.symm.trans hends)
  rw [heq]
  exact hmet

/-- **On a consistent environment everything works.** -/
theorem ThreadInv.works {s : ThreadState} (hinv : ThreadInv n s) (hcons : s.Consistent) :
    s.Works memory n := by
  refine ⟨?_, ?_, ?_, ?_⟩
  · intro a hlegal
    obtain ⟨m, t, hends, -⟩ := (ThreadCall.spec hinv hcons hlegal).ends At.start
    exact ⟨(m, t), hends⟩
  · intro e he
    obtain ⟨env, henv, hcomplete⟩ := hcons e he
    obtain ⟨p, hp, hall⟩ := hcomplete.epoll
    exact ⟨p, hp ▸ getCurrentCoEpoll_run he henv, hall⟩
  · intro e he
    obtain ⟨env, henv, hcomplete⟩ := hcons e he
    exact getCurrentCoEntity_run he henv hcomplete
  · rw [hinv.delete]
    cases hcurrent : s.CurrentThread_CoEnv with
    | none => exact ⟨(n, s), rfl⟩
    | some e =>
        obtain ⟨env, henv, hcomplete⟩ := hcons e hcurrent
        obtain ⟨p, hp, -⟩ := hcomplete.epoll
        exact ⟨_, freeCoRountinueEnv_run henv hp⟩

/-- **The runs in which the environment is null or complete all the time** are those in which
`init_thisThread_Env` is refused its first request or none, whatever the memory does else; and all calls work
in them, and the end of the thread. -/
theorem consistent_runs_iff (memory : Nat → Bool) (share : Nat → Option CoShareStack)
    (as : List ThreadCall) (t : Nat × ThreadState) :
    (Run (fun s a t => Step memory s a t ∧ Unbroken memory s a) (start share) as t ↔
      Run (fun s a t => Step memory s a t ∧ t.2.Consistent) (start share) as t) ∧
    (Run (fun s a t => Step memory s a t ∧ Unbroken memory s a) (start share) as t →
      t.2.Works memory t.1) := by
  refine ⟨Run.guarded_iff_under (J := fun s => ThreadInv s.1 s.2) ?_ ?_ (.start share)
    (consistent_start share), fun h => ?_⟩
  · intro s a t hinv hcons h
    exact (h.met hinv hcons).1
  · intro s a t hinv hcons h
    exact (h.met hinv hcons).2
  · have hkept : ThreadInv t.1 t.2 ∧ t.2.Consistent := by
      refine h.invariant (I := fun s => ThreadInv s.1 s.2 ∧ s.2.Consistent) ?_
        ⟨.start share, consistent_start share⟩
      intro s a t hs ha
      have hmet := ha.1.met hs.1 hs.2
      exact ⟨hmet.1, hmet.2.mp ha.2⟩
    exact hkept.1.works hkept.2

/-- The memory for the main coroutine is refused: `GetCurrentCoEpoll` gives a null pointer, and the end of
the thread reads through it. -/
theorem not_consistent_runs : ∃ t : Nat × ThreadState,
    Run (Step fun k => k != 1) (start fun _ => none) [.Co_Create none .null] t ∧
      ¬ t.2.Consistent ∧ getCurrentCoEpoll (fun k => k != 1) t = .ok none t ∧
      ends (freeCoRountinueEnv t.2.DeleteThread_CoEnv t) = none := by
  have hlegal : (start fun _ => none).2.Legal (.Co_Create none .null) := by
    intro m hm
    cases hm
  refine ⟨_, .cons ⟨hlegal, rfl⟩ (.nil _), ?_, rfl, rfl⟩
  refine not_consistent rfl (show _ = some CoRountinueEnv.zero from rfl) ?_
  intro p hp
  cases hp

end RocketCo.CoRoutine
