/-
  RocketCo.CoSwap.Switch — `Co_resume`, `Co_yeild` and the switch between two coroutines.

  The state of one thread: its entities, the stacks they run on, the call stack `Co_CallBack`, and
  the bytes of memory.  Control is data here: `coctx_swap` stores where the code that runs stands
  (on whose stack, in which call) in `current->cst` and goes on where `pending->cst` says.  That the
  one that runs is `current` is nothing the code checks; it is proved in `CallStack`.

  A step is what the running code does next: a call of `Co_resume` or `Co_yeild` up to the point where
  the other coroutine is in its own code again, a write to its stack, `Co_poll_inner` up to its
  `Co_yeild` and from there to its return.  `Co_poll_inner` is here for the array of `StPollItem`s that
  it may put in its own frame.

  Entities are made before the run and never freed.
-/
import RocketCo.Lib.Bytes
import RocketCo.Lib.Run

namespace RocketCo.CoSwap

open RocketCo.Lib

/-! ## §1. Data. -/

abbrev Co := Nat

def mainCo : Co := 0

/-- `Co_Stack_Member`. -/
structure CoStackMember where
  current_co : Option Co
  stack_size : Nat
  stack_buffer : Nat

namespace CoStackMember

def stack_bp (m : CoStackMember) : Nat := m.stack_buffer + m.stack_size

/-- The address is in the stack's buffer. -/
def Contains (m : CoStackMember) (x : Nat) : Prop := m.stack_buffer ≤ x ∧ x < m.stack_bp

/-- Where `co_swap_make` writes: the last pointer, moved down to a multiple of 16. -/
def top (m : CoStackMember) : Nat := (m.stack_bp - 8) / 16 * 16

/-- The pointer-sized word that `co_swap_make` writes. -/
def InTop (m : CoStackMember) (x : Nat) : Prop := m.top ≤ x ∧ x < m.top + 8

instance (m : CoStackMember) (x : Nat) : Decidable (m.Contains x) :=
  inferInstanceAs (Decidable (_ ∧ _))

instance (m : CoStackMember) (x : Nat) : Decidable (m.InTop x) :=
  inferInstanceAs (Decidable (_ ∧ _))

end CoStackMember

/-- Where a context continues. -/
inductive Point where
  /-- At the start of `Co_realRunningFun`. -/
  | realRunningFun
  /-- In `co_swap_Co`, called by the `Co_resume` that found this call stack (a ghost). -/
  | resume (calls : List Co)
  /-- In `co_swap_Co`, called by `Co_yeild`. -/
  | yeild
  deriving DecidableEq

/-- `co_swap_t`: the stack pointer and the return address, as a coroutine and a point in its code. -/
structure CoSwapT where
  co : Co
  point : Point
  deriving DecidableEq

/-- `Co_Entity`; `Used_Stack_size` is the length of `Used_Stack`. -/
structure CoEntity where
  cst : Option CoSwapT
  ISstart : Bool
  IsEnd : Bool
  IsShareStack : Bool
  Csm : Nat
  ESP : Nat
  Used_Stack : Option (List (BitVec 8))

/-- `StPollItem`, without what `EventLoop` writes. -/
structure StPollItem where
  CoPrepare : BitVec 256
  CoPrecoss : BitVec 256
  ItemCo : BitVec 64
  pSelf : BitVec 64
  Stpoll : BitVec 64
  deriving DecidableEq

/-- What a blocked `Co_poll_inner` has registered; `items` is what it stored there (a ghost). -/
structure PollFrame where
  WillJoinEpoll : Nat
  items : List StPollItem

/-- One thread: `Co_Rountinue_Env`, the entities and stacks, and the memory.  `running` is the
coroutine whose code runs.  The last two fields are ghosts: who resumed a coroutine last, and the
memory when it was last switched out. -/
structure Thread where
  entity : Co → CoEntity
  member : Nat → CoStackMember
  Co_CallBack : Nat → Co
  Co_ESP : Nat
  using_Co : Option Co
  prev_Co : Option Co
  mem : Mem
  polls : Co → Option PollFrame
  running : Co
  resumer : Co → Option Co
  left : Co → Mem

def MaximumNumberOfCoroutinesAllowed : Nat := 256

namespace Thread

/-- The call stack, bottom first. -/
def calls (s : Thread) : List Co := (List.range s.Co_ESP).map s.Co_CallBack

/-- The stack of a coroutine. -/
def csm (s : Thread) (c : Co) : CoStackMember := s.member (s.entity c).Csm

def setEntity (s : Thread) (c : Co) (f : CoEntity → CoEntity) : Thread :=
  { s with entity := Function.update s.entity c (f (s.entity c)) }

end Thread

/-! ## §2. The switch. -/

/-- `co_swap_make`, with the address of `Co_realRunningFun`. -/
def coSwapMake (s : Thread) (co : Co) (pfn : Nat) : Thread :=
  { s with mem := store s.mem (s.csm co).top 8 pfn }.setEntity co fun e =>
    { e with cst := some ⟨co, .realRunningFun⟩ }

/-- `Copy_stackMember`. -/
def copyStackMember (s : Thread) (occupy : Co) : Thread :=
  s.setEntity occupy fun e =>
    { e with Used_Stack := some (readBytes s.mem e.ESP ((s.csm occupy).stack_bp - e.ESP)) }

/-- `co_swap_Co` from the test of `IsShareStack` to `coctx_swap`. -/
def claimStack (s : Thread) (pending : Co) : Thread :=
  -- a private stack: nobody else is on it, and nothing is copied back
  if (s.entity pending).IsShareStack = false then { s with using_Co := none, prev_Co := none }
  else
    let m := (s.entity pending).Csm
    let occupy_Co := (s.member m).current_co
    let s := { s with
      using_Co := some pending
      prev_Co := occupy_Co
      member := Function.update s.member m { s.member m with current_co := some pending } }
    match occupy_Co with
    | none => s
    | some occupy => if occupy ≠ pending then copyStackMember s occupy else s

/-- `co_swap_Co` behind `coctx_swap`, in the coroutine that goes on there: the memory it leaves. -/
def restore (s : Thread) : Mem :=
  match s.using_Co, s.prev_Co with
  | some restore_curr, some restore_prev =>
      -- `using_Co` and `prev_Co` as the switch to this coroutine has set them
      if restore_curr ≠ restore_prev then
        match (s.entity restore_curr).Used_Stack with
        | none => s.mem
        | some used =>
            if 0 < used.length then copy s.mem (s.entity restore_curr).ESP used else s.mem
      else s.mem
  | _, _ => s.mem

/-- `coctx_swap`: the context of the running code goes to `current`, that of `pending` runs. -/
def coctxSwap (s : Thread) (current pending : Co) (point : Point) : Option Thread :=
  let s := s.setEntity current fun e => { e with cst := some ⟨s.running, point⟩ }
  match (s.entity pending).cst with
  | none => none
  | some cst =>
      some { s with
        running := cst.co
        -- a fresh coroutine starts in its function, not behind `coctx_swap`
        mem := if cst.point = .realRunningFun then s.mem else restore s }

/-- `co_swap_Co`; `esp` is the address of its local variable `c`. -/
def coSwapCo (s : Thread) (pending current : Co) (esp : Nat) (point : Point) : Option Thread :=
  let s := { s with left := Function.update s.left s.running s.mem }
  let s := s.setEntity current fun e => { e with ESP := esp }
  coctxSwap (claimStack s pending) current pending point

/-- `if(!Co->ISstart)` in `Co_resume`. -/
def startIfFresh (s : Thread) (co : Co) (pfn : Nat) : Thread :=
  if (s.entity co).ISstart = false then
    (coSwapMake s co pfn).setEntity co fun e => { e with ISstart := true }
  else s

/-- `env->Co_CallBack[env->Co_ESP++] = Co`. -/
def pushCall (s : Thread) (co : Co) : Thread :=
  { s with
    Co_CallBack := Function.update s.Co_CallBack s.Co_ESP co
    Co_ESP := s.Co_ESP + 1
    resumer := Function.update s.resumer co (some s.running) }

/-- `Co_resume`. -/
def coResume (s : Thread) (co : Co) (esp pfn : Nat) : Option Thread :=
  if s.Co_ESP < MaximumNumberOfCoroutinesAllowed then
    let current := s.Co_CallBack (s.Co_ESP - 1)
    coSwapCo (pushCall (startIfFresh s co pfn) co) co current esp (.resume s.calls)
  else none

/-- `Co_yeild`. -/
def coYeild (s : Thread) (esp : Nat) : Option Thread :=
  if 2 ≤ s.Co_ESP then
    let pending := s.Co_CallBack (s.Co_ESP - 2)
    let current := s.Co_CallBack (s.Co_ESP - 1)
    coSwapCo { s with Co_ESP := s.Co_ESP - 1 } pending current esp .yeild
  else none

/-- The end of `Co_realRunningFun`. -/
def coRealRunningFunEnd (s : Thread) (esp : Nat) : Option Thread :=
  coYeild (s.setEntity s.running fun e => { e with IsEnd := true }) esp

/-! ## §3. The items of `Co_poll_inner`. -/

/-- `sizeof(StPollItem)`; the fields that `EventLoop` reads are at 24, 56, 96, 112 and 120. -/
def itemSize : Nat := 144

def ShortItemOptimization : Nat := 2

/-- The byte at this offset of an item belongs to a field that `EventLoop` reads. -/
def IsField (i : Nat) : Prop := 24 ≤ i ∧ i < 88 ∨ 96 ≤ i ∧ i < 104 ∨ 112 ≤ i ∧ i < 128

instance (i : Nat) : Decidable (IsField i) := inferInstanceAs (Decidable (_ ∨ _))

def loadItem (m : Mem) (a : Nat) : StPollItem where
  CoPrepare := BitVec.ofNat 256 (load m (a + 24) 32)
  CoPrecoss := BitVec.ofNat 256 (load m (a + 56) 32)
  ItemCo := BitVec.ofNat 64 (load m (a + 96) 8)
  pSelf := BitVec.ofNat 64 (load m (a + 112) 8)
  Stpoll := BitVec.ofNat 64 (load m (a + 120) 8)

def storeItem (m : Mem) (a : Nat) (item : StPollItem) : Mem :=
  let m := store m (a + 24) 32 item.CoPrepare.toNat
  let m := store m (a + 56) 32 item.CoPrecoss.toNat
  let m := store m (a + 96) 8 item.ItemCo.toNat
  let m := store m (a + 112) 8 item.pSelf.toNat
  store m (a + 120) 8 item.Stpoll.toNat

/-- The loop over `WillJoinEpoll`. -/
def storeItems (m : Mem) : Nat → List StPollItem → Mem
  | _, [] => m
  | a, item :: items => storeItems (storeItem m a item) (a + itemSize) items

/-- The number of items there is room for: the array in the frame has two, whatever `nfds` is. -/
def PollFrame.room (p : PollFrame) : Nat :=
  if p.items.length < ShortItemOptimization then ShortItemOptimization else p.items.length

/-- The address is in the array of items. -/
def PollFrame.Contains (p : PollFrame) (x : Nat) : Prop :=
  p.WillJoinEpoll ≤ x ∧ x < p.WillJoinEpoll + p.room * itemSize

/-- The array is in the frame of the call. -/
def PollFrame.InFrame (p : PollFrame) : Prop := p.items.length < ShortItemOptimization

instance (p : PollFrame) : Decidable p.InFrame := inferInstanceAs (Decidable (_ < _))

/-- `Co_poll_inner` up to `Co_yeild`: it clears and fills the items at `p.WillJoinEpoll`. -/
def coPollInner (s : Thread) (p : PollFrame) (esp : Nat) : Option Thread :=
  let zeros := List.replicate (p.items.length * itemSize) 0
  let mem := storeItems (copy s.mem p.WillJoinEpoll zeros) p.WillJoinEpoll p.items
  coYeild { s with mem, polls := Function.update s.polls s.running (some p) } esp

/-! ## §4. Steps. -/

inductive Action where
  | resume (co : Co) (esp pfn : Nat)
  /-- A `Co_yeild` of the running coroutine; `ConditionVariableWait` has one too. -/
  | yeild (esp : Nat)
  | finish (esp : Nat)
  /-- The running coroutine writes a byte of its stack. -/
  | write (x : Nat) (b : BitVec 8)
  | poll (p : PollFrame) (esp : Nat)
  /-- `Co_poll_inner` from `Co_yeild` on: the items are taken out of epoll. -/
  | pollBack
  /-- `EventLoop` writes a byte of item `i` of a registered poll, when it links the item. -/
  | link (c : Co) (i off : Nat) (b : BitVec 8)

namespace Thread

def step (s : Thread) : Action → Option Thread
  | .resume co esp pfn => coResume s co esp pfn
  | .yeild esp => coYeild s esp
  | .finish esp => coRealRunningFunEnd s esp
  | .write x b => some { s with mem := Function.update s.mem x b }
  | .poll p esp => coPollInner s p esp
  | .pollBack => some { s with polls := Function.update s.polls s.running none }
  | .link c i off b =>
      (s.polls c).map fun p =>
        { s with mem := Function.update s.mem (p.WillJoinEpoll + i * itemSize + off) b }

/-- User code runs, not the rest of `Co_poll_inner`. -/
def UserTurn (s : Thread) : Prop := s.polls s.running = none

/-- The address is on no stack and in no array of items. -/
def Elsewhere (s : Thread) (x : Nat) : Prop :=
  (∀ m, ¬ (s.member m).Contains x) ∧ ∀ c p, s.polls c = some p → ¬ p.Contains x

/-- A local variable of the running coroutine may have this address.  The main coroutine runs on the
stack of the thread, and where that is does not matter. -/
def OnStack (s : Thread) (x : Nat) : Prop :=
  s.running ≠ mainCo → (s.csm s.running).Contains x

/-- The memory for the items: in the frame of the call, or a block that `new` returns. -/
def Fits (s : Thread) (p : PollFrame) : Prop :=
  if p.InFrame then
    (s.csm s.running).stack_buffer ≤ p.WillJoinEpoll ∧
      p.WillJoinEpoll + p.room * itemSize ≤ (s.csm s.running).stack_bp
  else ∀ x, p.Contains x → s.Elsewhere x

/-- Who may do what: the rules of the API, and whose memory is whose. -/
def Allowed (s : Thread) : Action → Prop
  | .resume co esp _ =>
      s.UserTurn ∧ co ∉ s.calls ∧ (s.entity co).IsEnd = false ∧
        s.Co_ESP < MaximumNumberOfCoroutinesAllowed ∧ s.OnStack esp
  | .yeild esp | .finish esp => s.UserTurn ∧ s.running ≠ mainCo ∧ s.OnStack esp
  | .write x _ => s.UserTurn ∧ s.OnStack x ∧ (s.running = mainCo → s.Elsewhere x)
  | .poll p esp => s.UserTurn ∧ s.running ≠ mainCo ∧ s.OnStack esp ∧ s.Fits p
  | .pollBack => s.polls s.running ≠ none
  | .link c i off _ =>
      s.running = mainCo ∧ off < itemSize ∧ ¬ IsField off ∧
        ∃ p ∈ s.polls c, i < p.items.length

/-- An allowed step. -/
def Step (s : Thread) (a : Action) (t : Thread) : Prop := s.Allowed a ∧ s.step a = some t

end Thread

/-- The entities and stacks of a run.  Each private stack has one coroutine, a shared one any number;
`new` returns separate buffers. -/
structure Config where
  IsShareStack : Co → Bool
  Csm : Co → Nat
  stack_buffer : Nat → Nat
  stack_size : Nat → Nat
  mem : Mem
  main : IsShareStack mainCo = false
  alone : ∀ c d, IsShareStack c = false → Csm d = Csm c → d = c
  room : ∀ m, 24 ≤ stack_size m
  apart : ∀ m m', m ≠ m' → stack_buffer m + stack_size m ≤ stack_buffer m' ∨
    stack_buffer m' + stack_size m' ≤ stack_buffer m

/-- After `init_thisThread_Env` and the `Co_Create`s. -/
def Config.init (cfg : Config) : Thread where
  entity := fun c => ⟨none, false, false, cfg.IsShareStack c, cfg.Csm c, 0, none⟩
  member := fun m => ⟨none, cfg.stack_size m, cfg.stack_buffer m⟩
  Co_CallBack := fun _ => mainCo
  Co_ESP := 1
  using_Co := none
  prev_Co := none
  mem := cfg.mem
  polls := fun _ => none
  running := mainCo
  resumer := fun _ => none
  left := fun _ => cfg.mem

/-- Coroutines 1 and 2 share stack 1; each other coroutine has the stack of its number. -/
def Config.twoOnOne : Config where
  IsShareStack := fun c => decide (c = 1 ∨ c = 2)
  Csm := fun c => if c = 2 then 1 else c
  stack_buffer := fun m => 4096 * m
  stack_size := fun _ => 4096
  mem := fun _ => 0
  main := rfl
  alone := by
    intro c d hc hd
    have hc' : c ≠ 1 ∧ c ≠ 2 := by simpa using hc
    rw [if_neg hc'.2] at hd
    by_cases hd2 : d = 2
    · rw [if_pos hd2] at hd
      exact absurd hd.symm hc'.1
    · rwa [if_neg hd2] at hd
  room := fun _ => by omega
  apart := fun m m' hne => by omega

/-- A test for the actions that do not ask for memory outside of the stacks. -/
def Thread.check (s : Thread) : Action → Bool
  | .resume co esp _ =>
      decide (s.polls s.running = none ∧ co ∉ s.calls ∧ (s.entity co).IsEnd = false ∧
        s.Co_ESP < MaximumNumberOfCoroutinesAllowed ∧
        (s.running ≠ mainCo → (s.csm s.running).Contains esp))
  | .yeild esp | .finish esp =>
      decide (s.polls s.running = none ∧ s.running ≠ mainCo ∧ (s.csm s.running).Contains esp)
  | .write x _ =>
      decide (s.polls s.running = none ∧ s.running ≠ mainCo ∧ (s.csm s.running).Contains x)
  | .poll p esp =>
      decide (s.polls s.running = none ∧ s.running ≠ mainCo ∧ (s.csm s.running).Contains esp ∧
        p.InFrame ∧ (s.csm s.running).stack_buffer ≤ p.WillJoinEpoll ∧
        p.WillJoinEpoll + p.room * itemSize ≤ (s.csm s.running).stack_bp)
  | .pollBack => decide (¬ s.polls s.running = none)
  | .link _ _ _ _ => false

theorem Thread.step_of_check {s t : Thread} {a : Action} (hok : s.check a = true)
    (hstep : s.step a = some t) : s.Step a t := by
  refine ⟨?_, hstep⟩
  cases a with
  | resume co esp pfn =>
      obtain ⟨hturn, hout, hend, hdepth, hin⟩ := of_decide_eq_true hok
      exact ⟨hturn, hout, hend, hdepth, hin⟩
  | yeild esp =>
      obtain ⟨hturn, hne, hin⟩ := of_decide_eq_true hok
      exact ⟨hturn, hne, fun _ => hin⟩
  | finish esp =>
      obtain ⟨hturn, hne, hin⟩ := of_decide_eq_true hok
      exact ⟨hturn, hne, fun _ => hin⟩
  | write x b =>
      obtain ⟨hturn, hne, hin⟩ := of_decide_eq_true hok
      exact ⟨hturn, fun _ => hin, fun heq => absurd heq hne⟩
  | poll p esp =>
      obtain ⟨hturn, hne, hin, hframe, hfits⟩ := of_decide_eq_true hok
      refine ⟨hturn, hne, fun _ => hin, ?_⟩
      unfold Thread.Fits
      rw [if_pos hframe]
      exact hfits
  | pollBack =>
      have hne := of_decide_eq_true hok
      exact hne
  | link c i off b => cases hok

/-! ## §5. What a switch does. -/

/-- Where the stack of a coroutine ends once `current` has been switched out at `sp`. -/
def Thread.espAt (s : Thread) (current : Co) (sp : Nat) (c : Co) : Nat :=
  if c = current then sp else (s.entity c).ESP

/-- `c` has the shared stack that `pending` is about to take. -/
def Thread.Evicts (s : Thread) (pending c : Co) : Prop :=
  (s.entity pending).IsShareStack = true ∧ (s.csm pending).current_co = some c ∧ c ≠ pending

instance (s : Thread) (pending c : Co) : Decidable (s.Evicts pending c) :=
  inferInstanceAs (Decidable (_ ∧ _))

/-- **The effect of `co_swap_Co`**, when `pending` has the context `target`.  The bytes of the coroutine
that had the shared stack are saved, and those of `pending` come back unless it starts. -/
structure Switched (s t : Thread) (pending current : Co) (sp : Nat) (point : Point)
    (target : CoSwapT) : Prop where
  running : t.running = target.co
  callBack : t.Co_CallBack = s.Co_CallBack
  coESP : t.Co_ESP = s.Co_ESP
  resumer : t.resumer = s.resumer
  polls : t.polls = s.polls
  left : t.left = Function.update s.left s.running s.mem
  member : ∀ m, t.member m =
    if (s.entity pending).IsShareStack = true ∧ m = (s.entity pending).Csm then
      { s.member m with current_co := some pending }
    else s.member m
  entity : ∀ c, t.entity c = { s.entity c with
    cst := if c = current then some ⟨s.running, point⟩ else (s.entity c).cst
    ESP := s.espAt current sp c
    Used_Stack :=
      if s.Evicts pending c then
        some (readBytes s.mem (s.espAt current sp c)
          ((s.csm c).stack_bp - s.espAt current sp c))
      else (s.entity c).Used_Stack }
  kept : (∀ o, s.Evicts pending o → target.point = .realRunningFun) → t.mem = s.mem
  restored : ∀ o used, s.Evicts pending o → target.point ≠ .realRunningFun →
    (s.entity pending).Used_Stack = some used → t.mem = copy s.mem (s.entity pending).ESP used

variable {s : Thread} {pending current : Co} {sp : Nat} {point : Point} {target : CoSwapT}

/-- For a coroutine with a stack of its own no other one is moved. -/
theorem claimStack_private (h : (s.entity pending).IsShareStack = false) :
    claimStack s pending = { s with using_Co := none, prev_Co := none } := by
  unfold claimStack
  rw [if_pos h]

/-- Who occupies a stack does not move it. -/
theorem stack_bp_update {t : Thread} {m : Nat} {co : Option Co} {c : Co}
    (hcsm : (t.entity c).Csm = (s.entity c).Csm)
    (hmember : t.member = Function.update s.member m { s.member m with current_co := co }) :
    (t.csm c).stack_bp = (s.csm c).stack_bp := by
  unfold Thread.csm
  rw [hcsm, hmember]
  by_cases hm : (s.entity c).Csm = m
  · rw [hm, Function.update_self]
    rfl
  · rw [Function.update_of_ne hm]

/-- On a shared stack the occupant, if it is another one, is copied out, and `pending` is the new occupant.
-/
theorem claimStack_shared (h : (s.entity pending).IsShareStack = true) :
    claimStack s pending = { s with
      using_Co := some pending
      prev_Co := (s.csm pending).current_co
      member := Function.update s.member (s.entity pending).Csm
        { s.csm pending with current_co := some pending }
      entity := fun c =>
        if (s.csm pending).current_co = some c ∧ c ≠ pending then
          { s.entity c with
            Used_Stack := some (readBytes s.mem (s.entity c).ESP
              ((s.csm c).stack_bp - (s.entity c).ESP)) }
        else s.entity c } := by
  unfold claimStack
  rw [if_neg (by rw [h]; simp)]
  dsimp only
  show (match (s.csm pending).current_co with
    | none => _
    | some occupy => _) = _
  cases hocc : (s.csm pending).current_co with
  | none => simp [Thread.csm] at hocc ⊢; exact hocc
  -- the copy is of `occupy`, and only when it is another coroutine
  | some o =>
      dsimp only
      by_cases ho : o ≠ pending
      · rw [if_pos ho]
        unfold copyStackMember Thread.setEntity
        congr 1
        · funext c
          by_cases hc : c = o
          · rw [hc, Function.update_self, if_pos ⟨rfl, ho⟩]
            refine congrArg (fun bp => { s.entity o with
              Used_Stack := some (readBytes s.mem (s.entity o).ESP (bp - (s.entity o).ESP)) }) ?_
            exact stack_bp_update (s := s) rfl rfl
          · rw [Function.update_of_ne hc, if_neg]
            intro hand
            exact hc (Option.some.inj hand.1).symm
      · rw [if_neg ho]
        congr 1
        · funext c
          rw [if_neg]
          intro hand
          exact ho (by rw [Option.some.inj hand.1]; exact hand.2)

/-- Copying nothing. -/
theorem copy_nil (m : Mem) (a : Nat) : copy m a [] = m := by
  funext x
  unfold copy
  split <;> rfl

/-- Nothing is copied back to a stack of its own, ... -/
theorem restore_private (h : s.using_Co = none) : restore s = s.mem := by
  unfold restore
  rw [h]

/-- ... nor to a stack nobody was on, ... -/
theorem restore_first (h : s.prev_Co = none) : restore s = s.mem := by
  unfold restore
  rw [h]
  split <;> first | rfl | contradiction

/-- ... nor to one where the coroutine still is. -/
theorem restore_same {c : Co} (hu : s.using_Co = some c) (hp : s.prev_Co = some c) :
    restore s = s.mem := by
  unfold restore
  rw [hu, hp]
  exact if_neg fun hne => hne rfl

/-- In place of another occupant the saved copy comes back. -/
theorem restore_used {c o : Co} {used : List (BitVec 8)} (hu : s.using_Co = some c)
    (hp : s.prev_Co = some o) (hne : o ≠ c) (hused : (s.entity c).Used_Stack = some used) :
    restore s = copy s.mem (s.entity c).ESP used := by
  unfold restore
  rw [hu, hp]
  dsimp only
  rw [if_pos (Ne.symm hne), hused]
  cases used with
  | nil => exact (copy_nil _ _).symm
  | cons b bs => rfl

/-- The part of `co_swap_Co` that follows `current->ESP = &c`. -/
structure Claimed (s t : Thread) (pending current : Co) (point : Point) (target : CoSwapT) :
    Prop where
  running : t.running = target.co
  callBack : t.Co_CallBack = s.Co_CallBack
  coESP : t.Co_ESP = s.Co_ESP
  resumer : t.resumer = s.resumer
  polls : t.polls = s.polls
  left : t.left = s.left
  member : ∀ m, t.member m =
    if (s.entity pending).IsShareStack = true ∧ m = (s.entity pending).Csm then
      { s.member m with current_co := some pending }
    else s.member m
  entity : ∀ c, t.entity c = { s.entity c with
    cst := if c = current then some ⟨s.running, point⟩ else (s.entity c).cst
    Used_Stack :=
      if s.Evicts pending c then
        some (readBytes s.mem (s.entity c).ESP ((s.csm c).stack_bp - (s.entity c).ESP))
      else (s.entity c).Used_Stack }
  kept : (∀ o, s.Evicts pending o → target.point = .realRunningFun) → t.mem = s.mem
  restored : ∀ o used, s.Evicts pending o → target.point ≠ .realRunningFun →
    (s.entity pending).Used_Stack = some used → t.mem = copy s.mem (s.entity pending).ESP used

/-- Between `current->ESP = &c` and the end, on a stack of its own ... -/
theorem claim_private (hne : pending ≠ current) (hcst : (s.entity pending).cst = some target)
    (hshare : (s.entity pending).IsShareStack = false) :
    ∃ t, coctxSwap (claimStack s pending) current pending point = some t ∧
      Claimed s t pending current point target := by
  have hnone : ∀ c, ¬ s.Evicts pending c := by
    intro c hev
    rw [hev.1] at hshare
    cases hshare
  rw [claimStack_private hshare]
  unfold coctxSwap Thread.setEntity
  dsimp only
  rw [Function.update_of_ne hne, hcst]
  refine ⟨_, rfl, rfl, rfl, rfl, rfl, rfl, rfl, ?_, ?_, ?_, ?_⟩
  · intro m
    have hno : ¬ ((s.entity pending).IsShareStack = true ∧ m = (s.entity pending).Csm) := by
      rw [hshare]
      simp
    rw [if_neg hno]
  · intro c
    dsimp only
    rw [if_neg (hnone c)]
    by_cases hc : c = current
    · rw [hc, Function.update_self, if_pos rfl]
    · rw [Function.update_of_ne hc, if_neg hc]
  · intro _
    dsimp only
    rw [restore_private rfl]
    exact ite_self _
  · exact fun o used hev => absurd hev (hnone o)

/-- ... and on a shared one. -/
theorem claim_shared (hne : pending ≠ current) (hcst : (s.entity pending).cst = some target)
    (hshare : (s.entity pending).IsShareStack = true) :
    ∃ t, coctxSwap (claimStack s pending) current pending point = some t ∧
      Claimed s t pending current point target := by
  -- on a shared stack the occupant is evicted, unless it is `pending` itself
  have hev : ∀ c, s.Evicts pending c ↔ (s.csm pending).current_co = some c ∧ c ≠ pending := by
    intro c
    unfold Thread.Evicts
    rw [hshare]
    simp
  have hself : ¬ ((s.csm pending).current_co = some pending ∧ pending ≠ pending) :=
    fun hand => hand.2 rfl
  rw [claimStack_shared hshare]
  unfold coctxSwap Thread.setEntity
  dsimp only
  rw [Function.update_of_ne hne, if_neg hself, hcst]
  refine ⟨_, rfl, rfl, rfl, rfl, rfl, rfl, rfl, ?_, ?_, ?_, ?_⟩
  · intro m
    dsimp only
    by_cases hm : m = (s.entity pending).Csm
    · rw [hm, Function.update_self, if_pos ⟨hshare, rfl⟩]
      rfl
    · have hno : ¬ ((s.entity pending).IsShareStack = true ∧ m = (s.entity pending).Csm) :=
        fun hand => hm hand.2
      rw [Function.update_of_ne hm, if_neg hno]
  · intro c
    dsimp only
    by_cases hc : c = current
    · rw [hc, Function.update_self, if_pos rfl]
      by_cases hcur : s.Evicts pending current
      · rw [if_pos hcur, if_pos ((hev current).mp hcur)]
      · rw [if_neg hcur, if_neg fun hand => hcur ((hev current).mpr hand)]
    · rw [Function.update_of_ne hc, if_neg hc]
      by_cases hcur : s.Evicts pending c
      · rw [if_pos hcur, if_pos ((hev c).mp hcur)]
      · rw [if_neg hcur, if_neg fun hand => hcur ((hev c).mpr hand)]
  · intro hstart
    dsimp only
    by_cases hpoint : target.point = .realRunningFun
    · rw [if_pos hpoint]
    · rw [if_neg hpoint]
      cases hocc : (s.csm pending).current_co with
      | none => exact restore_first rfl
      | some o =>
          have ho : o = pending := by
            by_contra hne
            exact hpoint (hstart o ((hev o).mpr ⟨hocc, hne⟩))
          rw [ho]
          exact restore_same rfl rfl
  · intro o used hevicts hpoint hused
    have hocc := (hev o).mp hevicts
    dsimp only
    rw [if_neg hpoint]
    have hentity : ∀ e, Function.update (fun c =>
        if (s.csm pending).current_co = some c ∧ c ≠ pending then
          { s.entity c with
            Used_Stack := some (readBytes s.mem (s.entity c).ESP
              ((s.csm c).stack_bp - (s.entity c).ESP)) }
        else s.entity c) current e pending = s.entity pending := by
      intro e
      rw [Function.update_of_ne hne, if_neg hself]
    rw [restore_used rfl hocc.1 hocc.2 (by dsimp only; rw [hentity]; exact hused)]
    dsimp only
    rw [hentity]

/-- **The effect of a switch.** -/
theorem coSwapCo_spec (sp : Nat) (point : Point) (hne : pending ≠ current)
    (hcst : (s.entity pending).cst = some target) :
    ∃ t, coSwapCo s pending current sp point = some t ∧
      Switched s t pending current sp point target := by
  let s₁ : Thread := Thread.setEntity { s with left := Function.update s.left s.running s.mem }
    current fun e => { e with ESP := sp }
  -- `curr->ESP` is stored before the stack is looked at
  have hentity : ∀ c, s₁.entity c = { s.entity c with ESP := s.espAt current sp c } := by
    intro c
    show Function.update s.entity current { s.entity current with ESP := sp } c = _
    unfold Thread.espAt
    by_cases hc : c = current
    · rw [hc, Function.update_self, if_pos rfl]
    · rw [Function.update_of_ne hc, if_neg hc]
  have hpending : s₁.entity pending = s.entity pending := Function.update_of_ne hne _ _
  have hcsm : ∀ c, s₁.csm c = s.csm c := by
    intro c
    show s.member (s₁.entity c).Csm = s.member (s.entity c).Csm
    rw [hentity]
  -- and has no say in who must leave the stack
  have hev : ∀ c, s₁.Evicts pending c ↔ s.Evicts pending c := by
    intro c
    unfold Thread.Evicts
    rw [hpending, hcsm]
  have hclaim : ∃ t, coctxSwap (claimStack s₁ pending) current pending point = some t ∧
      Claimed s₁ t pending current point target := by
    cases hshare : (s.entity pending).IsShareStack with
    | false => exact claim_private hne (by rw [hpending]; exact hcst) (by rw [hpending]; exact hshare)
    | true => exact claim_shared hne (by rw [hpending]; exact hcst) (by rw [hpending]; exact hshare)
  obtain ⟨t, ht, h⟩ := hclaim
  refine ⟨t, ht, h.running, h.callBack, h.coESP, h.resumer, h.polls, h.left, ?_, ?_, ?_, ?_⟩
  · intro m
    rw [h.member, hpending]
    rfl
  · intro c
    rw [h.entity, hentity, hcsm]
    by_cases hcur : s.Evicts pending c
    · rw [if_pos hcur, if_pos ((hev c).mpr hcur)]
      rfl
    · rw [if_neg hcur, if_neg fun hand => hcur ((hev c).mp hand)]
      rfl
  · exact fun hstart => h.kept fun o ho => hstart o ((hev o).mp ho)
  · intro o used ho hpoint hused
    rw [h.restored o used ((hev o).mpr ho) hpoint (by rw [hpending]; exact hused), hpending]
    rfl

end RocketCo.CoSwap
