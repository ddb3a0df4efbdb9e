/-
  RocketCo.EpollWrapper.EventResult — the results of `epoll_wait`, and who reads them.

  `Epoll_Wait` stores the `int` that `epoll_wait` returns in a `size_t`.  After an error the length is
  `2 ^ 64 - 1`, which both the loop of `EventLoop` and the bounds check of `at` and `operator[]` believe:
  the loop goes through whatever earlier rounds have left in the array, and then out of it.  The check
  itself is `i > Available_length`, so the entry behind the last one passes in any case.

  Main result: `event_result_iff`.
-/
import RocketCo.Lib.Run
import RocketCo.CoRoutine.TimeWheel

namespace RocketCo.EpollWrapper

open RocketCo.Lib
open RocketCo.CoRoutine (toSizeT)

/-! ## §1. The functions of the source. -/

theorem toSizeT_failed : toSizeT (-1) = 2 ^ 64 - 1 := by decide

/-- An entry of the kernel: the events, and the pointer that was registered with them. -/
structure EpollEvent where
  events : BitVec 32
  ptr : Nat
  deriving DecidableEq

/-- `EpollEvent_Result`.  Its array has the `int` length it was made with. -/
structure EpollEvent_Result where
  array : List EpollEvent
  Available_length : Nat
  All_length : Nat
  array_length : array.length = All_length
  int_length : All_length < 2 ^ 31

/-- The constructor; `new EpollEvent[len]` clears the entries. -/
def EpollEvent_Result.init (len : Fin (2 ^ 31)) : EpollEvent_Result where
  array := List.replicate len.val ⟨0, 0⟩
  Available_length := 0
  All_length := len.val
  array_length := List.length_replicate
  int_length := len.isLt

/-- What `at` and `operator[]` do: throw, or refer to an element, or to memory behind the array. -/
inductive Access where
  | outOfRange
  | entry (e : EpollEvent)
  | leaves

namespace EpollEvent_Result

def size (r : EpollEvent_Result) : Nat := r.Available_length

/-- `at`. -/
def at_ (r : EpollEvent_Result) (i : Nat) : Access :=
  if r.Available_length < i then .outOfRange
  else
    match r.array[i]? with
    | some e => .entry e
    | none => .leaves

/-- `operator[]`, written a second time. -/
def index (r : EpollEvent_Result) (i : Nat) : Access :=
  if r.Available_length < i then .outOfRange
  else
    match r.array[i]? with
    | some e => .entry e
    | none => .leaves

end EpollEvent_Result

/-- What the kernel writes: the first `maxevents` of the events that are ready, and nothing after an
error. -/
def writtenBy (maxevents : Nat) : Option (List EpollEvent) → List EpollEvent
  | none => []
  | some ready => ready.take maxevents

/-- What `epoll_wait` returns. -/
def returned (maxevents : Nat) : Option (List EpollEvent) → Int
  | none => -1
  | some ready => (ready.take maxevents).length

theorem writtenBy_length (maxevents : Nat) (o : Option (List EpollEvent)) :
    (writtenBy maxevents o).length ≤ maxevents := by
  cases o with
  | none => exact Nat.zero_le _
  | some ready =>
      show (ready.take maxevents).length ≤ maxevents
      rw [List.length_take]
      omega

/-- `Epoll_Wait`; `o` is what is ready, or `none` for an error or an interruption. -/
def epoll_Wait (r : EpollEvent_Result) (o : Option (List EpollEvent)) : EpollEvent_Result where
  -- the kernel overwrites the front and leaves the rest as it was
  array := writtenBy r.All_length o ++ r.array.drop (writtenBy r.All_length o).length
  -- an error makes this the largest `size_t`
  Available_length := toSizeT (returned r.All_length o)
  All_length := r.All_length
  array_length := by
    have hle := writtenBy_length r.All_length o
    have hlen := r.array_length
    rw [List.length_append, List.length_drop]
    omega
  int_length := r.int_length

/-- The entries whose item is processed, in order, and whether the loop leaves the array. -/
structure Dispatch where
  items : List EpollEvent
  leaves : Bool

/-- The dispatch loop of `EventLoop` from index `i` on, the rest of the array before it; `i` is an `int`
that is compared with the `size_t`. -/
def dispatchFrom (size : Nat) : Nat → List EpollEvent → Dispatch
  | i, [] => ⟨[], decide (i < size)⟩
  | i, e :: rest =>
      if i < size then
        let d := dispatchFrom size (i + 1) rest
        ⟨e :: d.items, d.leaves⟩
      else ⟨[], false⟩

def dispatch (r : EpollEvent_Result) : Dispatch := dispatchFrom r.size 0 r.array

/-- **The loop** goes through the first `size` entries, and out of the array if it has fewer. -/
theorem dispatchFrom_eq (size : Nat) : ∀ (rest : List EpollEvent) (i : Nat),
    dispatchFrom size i rest = ⟨rest.take (size - i), decide (i + rest.length < size)⟩ := by
  -- the loop stops at `size` or at the end of the array, whichever comes first
  intro rest
  induction rest with
  | nil =>
      intro i
      show (⟨[], decide (i < size)⟩ : Dispatch) = _
      rw [List.take_nil]
      rfl
  | cons e rest ih =>
      intro i
      unfold dispatchFrom
      by_cases h : i < size
      · have hsucc : size - i = (size - (i + 1)) + 1 := by omega
        have hlen : i + (e :: rest).length = i + 1 + rest.length := by
          rw [List.length_cons]
          omega
        rw [if_pos h, ih (i + 1), hsucc, List.take_succ_cons, hlen]
      · have hzero : size - i = 0 := by omega
        have hnot : ¬ i + (e :: rest).length < size := by omega
        rw [if_neg h, hzero, List.take_zero, decide_eq_false hnot]

/-- While the loop is in the array, its bounds check never throws. -/
theorem index_of_lt (r : EpollEvent_Result) {i : Nat} (h : i < r.size) :
    r.index i ≠ .outOfRange := by
  unfold EpollEvent_Result.index
  have hle : ¬ r.Available_length < i := by
    unfold EpollEvent_Result.size at h
    omega
  rw [if_neg hle]
  split <;> exact Access.noConfusion

/-! ## §2. Rounds and accesses. -/

/-- The result set of `EventLoop`, and what the last `epoll_wait` wrote (a ghost; `none` when it
failed). -/
structure EventState where
  result : EpollEvent_Result
  last : Option (List EpollEvent)

def EventState.init (len : Fin (2 ^ 31)) : EventState := ⟨.init len, some []⟩

/-- The number of events that are available. -/
def EventState.available (s : EventState) : Nat :=
  match s.last with
  | none => 0
  | some written => written.length

/-- A round of `EventLoop`, or an access at any `size_t`. -/
inductive EventAction where
  | round (o : Option (List EpollEvent))
  | at_ (i : Fin (2 ^ 64))
  | index (i : Fin (2 ^ 64))

namespace EventState

def wait (s : EventState) (o : Option (List EpollEvent)) : EventState where
  result := epoll_Wait s.result o
  last := o.map fun ready => ready.take s.result.All_length

def step (s : EventState) : EventAction → EventState
  | .round o => s.wait o
  | .at_ _ | .index _ => s

def Step (s : EventState) (a : EventAction) (t : EventState) : Prop := t = s.step a

/-- The access throws, or the entry is one of the available ones. -/
def Guarded (s : EventState) (i : Nat) (x : Access) : Prop :=
  x ≠ .outOfRange → i < s.available

/-- **What is asked of a step**: a round dispatches the entries its own `epoll_wait` has written,
and an access is refused where no event is available. -/
def Good (s : EventState) : EventAction → Prop
  | .round o => dispatch (s.wait o).result = ⟨writtenBy s.result.All_length o, false⟩
  | .at_ i => s.Guarded i.val (s.result.at_ i.val)
  | .index i => s.Guarded i.val (s.result.index i.val)

/-- **When a step does it**: no wait fails, and nobody asks for the entry behind the last one. -/
def Kept (s : EventState) : EventAction → Prop
  | .round o => o ≠ none
  | .at_ i | .index i => s.last ≠ none ∧ i.val ≠ s.result.size

/-- The stored length is the number of events, or that of an error. -/
structure Stored (s : EventState) : Prop where
  failed : s.last = none → s.result.Available_length = 2 ^ 64 - 1
  counted : ∀ written, s.last = some written → s.result.Available_length = written.length

end EventState

/-! ## §3. One step. -/

variable {s t : EventState}

/-- What a successful wait stores. -/
theorem epoll_Wait_some (r : EpollEvent_Result) (ready : List EpollEvent) :
    (epoll_Wait r (some ready)).Available_length = (ready.take r.All_length).length := by
  have hle := writtenBy_length r.All_length (some ready)
  have hint := r.int_length
  show toSizeT ((ready.take r.All_length).length : Int) = _
  refine CoRoutine.toSizeT_nat ?_
  have hle' : (ready.take r.All_length).length ≤ r.All_length := hle
  omega

theorem stored_init (len : Fin (2 ^ 31)) : (EventState.init len).Stored := by
  constructor
  case failed => exact fun h => by cases h
  case counted =>
    intro written h
    rw [← Option.some.inj h]
    rfl

theorem EventState.Stored.step {a : EventAction} (h : s.Stored) (hstep : s.Step a t) : t.Stored := by
  rw [hstep]
  cases a with
  | at_ i => exact h
  | index i => exact h
  | round o =>
      cases o with
      | none =>
          constructor
          case failed => exact fun _ => toSizeT_failed
          case counted => exact fun written hw => by cases hw
      | some ready =>
          constructor
          case failed => exact fun hw => by cases hw
          case counted =>
            intro written hw
            rw [← Option.some.inj hw]
            exact epoll_Wait_some s.result ready

/-- **A round whose wait succeeds** dispatches what was written. -/
theorem round_some (s : EventState) (ready : List EpollEvent) : s.Good (.round (some ready)) := by
  have hle : (ready.take s.result.All_length).length ≤ s.result.All_length :=
    writtenBy_length s.result.All_length (some ready)
  have hlen : (epoll_Wait s.result (some ready)).array.length = s.result.All_length :=
    (epoll_Wait s.result (some ready)).array_length
  show dispatchFrom (epoll_Wait s.result (some ready)).Available_length 0
    (epoll_Wait s.result (some ready)).array = _
  rw [epoll_Wait_some, dispatchFrom_eq, Nat.zero_add]
  -- what is behind the written entries is not reached
  have hstay : ¬ (epoll_Wait s.result (some ready)).array.length <
      (ready.take s.result.All_length).length := by omega
  rw [decide_eq_false hstay]
  show (⟨((ready.take s.result.All_length) ++ _).take _, false⟩ : Dispatch) = _
  rw [Nat.sub_zero, List.take_left]
  rfl

/-- **A round whose wait fails** dispatches the whole array and leaves it. -/
theorem round_none (s : EventState) :
    dispatch (s.wait none).result = ⟨s.result.array, true⟩ := by
  have hint := s.result.int_length
  have hlen := s.result.array_length
  show dispatchFrom (toSizeT (-1)) 0 ([] ++ s.result.array.drop 0) = _
  rw [toSizeT_failed, dispatchFrom_eq, List.nil_append, List.drop_zero, Nat.zero_add, Nat.sub_zero,
    hlen]
  -- the array has an `int` length, which the stored one exceeds
  have hout : s.result.All_length < 2 ^ 64 - 1 := by omega
  rw [decide_eq_true hout, List.take_of_length_le (by omega)]

/-- The two accesses are the same. -/
theorem index_eq_at (r : EpollEvent_Result) (i : Nat) : r.index i = r.at_ i := rfl

/-- The bounds check. -/
theorem at_refused (r : EpollEvent_Result) (i : Nat) :
    r.at_ i ≠ .outOfRange ↔ i ≤ r.Available_length := by
  unfold EpollEvent_Result.at_
  by_cases h : r.Available_length < i
  · rw [if_pos h]
    simp only [ne_eq, not_true_eq_false, false_iff]
    omega
  · rw [if_neg h]
    have hle : i ≤ r.Available_length := by omega
    refine iff_of_true ?_ hle
    split <;> exact Access.noConfusion

/-- **An access** is refused where it should be, except for the entry behind the last one; after an
error none is refused. -/
theorem guarded_iff (h : s.Stored) (i : Fin (2 ^ 64)) :
    s.Guarded i.val (s.result.at_ i.val) ↔ s.last ≠ none ∧ i.val ≠ s.result.size := by
  have hi := i.isLt
  unfold EventState.Guarded EventState.available EpollEvent_Result.size
  rw [at_refused]
  cases hlast : s.last with
  | none =>
      -- no index is above the stored length
      rw [h.failed hlast]
      simp only [ne_eq, not_true_eq_false, false_and, iff_false]
      omega
  | some written =>
      rw [h.counted written hlast]
      simp only [ne_eq, reduceCtorEq, not_false_eq_true, true_and]
      omega

/-- **One step.** -/
theorem kept_iff_good {a : EventAction} (h : s.Stored) : s.Kept a ↔ s.Good a := by
  cases a with
  | at_ i => exact (guarded_iff h i).symm
  | index i =>
      show _ ↔ s.Guarded i.val (s.result.index i.val)
      rw [index_eq_at]
      exact (guarded_iff h i).symm
  | round o =>
      cases o with
      | some ready =>
          refine iff_of_true ?_ (round_some s ready)
          exact Option.some_ne_none ready
      | none =>
          refine iff_of_false (fun hne => hne rfl) ?_
          intro hgood
          have hleaves : dispatch (s.wait none).result = ⟨[], false⟩ := hgood
          rw [round_none] at hleaves
          cases (Dispatch.mk.inj hleaves).2

/-! ## §4. Every run. -/

/-- **The rounds and accesses that are right.**  The runs in which every round dispatches what its own
wait has written, and no access reaches an entry that is not available, are exactly those in which no
wait fails and the entry at the stored length is not asked for. -/
theorem event_result_iff (len : Fin (2 ^ 31)) (as : List EventAction) (s : EventState) :
    Run (fun s a t => s.Step a t ∧ s.Kept a) (.init len) as s ↔
      Run (fun s a t => s.Step a t ∧ s.Good a) (.init len) as s :=
  Run.guarded_iff_of_invariant (I := EventState.Stored) (fun _ _ _ h hstep => h.step hstep)
    (fun _ _ _ h _ => kept_iff_good h) (stored_init len)

/-- `EventLoop` makes its result set with this length. -/
def DefaultEpollEventSize : Nat := 1024 * 1024

/-- A first wait brings one event, and a signal interrupts the second one: the item of the first round is
processed again. -/
theorem not_event_result : ∃ s t : EventState,
    Run EventState.Step (.init ⟨DefaultEpollEventSize, by decide⟩) [.round (some [⟨1, 4096⟩])] s ∧
      s.Step (.round none) t ∧ (dispatch t.result).items.head? = some ⟨1, 4096⟩ ∧
      (dispatch t.result).leaves = true ∧ ¬ s.Good (.round none) := by
  let s₀ := EventState.init ⟨DefaultEpollEventSize, by decide⟩
  let s := s₀.wait (some [⟨1, 4096⟩])
  have hrun : Run EventState.Step s₀ ([] ++ [.round (some [⟨1, 4096⟩])]) s := .snoc (.nil _) rfl
  have hdispatch := round_none s
  have hhead : s.result.array.head? = some ⟨1, 4096⟩ := rfl
  refine ⟨s, s.wait none, hrun, rfl, ?_, ?_, ?_⟩
  · rw [hdispatch]
    exact hhead
  · rw [hdispatch]
  · intro hgood
    have hleaves : dispatch (s.wait none).result = ⟨[], false⟩ := hgood
    rw [hdispatch] at hleaves
    cases (Dispatch.mk.inj hleaves).2

end RocketCo.EpollWrapper
