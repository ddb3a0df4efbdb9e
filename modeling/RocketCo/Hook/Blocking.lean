/-
  RocketCo.Hook.Blocking — when do the hooked calls give `EAGAIN` back to a user who wants to block?

  They should after a wait of the descriptor's timeout for its own direction, and only then.  The six
  wrappers are written six times:

    • `read` and `sendto` do as they should, as long as their `poll` does wait,
    • `recv` waits until the socket is writable, and for the other timeout,
    • `recvfrom` waits for the right event, but for the other timeout,
    • `write` gives up at once when its first call fails,
    • `send` goes on waiting, unless there is nothing to send.

  None of them looks at what `poll` returns, which is -1 when the time wheel turns the call down.

  Main result: `again_waits_iff`.
-/
import RocketCo.Hook.Transfer

namespace RocketCo.Hook

open RocketCo.Lib
open RocketCo.CoRoutine (Errno EAGAIN toInt32 toInt64 toSizeT)

/-! ## §1. What is asked. -/

/-- The call failed because it would have blocked. -/
def Answer.Again (a : Answer) : Prop := a.value < 0 ∧ a.errno = EAGAIN

instance (a : Answer) : Decidable a.Again := inferInstanceAs (Decidable (_ ∧ _))

/-- `errno` after the calls. -/
def errnoAfter (cs : List (SysCall × Answer)) : Option Errno := cs.getLast?.map fun x => x.2.errno

/-- The value `r` tells the caller that the call would block. -/
def TellsAgain (r : Int) (cs : List (SysCall × Answer)) : Prop :=
  r < 0 ∧ errnoAfter cs = some EAGAIN

/-- The last two calls were a hooked `poll` of the descriptor for this direction and timeout, which did
wait, and a call that would still have blocked.  A `poll` that returns -1 has not waited. -/
def Waited (fd : Int) (direction : BitVec 16) (timeout : Int) (cs : List (SysCall × Answer)) : Prop :=
  ∃ pre event wait last, cs = pre ++ [(.poll event (toInt32 timeout), wait), last] ∧
    event.fd = fd ∧ event.events &&& (POLLIN ||| POLLOUT) = direction ∧ 0 ≤ wait.value ∧ last.2.Again

/-- **Blocking is emulated**: the caller gets `EAGAIN` only after such a wait. -/
def OnlyAfterWait (fd : Int) (direction : BitVec 16) (timeout : Int) (r : Int)
    (cs : List (SysCall × Answer)) : Prop :=
  TellsAgain r cs → Waited fd direction timeout cs

variable (K : Kernel) (fd : Int) (A : Blocking) (buffer : List Byte) (flags : Int)

/-- The value of the last call is what the caller is told. -/
theorem tellsAgain_last (cs : List (SysCall × Answer)) (op : SysCall) (a : Answer) :
    TellsAgain a.value (cs ++ [(op, a)]) ↔ a.Again := by
  unfold TellsAgain Answer.Again errnoAfter
  rw [List.getLast?_append]
  simp

/-- The last two calls say whether there was a wait. -/
theorem waited_iff (cs : List (SysCall × Answer)) (event : Pollfd) (t timeout : Int)
    (direction : BitVec 16) (wait a : Answer) (op : SysCall) :
    Waited fd direction timeout (cs ++ [(.poll event t, wait), (op, a)]) ↔
      t = toInt32 timeout ∧ event.fd = fd ∧ event.events &&& (POLLIN ||| POLLOUT) = direction ∧
        0 ≤ wait.value ∧ a.Again := by
  constructor
  · rintro ⟨pre, event', wait', last, heq, hfd, hdir, hwait, ha⟩
    -- the two calls at the end are those of the wait
    obtain ⟨-, htail⟩ := List.append_inj' heq rfl
    obtain ⟨hpoll, hlast⟩ := List.cons.inj htail
    have hop := SysCall.poll.inj (Prod.mk.inj hpoll).1
    rw [← List.singleton_inj.mp hlast] at ha
    rw [hop.1, (Prod.mk.inj hpoll).2]
    exact ⟨hop.2, hfd, hdir, hwait, ha⟩
  · rintro ⟨ht, hfd, hdir, hwait, ha⟩
    rw [ht]
    exact ⟨cs, event, wait, (op, a), rfl, hfd, hdir, hwait, ha⟩

/-- **A wrapper that ends with a `poll` and a call** tells `EAGAIN` as it should exactly if there was a wait
for the right direction and time, or the call did not fail so. -/
theorem onlyAfterWait_iff (cs : List (SysCall × Answer)) (events : BitVec 16) (t timeout : Int)
    (direction : BitVec 16) (wait a : Answer) (op : SysCall) :
    OnlyAfterWait fd direction timeout a.value
        (cs ++ [(.poll ⟨fd, events, 0⟩ t, wait), (op, a)]) ↔
      (t = toInt32 timeout ∧ events &&& (POLLIN ||| POLLOUT) = direction ∧ 0 ≤ wait.value) ∨
        ¬ a.Again := by
  have htells : TellsAgain a.value (cs ++ [(.poll ⟨fd, events, 0⟩ t, wait), (op, a)]) ↔ a.Again := by
    rw [show cs ++ [(.poll ⟨fd, events, 0⟩ t, wait), (op, a)] =
      (cs ++ [(.poll ⟨fd, events, 0⟩ t, wait)]) ++ [(op, a)] by rw [List.append_assoc]; rfl]
    exact tellsAgain_last _ op a
  unfold OnlyAfterWait
  rw [htells, waited_iff]
  by_cases ha : a.Again
  · simp [ha]
  · simp [ha]

/-- Nothing was waited for in a single call. -/
theorem onlyAfterWait_single (direction : BitVec 16) (timeout : Int) (op : SysCall) (a : Answer) :
    OnlyAfterWait fd direction timeout a.value [(op, a)] ↔ ¬ a.Again := by
  have htells : TellsAgain a.value [(op, a)] ↔ a.Again := tellsAgain_last [] op a
  unfold OnlyAfterWait
  rw [htells]
  constructor
  · intro h ha
    -- a wait takes two calls
    obtain ⟨pre, event, wait, last, heq, -⟩ := h ha
    have hlen := congrArg List.length heq
    rw [List.length_append] at hlen
    simp at hlen
  · exact fun hnot ha => absurd ha hnot

/-! ## §2. The receiving calls, and `sendto`. -/

theorem read_exec : (read true (some A.val) fd buffer).exec K.handle .none =
    ⟨⟨(K.receive 0 buffer.length).value, fill buffer (K.receive 0 buffer.length).data⟩,
      [(.poll ⟨fd, POLLIN ||| POLLERR ||| POLLHUP, 0⟩ (toInt32 A.val.read_timeout), K.poll 0),
        (.read fd buffer.length, K.receive 0 buffer.length)], ⟨0, 1, 1⟩⟩ := by
  unfold read
  rw [unlessBlocking_emulated]
  rfl

theorem recv_exec : (recv true (some A.val) fd buffer flags).exec K.handle .none =
    ⟨⟨(K.receive 0 buffer.length).value, fill buffer (K.receive 0 buffer.length).data⟩,
      [(.poll ⟨fd, POLLOUT ||| POLLERR ||| POLLHUP, 0⟩ (toInt32 A.val.wirte_timeout), K.poll 0),
        (.recv fd buffer.length flags, K.receive 0 buffer.length)], ⟨0, 1, 1⟩⟩ := by
  unfold recv
  rw [unlessBlocking_emulated]
  rfl

theorem recvfrom_exec : (recvfrom true (some A.val) fd buffer flags).exec K.handle .none =
    ⟨⟨(K.receive 1 buffer.length).value,
        fill (fill buffer (K.receive 0 buffer.length).data) (K.receive 1 buffer.length).data⟩,
      [(.recvfrom fd buffer.length flags, K.receive 0 buffer.length),
        (.poll ⟨fd, POLLIN ||| POLLERR ||| POLLHUP, 0⟩ (toInt32 A.val.wirte_timeout), K.poll 0),
        (.recvfrom fd buffer.length flags, K.receive 1 buffer.length)], ⟨0, 2, 1⟩⟩ := by
  unfold recvfrom
  rw [unlessBlocking_emulated]
  rfl

/-- What the caller of a receiving call is told. -/
def Received.WaitsFor (fd : Int) (timeout : Int) (o : Outcome SysCall Answer Received Calls) : Prop :=
  OnlyAfterWait fd POLLIN timeout o.result.ret o.calls

/-- **`read`** waits as it should, if its `poll` does. -/
theorem read_waits_iff : Received.WaitsFor fd A.val.read_timeout
      ((read true (some A.val) fd buffer).exec K.handle .none) ↔
    0 ≤ (K.poll 0).value ∨ ¬ (K.receive 0 buffer.length).Again := by
  rw [read_exec]
  refine (onlyAfterWait_iff fd [] _ _ _ _ _ _ _).trans ?_
  have hright : (POLLIN ||| POLLERR ||| POLLHUP) &&& (POLLIN ||| POLLOUT) = POLLIN := by decide
  simp [hright]

/-- **`recv`** never does. -/
theorem recv_waits_iff : Received.WaitsFor fd A.val.read_timeout
      ((recv true (some A.val) fd buffer flags).exec K.handle .none) ↔
    ¬ (K.receive 0 buffer.length).Again := by
  rw [recv_exec]
  refine (onlyAfterWait_iff fd [] _ _ _ _ _ _ _).trans ?_
  -- the direction is the other one
  have hwrong : (POLLOUT ||| POLLERR ||| POLLHUP) &&& (POLLIN ||| POLLOUT) ≠ POLLIN := by decide
  simp [hwrong]

/-- **`recvfrom`** does where the two timeouts of the descriptor are the same. -/
theorem recvfrom_waits_iff : Received.WaitsFor fd A.val.read_timeout
      ((recvfrom true (some A.val) fd buffer flags).exec K.handle .none) ↔
    (toInt32 A.val.wirte_timeout = toInt32 A.val.read_timeout ∧ 0 ≤ (K.poll 0).value) ∨
      ¬ (K.receive 1 buffer.length).Again := by
  rw [recvfrom_exec]
  refine (onlyAfterWait_iff fd [(.recvfrom fd buffer.length flags, K.receive 0 buffer.length)]
    _ _ _ _ _ _ _).trans ?_
  have hright : (POLLIN ||| POLLERR ||| POLLHUP) &&& (POLLIN ||| POLLOUT) = POLLIN := by decide
  simp [hright]

/-- **`sendto`** waits as it should, if its `poll` does. -/
theorem sendto_waits_iff (message : Buffer) (dest_addr : List Byte) :
    OnlyAfterWait fd POLLOUT A.val.wirte_timeout
        ((sendto true (some A.val) fd message flags dest_addr).exec K.handle .none).result
        ((sendto true (some A.val) fd message flags dest_addr).exec K.handle .none).calls ↔
      ¬ (K.transmit 0 message.bytes.length).Again ∨ 0 ≤ (K.poll 0).value ∨
        ¬ (K.transmit 1 message.bytes.length).Again := by
  have hfirst : K.handle .none (.sendto fd message.bytes flags dest_addr) =
    (K.transmit 0 message.bytes.length, ⟨1, 0, 0⟩) := rfl
  unfold sendto
  rw [unlessBlocking_emulated, Prog.exec_call hfirst]
  by_cases hagain : (K.transmit 0 message.bytes.length).value < 0 ∧
      (K.transmit 0 message.bytes.length).errno = EAGAIN
  -- it polls for `POLLOUT`, and tries once more
  · have hfirst' : (K.transmit 0 message.bytes.length).Again := hagain
    have hright : (POLLOUT ||| POLLERR ||| POLLHUP) &&& (POLLIN ||| POLLOUT) = POLLOUT := by decide
    rw [if_pos hagain]
    refine (onlyAfterWait_iff fd [_] _ _ _ _ (K.poll 0)
      (K.transmit 1 message.bytes.length) _).trans ?_
    simp [hright, hfirst']
  · rw [if_neg hagain]
    exact iff_of_true
      ((onlyAfterWait_single fd _ _ _ (K.transmit 0 message.bytes.length)).mpr hagain)
      (Or.inl hagain)

/-! ## §3. `write` and `send`. -/

variable {bytes : List Byte} {syscall : List Byte → SysCall} {narrow : Int → Int}

/-- A turn with something left to write. -/
theorem transferTurn_exec (narrow : Int → Int) (hsys : Transmits syscall) (timeout : Int)
    {x : Int × Nat} (hmore : x.2 < bytes.length) (s : Calls) :
    (transferTurn fd syscall narrow timeout bytes x).exec K.handle s =
      ⟨if narrow (K.transmit s.transmits (bytes.length - x.2)).value ≤ 0 then
          .inr (narrow (K.transmit s.transmits (bytes.length - x.2)).value, x.2)
        else .inl (narrow (K.transmit s.transmits (bytes.length - x.2)).value,
          toSizeT (x.2 + narrow (K.transmit s.transmits (bytes.length - x.2)).value)),
        [(.poll ⟨fd, POLLOUT ||| POLLERR ||| POLLHUP, 0⟩ (toInt32 timeout), K.poll s.polls),
          (syscall (bytes.drop x.2), K.transmit s.transmits (bytes.length - x.2))],
        ⟨s.transmits + 1, s.receives, s.polls + 1⟩⟩ := by
  have hcall := hsys.handle K ⟨s.transmits, s.receives, s.polls + 1⟩ (bytes.drop x.2)
  rw [List.length_drop] at hcall
  have hpoll : K.handle s (.poll ⟨fd, POLLOUT ||| POLLERR ||| POLLHUP, 0⟩ (toInt32 timeout)) =
    (K.poll s.polls, ⟨s.transmits, s.receives, s.polls + 1⟩) := rfl
  unfold transferTurn pollOne
  rw [if_pos hmore, Prog.exec_call hpoll, Prog.exec_call hcall]
  dsimp only
  split <;> rfl

/-- A turn with nothing left. -/
theorem transferTurn_exec_done (syscall : List Byte → SysCall) (narrow : Int → Int) (timeout : Int)
    {x : Int × Nat} (hdone : ¬ x.2 < bytes.length) (s : Calls) :
    (transferTurn fd syscall narrow timeout bytes x).exec K.handle s = ⟨.inr x, [], s⟩ := by
  unfold transferTurn
  rw [if_neg hdone]
  rfl

/-- **The two loops do the same**, whatever call they make and wherever they keep its result. -/
theorem transferLoop_same {syscall' : List Byte → SysCall} {narrow' : Int → Int}
    (hsys : Transmits syscall) (hsys' : Transmits syscall') (hfits : Fits narrow)
    (hfits' : Fits narrow') (timeout : Int) : ∀ (fuel : Nat) (x : Int × Nat) (s : Calls),
    ((Prog.loop (transferTurn fd syscall narrow timeout bytes) fuel x).exec K.handle s).result =
      ((Prog.loop (transferTurn fd syscall' narrow' timeout bytes) fuel x).exec K.handle s).result := by
  -- turn by turn: the result fits both variables, so the next state is the same
  intro fuel
  induction fuel with
  | zero => exact fun _ _ => rfl
  | succ fuel ih =>
      intro x s
      by_cases hmore : x.2 < bytes.length
      · have hturn := transferTurn_exec K fd narrow hsys timeout hmore s
        have hturn' := transferTurn_exec K fd narrow' hsys' timeout hmore s
        have hvalid := K.transmitted s.transmits (bytes.length - x.2)
        have hmax : (K.transmit s.transmits (bytes.length - x.2)).value ≤ maxRwCount := by omega
        rw [hfits _ hvalid.1 hmax] at hturn
        rw [hfits' _ hvalid.1 hmax] at hturn'
        by_cases hret : (K.transmit s.transmits (bytes.length - x.2)).value ≤ 0
        · rw [if_pos hret] at hturn hturn'
          rw [Prog.exec_loop_stop fuel (congrArg Outcome.result hturn),
            Prog.exec_loop_stop fuel (congrArg Outcome.result hturn')]
        · rw [if_neg hret] at hturn hturn'
          rw [Prog.exec_loop_go fuel (congrArg Outcome.result hturn),
            Prog.exec_loop_go fuel (congrArg Outcome.result hturn'), hturn, hturn']
          exact ih _ _
      · have hturn := transferTurn_exec_done K fd syscall narrow timeout hmore s
        have hturn' := transferTurn_exec_done K fd syscall' narrow' timeout hmore s
        rw [Prog.exec_loop_stop fuel (congrArg Outcome.result hturn),
          Prog.exec_loop_stop fuel (congrArg Outcome.result hturn')]

variable (buf : Buffer)

/-- Once a byte has been accepted the caller is told a number of bytes. -/
theorem Transferred.pos {r : Int} {cs : List (SysCall × Answer)} (h : Transferred bytes r cs)
    (hsome : accepted cs ≠ []) : 0 < r := by
  by_contra hneg
  exact hsome (h.2 (by omega))

/-- A call that wrote something. -/
theorem accepted_ne_nil {a : Answer} {cs : List (SysCall × Answer)} (op : SysCall)
    (hpos : 0 < a.value) (hle : a.value ≤ op.payload.length) : accepted ((op, a) :: cs) ≠ [] := by
  intro hempty
  -- the accepted bytes begin with those of this call
  have hfirst : op.payload.take a.value.toNat = [] := (List.append_eq_nil_iff.mp hempty).1
  have hlen := congrArg List.length hfirst
  rw [List.length_take] at hlen
  simp only [List.length_nil] at hlen
  omega

/-- **`write`** gives up where its first call fails. -/
theorem write_exec_failed (fuel : Nat) (h : (K.transmit 0 buf.bytes.length).value ≤ 0) :
    (write true (some A.val) fd fuel buf).exec K.handle .none =
      ⟨some (K.transmit 0 buf.bytes.length).value,
        [(.write fd buf.bytes, K.transmit 0 buf.bytes.length)], ⟨1, 0, 0⟩⟩ := by
  have hvalid := K.transmitted 0 buf.bytes.length
  have hnarrow := fits_int (K.transmit 0 buf.bytes.length).value hvalid.1 (by omega)
  have hfirst : K.handle .none (.write fd buf.bytes) =
    (K.transmit 0 buf.bytes.length, ⟨1, 0, 0⟩) := rfl
  unfold write
  rw [Option.getD_some, unlessBlocking_emulated, Prog.exec_call hfirst]
  dsimp only
  rw [hnarrow, if_pos h]
  rfl

/-- Where it does not, it goes into its loop. -/
theorem write_exec_loop (fuel : Nat) (h : 0 < (K.transmit 0 buf.bytes.length).value) :
    ((write true (some A.val) fd fuel buf).exec K.handle .none).result =
      ((Prog.loop (transferTurn fd (.write fd) toInt32 A.val.wirte_timeout buf.bytes) fuel
        ((K.transmit 0 buf.bytes.length).value,
          toSizeT (K.transmit 0 buf.bytes.length).value)).exec K.handle ⟨1, 0, 0⟩).result.map
        transferred := by
  have hvalid := K.transmitted 0 buf.bytes.length
  have hnarrow := fits_int (K.transmit 0 buf.bytes.length).value hvalid.1 (by omega)
  have hfirst : K.handle .none (.write fd buf.bytes) =
    (K.transmit 0 buf.bytes.length, ⟨1, 0, 0⟩) := rfl
  unfold write
  rw [Option.getD_some, unlessBlocking_emulated, Prog.exec_call hfirst]
  dsimp only
  rw [hnarrow, if_neg (by omega), Prog.exec_bind]
  rfl

/-- Then it tells a number of bytes. -/
theorem write_pos {fuel : Nat} (hfuel : buf.bytes.length < fuel)
    (h : 0 < (K.transmit 0 buf.bytes.length).value) :
    ∃ r, ((write true (some A.val) fd fuel buf).exec K.handle .none).result = some r ∧ 0 < r := by
  obtain ⟨r, hr, htrans⟩ := write_spec K fd A buf hfuel .none [] rfl
  refine ⟨r, hr, htrans.pos ?_⟩
  have hvalid := K.transmitted 0 buf.bytes.length
  unfold write
  rw [Option.getD_some, unlessBlocking_emulated,
    Prog.exec_call ((write_transmits fd).handle K .none buf.bytes)]
  refine accepted_ne_nil (.write fd buf.bytes) h ?_
  show (K.transmit 0 buf.bytes.length).value ≤ buf.bytes.length
  omega

/-- **`send`** goes into its loop unless the first call returns 0. -/
theorem send_exec (fuel : Nat) (h : (K.transmit 0 buf.bytes.length).value ≠ 0) {w : Nat}
    (hw : w = if 0 < (K.transmit 0 buf.bytes.length).value then
      toSizeT (K.transmit 0 buf.bytes.length).value else 0) {o : Outcome SysCall Answer _ Calls}
    (ho : o = (Prog.loop (transferTurn fd (.send fd · flags) id A.val.wirte_timeout buf.bytes) fuel
      ((K.transmit 0 buf.bytes.length).value, w)).exec K.handle ⟨1, 0, 0⟩) :
    (send true (some A.val) fd fuel buf flags).exec K.handle .none =
      ⟨o.result.map transferred,
        (.send fd buf.bytes flags, K.transmit 0 buf.bytes.length) :: o.calls, o.final⟩ := by
  have hfirst : K.handle .none (.send fd buf.bytes flags) =
    (K.transmit 0 buf.bytes.length, ⟨1, 0, 0⟩) := rfl
  unfold send
  rw [unlessBlocking_emulated, Prog.exec_call hfirst]
  dsimp only
  rw [if_neg h, ← hw, Prog.exec_bind, ← ho]
  dsimp only [Prog.exec_done]
  rw [List.append_nil]

/-- After a failure nothing has been written. -/
theorem send_exec_neg (fuel : Nat) (h : (K.transmit 0 buf.bytes.length).value < 0)
    {o : Outcome SysCall Answer _ Calls}
    (ho : o = (Prog.loop (transferTurn fd (.send fd · flags) id A.val.wirte_timeout buf.bytes) fuel
      ((K.transmit 0 buf.bytes.length).value, 0)).exec K.handle ⟨1, 0, 0⟩) :
    (send true (some A.val) fd fuel buf flags).exec K.handle .none =
      ⟨o.result.map transferred,
        (.send fd buf.bytes flags, K.transmit 0 buf.bytes.length) :: o.calls, o.final⟩ := by
  have hw : 0 = if 0 < (K.transmit 0 buf.bytes.length).value then
      toSizeT (K.transmit 0 buf.bytes.length).value else 0 := by
    rw [if_neg (by omega)]
  exact send_exec K fd A flags buf fuel (by omega) hw ho

theorem send_exec_zero (fuel : Nat) (h : (K.transmit 0 buf.bytes.length).value = 0) :
    (send true (some A.val) fd fuel buf flags).exec K.handle .none =
      ⟨some (K.transmit 0 buf.bytes.length).value,
        [(.send fd buf.bytes flags, K.transmit 0 buf.bytes.length)], ⟨1, 0, 0⟩⟩ := by
  have hfirst : K.handle .none (.send fd buf.bytes flags) =
    (K.transmit 0 buf.bytes.length, ⟨1, 0, 0⟩) := rfl
  unfold send
  rw [unlessBlocking_emulated, Prog.exec_call hfirst]
  dsimp only
  rw [if_pos h]
  rfl

/-- It ends at once after a failure with nothing to send. -/
theorem send_exec_empty {fuel : Nat} (hfuel : buf.bytes.length < fuel)
    (h : (K.transmit 0 buf.bytes.length).value < 0) (hempty : buf.bytes.length = 0) :
    (send true (some A.val) fd fuel buf flags).exec K.handle .none =
      ⟨some (K.transmit 0 buf.bytes.length).value,
        [(.send fd buf.bytes flags, K.transmit 0 buf.bytes.length)], ⟨1, 0, 0⟩⟩ := by
  obtain ⟨k, hk⟩ : ∃ k, fuel = k + 1 := ⟨fuel - 1, by omega⟩
  have hdone : ¬ ((K.transmit 0 buf.bytes.length).value, 0).2 < buf.bytes.length := by
    rw [hempty]
    exact Nat.lt_irrefl 0
  have hturn := transferTurn_exec_done K fd (.send fd · flags) id A.val.wirte_timeout hdone ⟨1, 0, 0⟩
  rw [send_exec_neg K fd A flags buf fuel h rfl, hk,
    Prog.exec_loop_stop k (congrArg Outcome.result hturn), hturn]
  have hres : transferred ((K.transmit 0 buf.bytes.length).value, 0) =
      (K.transmit 0 buf.bytes.length).value := if_pos ⟨by omega, rfl⟩
  dsimp only [Option.map_some]
  rw [hres]

/-- The turn after a failed first call. -/
theorem send_retry (hmore : 0 < buf.bytes.length) :
    (transferTurn fd (.send fd · flags) id A.val.wirte_timeout buf.bytes
        ((K.transmit 0 buf.bytes.length).value, 0)).exec K.handle ⟨1, 0, 0⟩ =
      ⟨if (K.transmit 1 buf.bytes.length).value ≤ 0 then
          .inr ((K.transmit 1 buf.bytes.length).value, 0)
        else .inl ((K.transmit 1 buf.bytes.length).value,
          toSizeT (0 + (K.transmit 1 buf.bytes.length).value)),
        [(.poll ⟨fd, POLLOUT ||| POLLERR ||| POLLHUP, 0⟩ (toInt32 A.val.wirte_timeout), K.poll 0),
          (.send fd buf.bytes flags, K.transmit 1 buf.bytes.length)], ⟨2, 0, 1⟩⟩ :=
  transferTurn_exec K fd id (send_transmits fd flags) A.val.wirte_timeout hmore ⟨1, 0, 0⟩

/-- It gives up after a second failure. -/
theorem send_exec_failed {fuel : Nat} (hfuel : buf.bytes.length < fuel)
    (h : (K.transmit 0 buf.bytes.length).value < 0) (hmore : 0 < buf.bytes.length)
    (hsecond : (K.transmit 1 buf.bytes.length).value ≤ 0) :
    (send true (some A.val) fd fuel buf flags).exec K.handle .none =
      ⟨some (K.transmit 1 buf.bytes.length).value,
        [(.send fd buf.bytes flags, K.transmit 0 buf.bytes.length),
          (.poll ⟨fd, POLLOUT ||| POLLERR ||| POLLHUP, 0⟩ (toInt32 A.val.wirte_timeout), K.poll 0),
          (.send fd buf.bytes flags, K.transmit 1 buf.bytes.length)], ⟨2, 0, 1⟩⟩ := by
  obtain ⟨k, hk⟩ : ∃ k, fuel = k + 1 := ⟨fuel - 1, by omega⟩
  have hturn := send_retry K fd A flags buf hmore
  rw [if_pos hsecond] at hturn
  rw [send_exec_neg K fd A flags buf fuel h rfl, hk,
    Prog.exec_loop_stop k (congrArg Outcome.result hturn), hturn]
  have hres : transferred ((K.transmit 1 buf.bytes.length).value, 0) =
      (K.transmit 1 buf.bytes.length).value := if_pos ⟨hsecond, rfl⟩
  dsimp only [Option.map_some]
  rw [hres]

/-- Once one of its first two calls has written something, it tells a number of bytes. -/
theorem send_pos {fuel : Nat} (hfuel : buf.bytes.length < fuel)
    (h : 0 < (K.transmit 0 buf.bytes.length).value ∨
      ((K.transmit 0 buf.bytes.length).value < 0 ∧ 0 < buf.bytes.length ∧
        0 < (K.transmit 1 buf.bytes.length).value)) :
    ∃ r, ((send true (some A.val) fd fuel buf flags).exec K.handle .none).result = some r ∧
      0 < r := by
  obtain ⟨r, hr, htrans⟩ := send_spec K fd A buf flags hfuel .none [] rfl
  refine ⟨r, hr, htrans.pos ?_⟩
  have hvalid := K.transmitted 0 buf.bytes.length
  have hvalid' := K.transmitted 1 buf.bytes.length
  have hne : (K.transmit 0 buf.bytes.length).value ≠ 0 := by omega
  rw [send_exec K fd A flags buf fuel hne rfl rfl]
  rcases h with hfirst | ⟨hneg, hmore, hsecond⟩
  · refine accepted_ne_nil (.send fd buf.bytes flags) hfirst ?_
    show (K.transmit 0 buf.bytes.length).value ≤ buf.bytes.length
    omega
  · -- the first turn of the loop
    obtain ⟨k, hk⟩ : ∃ k, fuel = k + 1 := ⟨fuel - 1, by omega⟩
    have hturn := send_retry K fd A flags buf hmore
    rw [if_neg (by omega)] at hturn
    rw [if_neg (by omega), hk, Prog.exec_loop_go k (congrArg Outcome.result hturn), hturn]
    intro hempty
    have hrest := (List.append_eq_nil_iff.mp (List.append_eq_nil_iff.mp hempty).2).2
    refine accepted_ne_nil (.send fd buf.bytes flags) hsecond ?_ hrest
    show (K.transmit 1 buf.bytes.length).value ≤ buf.bytes.length
    omega

/-! ## §4. What the six do. -/

/-- What the caller of `write` or `send` is told. -/
def Transmitted.WaitsFor (fd : Int) (timeout : Int) (o : Outcome SysCall Answer (Option Int) Calls) :
    Prop :=
  ∀ r, o.result = some r → OnlyAfterWait fd POLLOUT timeout r o.calls

/-- A caller who is told a number of bytes is not told `EAGAIN`. -/
theorem waitsFor_of_pos {timeout : Int} {o : Outcome SysCall Answer (Option Int) Calls}
    (h : ∃ r, o.result = some r ∧ 0 < r) : Transmitted.WaitsFor fd timeout o := by
  obtain ⟨r, hr, hpos⟩ := h
  intro r' hr' htells
  rw [hr] at hr'
  have hneg := htells.1
  rw [← Option.some.inj hr'] at hneg
  omega

theorem waitsFor_some (timeout r : Int) (cs : List (SysCall × Answer)) (c : Calls) :
    Transmitted.WaitsFor fd timeout ⟨some r, cs, c⟩ ↔ OnlyAfterWait fd POLLOUT timeout r cs := by
  constructor
  · exact fun h => h r rfl
  · intro h r' hr'
    rw [← Option.some.inj hr']
    exact h

/-- **`write`** does not wait where its first call would block. -/
theorem write_waits_iff {fuel : Nat} (hfuel : buf.bytes.length < fuel) :
    Transmitted.WaitsFor fd A.val.wirte_timeout
        ((write true (some A.val) fd fuel buf).exec K.handle .none) ↔
      ¬ (K.transmit 0 buf.bytes.length).Again := by
  by_cases hfirst : (K.transmit 0 buf.bytes.length).value ≤ 0
  -- there was a single call, and no wait
  · rw [write_exec_failed K fd A buf fuel hfirst, waitsFor_some]
    exact onlyAfterWait_single fd _ _ _ _
  · refine iff_of_true (waitsFor_of_pos fd (write_pos K fd A buf hfuel (by omega))) ?_
    intro hagain
    exact hfirst (Int.le_of_lt hagain.1)

/-- **`send`** does not where there is nothing to send, or its first `poll` does not wait. -/
theorem send_waits_iff {fuel : Nat} (hfuel : buf.bytes.length < fuel) :
    Transmitted.WaitsFor fd A.val.wirte_timeout
        ((send true (some A.val) fd fuel buf flags).exec K.handle .none) ↔
      (buf.bytes.length = 0 → ¬ (K.transmit 0 buf.bytes.length).Again) ∧
      (0 < buf.bytes.length → 0 ≤ (K.transmit 0 buf.bytes.length).value ∨ 0 ≤ (K.poll 0).value ∨
        ¬ (K.transmit 1 buf.bytes.length).Again) := by
  by_cases hneg : (K.transmit 0 buf.bytes.length).value < 0
  · by_cases hmore : 0 < buf.bytes.length
    -- the loop polls before its first turn, whose result is the caller's if it fails
    · have hcond : ((buf.bytes.length = 0 → ¬ (K.transmit 0 buf.bytes.length).Again) ∧
          (0 < buf.bytes.length → 0 ≤ (K.transmit 0 buf.bytes.length).value ∨ 0 ≤ (K.poll 0).value ∨
            ¬ (K.transmit 1 buf.bytes.length).Again)) ↔
          0 ≤ (K.poll 0).value ∨ ¬ (K.transmit 1 buf.bytes.length).Again := by
        constructor
        · exact fun hand => (hand.2 hmore).resolve_left (by omega)
        · exact fun hor => ⟨fun hzero => by omega, fun _ => Or.inr hor⟩
      rw [hcond]
      by_cases hsecond : (K.transmit 1 buf.bytes.length).value ≤ 0
      · rw [send_exec_failed K fd A flags buf hfuel hneg hmore hsecond, waitsFor_some]
        have hright : (POLLOUT ||| POLLERR ||| POLLHUP) &&& (POLLIN ||| POLLOUT) = POLLOUT := by
          decide
        refine (onlyAfterWait_iff fd [(.send fd buf.bytes flags, K.transmit 0 buf.bytes.length)]
          _ _ _ _ _ _ _).trans ?_
        simp [hright]
      · refine iff_of_true (waitsFor_of_pos fd
          (send_pos K fd A flags buf hfuel (Or.inr ⟨hneg, hmore, by omega⟩))) (Or.inr ?_)
        exact fun hagain => hsecond (Int.le_of_lt hagain.1)
    · rw [send_exec_empty K fd A flags buf hfuel hneg (by omega), waitsFor_some]
      refine (onlyAfterWait_single fd _ _ _ _).trans ?_
      constructor
      · exact fun hnot => ⟨fun _ => hnot, fun hpos => absurd hpos hmore⟩
      · exact fun hand => hand.1 (by omega)
  · have hnot : ¬ (K.transmit 0 buf.bytes.length).Again := fun hagain => hneg hagain.1
    refine iff_of_true ?_ ⟨fun _ => hnot, fun _ => Or.inl (by omega)⟩
    by_cases hzero : (K.transmit 0 buf.bytes.length).value = 0
    · rw [send_exec_zero K fd A flags buf fuel hzero, waitsFor_some]
      exact (onlyAfterWait_single fd _ _ _ _).mpr hnot
    · exact waitsFor_of_pos fd (send_pos K fd A flags buf hfuel (Or.inl (by omega)))

/-- **`write` and `send` tell the same** unless the first call fails and a second one would not. -/
theorem write_eq_send_iff {fuel : Nat} (hfuel : buf.bytes.length < fuel) :
    ((write true (some A.val) fd fuel buf).exec K.handle .none).result =
        ((send true (some A.val) fd fuel buf flags).exec K.handle .none).result ↔
      0 ≤ (K.transmit 0 buf.bytes.length).value ∨ buf.bytes.length = 0 ∨
        (K.transmit 1 buf.bytes.length).value < 0 := by
  have hvalid := K.transmitted 0 buf.bytes.length
  have hvalid' := K.transmitted 1 buf.bytes.length
  by_cases hneg : (K.transmit 0 buf.bytes.length).value < 0
  · rw [write_exec_failed K fd A buf fuel (by omega)]
    -- `write` has given up, and `send` tells what its loop makes of it
    by_cases hempty : buf.bytes.length = 0
    · rw [send_exec_empty K fd A flags buf hfuel hneg hempty]
      exact iff_of_true rfl (Or.inr (Or.inl hempty))
    · by_cases hsecond : (K.transmit 1 buf.bytes.length).value ≤ 0
      · rw [send_exec_failed K fd A flags buf hfuel hneg (by omega) hsecond]
        show some _ = some _ ↔ _
        rw [Option.some.injEq]
        omega
      · obtain ⟨r, hr, hpos⟩ :=
          send_pos K fd A flags buf hfuel (Or.inr ⟨hneg, by omega, by omega⟩)
        rw [hr]
        show some _ = some _ ↔ _
        rw [Option.some.injEq]
        omega
  -- nothing failed: both end at once, or go into the same loop
  · refine iff_of_true ?_ (Or.inl (by omega))
    by_cases hzero : (K.transmit 0 buf.bytes.length).value = 0
    · rw [write_exec_failed K fd A buf fuel (by omega), send_exec_zero K fd A flags buf fuel hzero]
    · have hpos : 0 < (K.transmit 0 buf.bytes.length).value := by omega
      rw [write_exec_loop K fd A buf fuel hpos, send_exec K fd A flags buf fuel hzero rfl rfl,
        if_pos hpos]
      exact congrArg _ (transferLoop_same K fd (write_transmits fd) (send_transmits fd flags)
        fits_int fits_ssize _ fuel _ _)

/-- **When a caller gets `EAGAIN` only after a wait**, whatever the kernel and the waits answer: from each of
the six exactly under these conditions, and `write` and `send` tell the same exactly under the last one. -/
theorem again_waits_iff (message : Buffer) (dest_addr : List Byte) {fuel : Nat}
    (hfuel : message.bytes.length < fuel) :
    (Received.WaitsFor fd A.val.read_timeout
        ((read true (some A.val) fd buffer).exec K.handle .none) ↔
      0 ≤ (K.poll 0).value ∨ ¬ (K.receive 0 buffer.length).Again) ∧
    (OnlyAfterWait fd POLLOUT A.val.wirte_timeout
        ((sendto true (some A.val) fd message flags dest_addr).exec K.handle .none).result
        ((sendto true (some A.val) fd message flags dest_addr).exec K.handle .none).calls ↔
      ¬ (K.transmit 0 message.bytes.length).Again ∨ 0 ≤ (K.poll 0).value ∨
        ¬ (K.transmit 1 message.bytes.length).Again) ∧
    (Received.WaitsFor fd A.val.read_timeout
        ((recv true (some A.val) fd buffer flags).exec K.handle .none) ↔
      ¬ (K.receive 0 buffer.length).Again) ∧
    (Received.WaitsFor fd A.val.read_timeout
        ((recvfrom true (some A.val) fd buffer flags).exec K.handle .none) ↔
      (toInt32 A.val.wirte_timeout = toInt32 A.val.read_timeout ∧ 0 ≤ (K.poll 0).value) ∨
        ¬ (K.receive 1 buffer.length).Again) ∧
    (Transmitted.WaitsFor fd A.val.wirte_timeout
        ((write true (some A.val) fd fuel message).exec K.handle .none) ↔
      ¬ (K.transmit 0 message.bytes.length).Again) ∧
    (Transmitted.WaitsFor fd A.val.wirte_timeout
        ((send true (some A.val) fd fuel message flags).exec K.handle .none) ↔
      (message.bytes.length = 0 → ¬ (K.transmit 0 message.bytes.length).Again) ∧
      (0 < message.bytes.length → 0 ≤ (K.transmit 0 message.bytes.length).value ∨
        0 ≤ (K.poll 0).value ∨ ¬ (K.transmit 1 message.bytes.length).Again)) ∧
    (((write true (some A.val) fd fuel message).exec K.handle .none).result =
        ((send true (some A.val) fd fuel message flags).exec K.handle .none).result ↔
      0 ≤ (K.transmit 0 message.bytes.length).value ∨ message.bytes.length = 0 ∨
        (K.transmit 1 message.bytes.length).value < 0) :=
  ⟨read_waits_iff K fd A buffer, sendto_waits_iff K fd A flags message dest_addr,
    recv_waits_iff K fd A buffer flags, recvfrom_waits_iff K fd A buffer flags,
    write_waits_iff K fd A message hfuel, send_waits_iff K fd A flags message hfuel,
    write_eq_send_iff K fd A flags message hfuel⟩

/-- A kernel whose first transmission would block, and the next ones take all. -/
def Kernel.blockedOnce : Kernel where
  transmit i n := if i = 0 then ⟨-1, EAGAIN, []⟩ else ⟨(min n maxRwCount : Nat), 0, []⟩
  receive _ _ := ⟨0, 0, []⟩
  poll _ := ⟨1, 0, []⟩
  transmitted := by
    intro i n
    by_cases hfirst : i = 0
    · rw [if_pos hfirst]
      show (-1 : Int) ≤ -1 ∧ (-1 : Int) ≤ (min n maxRwCount : Nat)
      omega
    · rw [if_neg hfirst]
      show (-1 : Int) ≤ (min n maxRwCount : Nat) ∧
        ((min n maxRwCount : Nat) : Int) ≤ (min n maxRwCount : Nat)
      omega
  received _ n := received_nothing n

/-- `send` of three bytes waits for such a kernel. -/
theorem again_waits_send : Transmitted.WaitsFor 5 Blocking.fresh.val.wirte_timeout
    ((send true (some Blocking.fresh.val) 5 4 .three 0).exec Kernel.blockedOnce.handle .none) :=
  (again_waits_iff Kernel.blockedOnce 5 .fresh [] 0 .three []
    (show Buffer.three.bytes.length < 4 by decide)).2.2.2.2.2.1.mpr
    ⟨fun hzero => absurd hzero (by decide), fun _ => Or.inr (Or.inl (by decide))⟩

/-- A kernel that has nothing to receive, and whose polls are all turned down. -/
def Kernel.refused : Kernel where
  transmit _ _ := ⟨0, 0, []⟩
  receive _ _ := ⟨-1, EAGAIN, []⟩
  poll _ := ⟨-1, 0, []⟩
  transmitted := by
    intro i n
    show (-1 : Int) ≤ 0 ∧ (0 : Int) ≤ (min n maxRwCount : Nat)
    omega
  received := by
    intro i n
    refine ⟨Int.le_refl _, ?_, rfl⟩
    show (-1 : Int) ≤ (min n maxRwCount : Nat)
    omega

/-- `write` gives up at once, where `send` writes all; and `read` does not notice that its `poll` has not
waited. -/
theorem not_again_waits :
    ¬ Transmitted.WaitsFor 5 Blocking.fresh.val.wirte_timeout
      ((write true (some Blocking.fresh.val) 5 4 .three).exec Kernel.blockedOnce.handle .none) ∧
    ((write true (some Blocking.fresh.val) 5 4 .three).exec Kernel.blockedOnce.handle .none).result =
      some (-1) ∧
    ((send true (some Blocking.fresh.val) 5 4 .three 0).exec Kernel.blockedOnce.handle .none).result =
      some 3 ∧
    ¬ Received.WaitsFor 5 Blocking.fresh.val.read_timeout
      ((read true (some Blocking.fresh.val) 5 [0]).exec Kernel.refused.handle .none) := by
  refine ⟨?_, by decide +kernel, by decide +kernel, ?_⟩
  · rw [write_exec_failed Kernel.blockedOnce 5 .fresh .three 4 (by decide), waitsFor_some,
      onlyAfterWait_single]
    exact not_not.mpr (by decide)
  · rw [read_waits_iff Kernel.refused 5 .fresh [0]]
    decide

end RocketCo.Hook
