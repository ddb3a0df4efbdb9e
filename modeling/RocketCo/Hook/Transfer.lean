/-
  RocketCo.Hook.Transfer — the hooked reads and writes as programs over the system's calls.

  A hooked call on a descriptor whose user wants it to block makes the system's call, which does not
  block, and the hooked `poll`, in an order of its own:

      read, recv   — poll, call
      recvfrom     — call, poll, call
      sendto       — call, and after `EAGAIN` poll, call
      write        — call, unless it wrote nothing; then poll, call until all is written
      send         — the same, but after a failure too

  Main result: `write_send_transfer` — `write` and `send` hand the kernel the bytes they say, however it
  cuts them up.
-/
import RocketCo.Lib.Prog
import RocketCo.Hook.Attributes
import RocketCo.Hook.PollMerge
import RocketCo.CoRoutine.Interest

namespace RocketCo.Hook

open RocketCo.Lib
open RocketCo.CoRoutine (Errno toInt32 toInt64 toSizeT toInt64_of_lt)

/-! ## §1. The system's calls. -/

abbrev Byte := BitVec 8

/-- The calls the hooks make, with what they pass. -/
inductive SysCall where
  | read (fd : Int) (nbyte : Nat)
  | recv (fd : Int) (length : Nat) (flags : Int)
  | recvfrom (fd : Int) (length : Nat) (flags : Int)
  | write (fd : Int) (data : List Byte)
  | send (fd : Int) (data : List Byte) (flags : Int)
  | sendto (fd : Int) (data : List Byte) (flags : Int) (dest_addr : List Byte)
  | poll (event : Pollfd) (timeout : Int)

/-- What comes back: the value, `errno` afterwards, and the bytes received. -/
structure Answer where
  value : Int
  errno : Errno
  data : List Byte

abbrev Program (α : Type) := Prog SysCall Answer α

/-- The caller's bytes.  No object is larger than `PTRDIFF_MAX`. -/
structure Buffer where
  bytes : List Byte
  object : bytes.length < 2 ^ 63

/-- What a receiving call leaves its caller: the value, and the buffer. -/
structure Received where
  ret : Int
  buffer : List Byte

/-- Received bytes overwrite the front of the buffer. -/
def fill (buffer data : List Byte) : List Byte := data ++ buffer.drop data.length

/-! ## §2. The functions of the source. -/

/-- What all of them begin with: without a hooked caller, without attributes or with `O_NONBLOCK` in
them, the system's call alone. -/
def unlessBlocking {α : Type} (isHook : Bool) (Attributes : Option FdAttributes) (plain : Program α)
    (emulation : FdAttributes → Program α) : Program α :=
  if isHook then
    match Attributes with
    | none => plain
    | some A => if NonBlock A.fdFlag then plain else emulation A
  else plain

/-- The hooked `poll` of one descriptor; an `int64_t` is passed for the `int`. -/
def pollOne {α : Type} (fd : Int) (events : BitVec 16) (timeout : Int) (next : Program α) :
    Program α :=
  .call (.poll ⟨fd, events, 0⟩ (toInt32 timeout)) fun _ => next

section Wrappers

variable (isHook : Bool) (Attributes : Option FdAttributes) (fd : Int)

/-- A receiving call into the buffer. -/
def receiveInto (syscall : SysCall) (buffer : List Byte) : Program Received :=
  .call syscall fun a => .done ⟨a.value, fill buffer a.data⟩

/-- `read`. -/
def read (buffer : List Byte) : Program Received :=
  unlessBlocking isHook Attributes (receiveInto (.read fd buffer.length) buffer) fun A =>
    pollOne fd (POLLIN ||| POLLERR ||| POLLHUP) A.read_timeout
      (receiveInto (.read fd buffer.length) buffer)

/-- `recv`. -/
def recv (buffer : List Byte) (flags : Int) : Program Received :=
  unlessBlocking isHook Attributes (receiveInto (.recv fd buffer.length flags) buffer) fun A =>
    -- it waits until the socket is writable
    pollOne fd (POLLOUT ||| POLLERR ||| POLLHUP) A.wirte_timeout
      (receiveInto (.recv fd buffer.length flags) buffer)

/-- `recvfrom`. -/
def recvfrom (buffer : List Byte) (flags : Int) : Program Received :=
  unlessBlocking isHook Attributes (receiveInto (.recvfrom fd buffer.length flags) buffer) fun A =>
    -- the result of the first call is not looked at
    .call (.recvfrom fd buffer.length flags) fun first =>
      pollOne fd (POLLIN ||| POLLERR ||| POLLHUP) A.wirte_timeout
        (receiveInto (.recvfrom fd buffer.length flags) (fill buffer first.data))

/-- A call that passes the whole buffer on. -/
def transmitAll (syscall : SysCall) : Program (Option Int) :=
  .call syscall fun a => .done (some a.value)

/-- `sendto`. -/
def sendto (message : Buffer) (flags : Int) (dest_addr : List Byte) : Program Int :=
  unlessBlocking isHook Attributes
    (.call (.sendto fd message.bytes flags dest_addr) fun a => .done a.value) fun A =>
    .call (.sendto fd message.bytes flags dest_addr) fun res =>
      if res.value < 0 ∧ res.errno = CoRoutine.EAGAIN then
        pollOne fd (POLLOUT ||| POLLERR ||| POLLHUP) A.wirte_timeout
          (.call (.sendto fd message.bytes flags dest_addr) fun a => .done a.value)
      else .done res.value

/-- A turn of the loops in `write` and `send`, from the last result and the number of bytes written.
`write` keeps the result in an `int` and `send` in a `ssize_t`, which is what `narrow` says. -/
def transferTurn (syscall : List Byte → SysCall) (narrow : Int → Int) (timeout : Int)
    (bytes : List Byte) (x : Int × Nat) : Program ((Int × Nat) ⊕ (Int × Nat)) :=
  if x.2 < bytes.length then
    pollOne fd (POLLOUT ||| POLLERR ||| POLLHUP) timeout
      (.call (syscall (bytes.drop x.2)) fun a =>
        let ret := narrow a.value
        if ret ≤ 0 then .done (.inr (ret, x.2))
        else .done (.inl (ret, toSizeT (x.2 + ret))))
  else .done (.inr x)

/-- The end of both: the failure if nothing was written, and else the number of bytes. -/
def transferred (x : Int × Nat) : Int := if x.1 ≤ 0 ∧ x.2 = 0 then x.1 else toInt64 x.2

/-- `write`; it makes the attributes it does not find. -/
def write (fuel : Nat) (buf : Buffer) : Program (Option Int) :=
  unlessBlocking isHook (some (Attributes.getD .fresh)) (transmitAll (.write fd buf.bytes)) fun A =>
    .call (.write fd buf.bytes) fun a =>
      -- an `int` holds the `ssize_t`
      let ret := toInt32 a.value
      -- a failure of the first call is returned at once, `EAGAIN` too
      if ret ≤ 0 then .done (some ret)
      else
        (Prog.loop (transferTurn fd (.write fd) toInt32 A.wirte_timeout buf.bytes) fuel
          (ret, toSizeT ret)).bind fun x => .done (x.map transferred)

/-- `send`. -/
def send (fuel : Nat) (buffer : Buffer) (flags : Int) : Program (Option Int) :=
  unlessBlocking isHook Attributes (transmitAll (.send fd buffer.bytes flags)) fun A =>
    .call (.send fd buffer.bytes flags) fun writeret =>
      -- a connection that is cut returns 0
      if writeret.value = 0 then .done (some writeret.value)
      else
        -- after a failure it waits and tries again
        let wrotelen := if 0 < writeret.value then toSizeT writeret.value else 0
        (Prog.loop (transferTurn fd (.send fd · flags) id A.wirte_timeout buffer.bytes) fuel
          (writeret.value, wrotelen)).bind fun x => .done (x.map transferred)

end Wrappers

/-! ## §3. The kernel. -/

/-- The most bytes one call transfers. -/
def maxRwCount : Nat := 0x7ffff000

/-- The results of the kernel and of `poll`, whatever they are: that of the `i`-th transmission, of `n`
bytes, is -1 or a number of bytes up to `n`, and the same for receptions. -/
structure Kernel where
  transmit : Nat → Nat → Answer
  receive : Nat → Nat → Answer
  poll : Nat → Answer
  transmitted : ∀ i n, -1 ≤ (transmit i n).value ∧ (transmit i n).value ≤ (min n maxRwCount : Nat)
  received : ∀ i n, -1 ≤ (receive i n).value ∧ (receive i n).value ≤ (min n maxRwCount : Nat) ∧
    (receive i n).data.length = (receive i n).value.toNat

/-- How many calls of each kind there have been. -/
structure Calls where
  transmits : Nat
  receives : Nat
  polls : Nat

def Calls.none : Calls := ⟨0, 0, 0⟩

def Kernel.handle (K : Kernel) (s : Calls) : SysCall → Answer × Calls
  | .read _ n | .recv _ n _ | .recvfrom _ n _ =>
      (K.receive s.receives n, { s with receives := s.receives + 1 })
  | .write _ data | .send _ data _ | .sendto _ data _ _ =>
      (K.transmit s.transmits data.length, { s with transmits := s.transmits + 1 })
  | .poll _ _ => (K.poll s.polls, { s with polls := s.polls + 1 })

/-- The bytes a call offers the kernel. -/
def SysCall.payload : SysCall → List Byte
  | .write _ data | .send _ data _ | .sendto _ data _ _ => data
  | _ => []

/-- **The bytes the kernel accepted** over all calls, in order. -/
def accepted (calls : List (SysCall × Answer)) : List Byte :=
  calls.flatMap fun x => x.1.payload.take x.2.value.toNat

/-- Bytes are accepted call by call. -/
theorem accepted_append (cs cs' : List (SysCall × Answer)) :
    accepted (cs ++ cs') = accepted cs ++ accepted cs' := List.flatMap_append

/-- Attributes of a descriptor that is to block. -/
def Blocking : Type := { A : FdAttributes // ¬ NonBlock A.fdFlag }

/-- On a descriptor where blocking is emulated the hook goes its own way. -/
theorem unlessBlocking_emulated {α : Type} (A : Blocking) (plain : Program α)
    (emulation : FdAttributes → Program α) :
    unlessBlocking true (some A.val) plain emulation = emulation A.val := by
  unfold unlessBlocking
  rw [if_pos rfl]
  exact if_neg A.property

/-- A system call of `write` or `send`. -/
structure Transmits (syscall : List Byte → SysCall) : Prop where
  payload : ∀ data, (syscall data).payload = data
  handle : ∀ (K : Kernel) s data, K.handle s (syscall data) =
    (K.transmit s.transmits data.length, { s with transmits := s.transmits + 1 })

/-- `write` passes bytes on by `write`, ... -/
theorem write_transmits (fd : Int) : Transmits (.write fd) := ⟨fun _ => rfl, fun _ _ _ => rfl⟩

/-- ... and `send` by `send`, with its flags. -/
theorem send_transmits (fd flags : Int) : Transmits (.send fd · flags) :=
  ⟨fun _ => rfl, fun _ _ _ => rfl⟩

/-- What a result is kept in has room for it. -/
def Fits (narrow : Int → Int) : Prop := ∀ v : Int, -1 ≤ v → v ≤ maxRwCount → narrow v = v

theorem fits_int : Fits toInt32 := by
  intro v hlo hhi
  unfold maxRwCount at hhi
  unfold toInt32
  omega

theorem fits_ssize : Fits id := fun _ _ _ => rfl

/-! ## §4. The loops. -/

variable {bytes : List Byte} {x : Int × Nat} {cs : List (SysCall × Answer)}

/-- **The invariant**: the bytes counted are those accepted, and as long as there are none the last call
failed or wrote nothing. -/
structure Sent (bytes : List Byte) (x : Int × Nat) (cs : List (SysCall × Answer)) : Prop where
  le : x.2 ≤ bytes.length
  bytes : accepted cs = bytes.take x.2
  failed : 0 < x.2 ∨ x.1 ≤ 0

/-- What the caller is told is what the kernel got. -/
def Transferred (bytes : List Byte) (r : Int) (cs : List (SysCall × Answer)) : Prop :=
  (0 < r → r ≤ bytes.length ∧ accepted cs = bytes.take r.toNat) ∧ (r ≤ 0 → accepted cs = [])

/-- A wait transfers nothing. -/
theorem accepted_poll (cs : List (SysCall × Answer)) (event : Pollfd) (timeout : Int) (a : Answer) :
    accepted (cs ++ [(.poll event timeout, a)]) = accepted cs := by
  rw [accepted_append]
  show accepted cs ++ ([].take a.value.toNat ++ []) = accepted cs
  simp

/-- Some bytes behind those that have been accepted. -/
theorem accepted_more {syscall : List Byte → SysCall} (hsys : Transmits syscall) {w : Nat}
    (hacc : accepted cs = bytes.take w) (a : Answer) :
    accepted (cs ++ [(syscall (bytes.drop w), a)]) = bytes.take (w + a.value.toNat) := by
  rw [accepted_append, hacc]
  show bytes.take w ++ ((syscall (bytes.drop w)).payload.take a.value.toNat ++ []) = _
  rw [hsys.payload, List.append_nil, List.take_add]

/-- **A turn** keeps the invariant, and goes on only with more bytes written than before. -/
theorem transferTurn_spec (K : Kernel) {syscall : List Byte → SysCall} {narrow : Int → Int} (fd : Int)
    (timeout : Int) (hsys : Transmits syscall) (hfits : Fits narrow)
    (hobject : bytes.length < 2 ^ 63) (x : Int × Nat) :
    Prog.Ensures K.handle (fun _ cs => Sent bytes x cs)
      (transferTurn fd syscall narrow timeout bytes x)
      (Prog.TurnPost (fun y _ cs => Sent bytes y cs) (fun y => bytes.length - y.2)
        (fun y _ cs => Sent bytes y cs) x) := by
  unfold transferTurn
  by_cases hmore : x.2 < bytes.length
  · rw [if_pos hmore]
    refine Prog.Ensures.call ?_
    intro s cs hsent
    refine Prog.Ensures.call ?_
    intro s' cs' hpoll
    rw [hsys.handle]
    obtain ⟨-, hcs'⟩ := hpoll
    generalize hans : K.transmit s'.transmits (bytes.drop x.2).length = a
    have hvalid := K.transmitted s'.transmits (bytes.drop x.2).length
    rw [hans, List.length_drop] at hvalid
    have hlo : -1 ≤ a.value := hvalid.1
    have hhi : a.value ≤ ((min (bytes.length - x.2) maxRwCount : Nat) : Int) := hvalid.2
    have hmax : a.value ≤ maxRwCount := by omega
    rw [hfits a.value hlo hmax]
    have hacc : accepted cs' = bytes.take x.2 := by
      rw [hcs', accepted_poll]
      exact hsent.bytes
    by_cases hret : a.value ≤ 0
    · -- the loop is left, and the kernel took nothing
      rw [if_pos hret]
      refine Prog.Ensures.done ?_
      intro s'' cs'' hand
      have hnone : a.value.toNat = 0 := by omega
      refine ⟨hsent.le, ?_, Or.inr hret⟩
      rw [hand.2, accepted_more hsys hacc, hnone]
      rfl
    · rw [if_neg hret]
      refine Prog.Ensures.done ?_
      intro s'' cs'' hand
      -- the count stays below the length of the buffer, so nothing overflows
      have hcount : toSizeT (x.2 + a.value) = x.2 + a.value.toNat := by
        unfold toSizeT
        omega
      show Sent bytes (a.value, toSizeT (x.2 + a.value)) cs'' ∧ _ - toSizeT (x.2 + a.value) < _
      rw [hcount]
      refine ⟨⟨?_, ?_, ?_⟩, ?_⟩
      · show x.2 + a.value.toNat ≤ bytes.length
        omega
      · rw [hand.2]
        exact accepted_more hsys hacc a
      · left
        show 0 < x.2 + a.value.toNat
        omega
      · show bytes.length - (x.2 + a.value.toNat) < bytes.length - x.2
        omega
  · rw [if_neg hmore]
    exact Prog.Ensures.done fun _ _ hsent => hsent

/-- **The loop** ends, with the invariant. -/
theorem transferLoop_spec (K : Kernel) {syscall : List Byte → SysCall} {narrow : Int → Int} (fd : Int)
    (timeout : Int) (hsys : Transmits syscall) (hfits : Fits narrow)
    (hobject : bytes.length < 2 ^ 63) {fuel : Nat} (hfuel : bytes.length < fuel) (x : Int × Nat) :
    Prog.Ensures K.handle (fun _ cs => Sent bytes x cs)
      (Prog.loop (transferTurn fd syscall narrow timeout bytes) fuel x) fun r _ cs =>
        ∃ y, r = some y ∧ Sent bytes y cs := by
  have hlt : bytes.length - x.2 < fuel := by omega
  exact Prog.Ensures.loop (fun x => transferTurn_spec K fd timeout hsys hfits hobject x) fuel x hlt

/-- The value returned is the number of bytes, or that of a failure. -/
theorem Sent.transferred (h : Sent bytes x cs) (hobject : bytes.length < 2 ^ 63) :
    Transferred bytes (transferred x) cs := by
  have hle := h.le
  unfold RocketCo.Hook.transferred
  by_cases hfail : x.1 ≤ 0 ∧ x.2 = 0
  · rw [if_pos hfail]
    refine ⟨fun hpos => by omega, fun _ => ?_⟩
    rw [h.bytes, hfail.2]
    rfl
  · rw [if_neg hfail, toInt64_of_lt (by omega)]
    have hpos : 0 < x.2 := by
      have := h.failed
      omega
    refine ⟨fun _ => ⟨by omega, ?_⟩, fun hneg => by omega⟩
    rw [h.bytes]
    rfl

/-- The loop and what follows it. -/
theorem transferEnd_spec (K : Kernel) {syscall : List Byte → SysCall} {narrow : Int → Int} (fd : Int)
    (timeout : Int) (hsys : Transmits syscall) (hfits : Fits narrow)
    (hobject : bytes.length < 2 ^ 63) {fuel : Nat} (hfuel : bytes.length < fuel) (x : Int × Nat) :
    Prog.Ensures K.handle (fun _ cs => Sent bytes x cs)
      ((Prog.loop (transferTurn fd syscall narrow timeout bytes) fuel x).bind fun y =>
        .done (y.map transferred)) fun r _ cs => ∃ v, r = some v ∧ Transferred bytes v cs := by
  refine (transferLoop_spec K fd timeout hsys hfits hobject hfuel x).bind ?_
  intro r
  refine Prog.Ensures.done ?_
  rintro s cs ⟨y, hy, hsent⟩
  rw [hy]
  exact ⟨transferred y, rfl, hsent.transferred hobject⟩

/-! ## §5. `write` and `send`. -/

variable (K : Kernel) (fd : Int) (A : Blocking) (buf : Buffer) (flags : Int)

/-- The first call. -/
theorem first_call {syscall : List Byte → SysCall} (hsys : Transmits syscall) (s : Calls)
    (bytes : List Byte) : ∃ a, K.handle s (syscall bytes) =
        (a, { s with transmits := s.transmits + 1 }) ∧ a = K.transmit s.transmits bytes.length ∧
      -1 ≤ a.value ∧ a.value ≤ bytes.length ∧ a.value ≤ maxRwCount ∧
      accepted [(syscall bytes, a)] = bytes.take a.value.toNat := by
  have hvalid := K.transmitted s.transmits bytes.length
  refine ⟨K.transmit s.transmits bytes.length, hsys.handle K s bytes, rfl, hvalid.1, ?_, ?_, ?_⟩
  · omega
  · omega
  · have hnothing : accepted [] = bytes.take 0 := rfl
    have hmore := accepted_more hsys hnothing (K.transmit s.transmits bytes.length)
    rw [Nat.zero_add] at hmore
    exact hmore

/-- A first call that wrote nothing. -/
theorem Transferred.nothing {r : Int} (h : r ≤ 0) (hacc : accepted cs = bytes.take r.toNat) :
    Transferred bytes r cs := by
  have hnone : r.toNat = 0 := by omega
  refine ⟨fun hpos => by omega, fun _ => ?_⟩
  rw [hacc, hnone]
  rfl

/-- **The hooked `write`**, with enough fuel. -/
theorem write_spec {fuel : Nat} (hfuel : buf.bytes.length < fuel) :
    Prog.Ensures K.handle (fun _ cs => cs = []) (write true (some A.val) fd fuel buf) fun r _ cs =>
      ∃ v, r = some v ∧ Transferred buf.bytes v cs := by
  have hobject := buf.object
  unfold write
  rw [Option.getD_some, unlessBlocking_emulated]
  refine Prog.Ensures.call ?_
  intro s cs hcs
  obtain ⟨a, hhandle, -, hlo, hlen, hmax, hacc⟩ := first_call K (write_transmits fd) s buf.bytes
  rw [hhandle, hcs, List.nil_append]
  dsimp only
  rw [fits_int a.value hlo hmax]
  by_cases hret : a.value ≤ 0
  · rw [if_pos hret]
    refine Prog.Ensures.done ?_
    intro s' cs' hand
    rw [hand.2]
    exact ⟨a.value, rfl, .nothing hret hacc⟩
  · rw [if_neg hret]
    have hcount : toSizeT a.value = a.value.toNat := by
      unfold toSizeT
      omega
    rw [hcount]
    refine (transferEnd_spec K fd _ (write_transmits fd) fits_int hobject hfuel _).mono ?_
      fun _ _ _ h => h
    intro s' cs' hand
    rw [hand.2]
    refine ⟨?_, hacc, Or.inl ?_⟩
    · show a.value.toNat ≤ buf.bytes.length
      omega
    · show 0 < a.value.toNat
      omega

/-- **The hooked `send`**, with enough fuel. -/
theorem send_spec {fuel : Nat} (hfuel : buf.bytes.length < fuel) :
    Prog.Ensures K.handle (fun _ cs => cs = []) (send true (some A.val) fd fuel buf flags)
      fun r _ cs => ∃ v, r = some v ∧ Transferred buf.bytes v cs := by
  have hobject := buf.object
  unfold send
  rw [unlessBlocking_emulated]
  refine Prog.Ensures.call ?_
  intro s cs hcs
  obtain ⟨a, hhandle, -, hlo, hlen, hmax, hacc⟩ := first_call K (send_transmits fd flags) s buf.bytes
  rw [hhandle, hcs, List.nil_append]
  dsimp only
  by_cases hzero : a.value = 0
  · rw [if_pos hzero]
    refine Prog.Ensures.done ?_
    intro s' cs' hand
    rw [hand.2]
    exact ⟨a.value, rfl, .nothing (Int.le_of_eq hzero) hacc⟩
  · rw [if_neg hzero]
    have hcount : (if 0 < a.value then toSizeT a.value else 0) = a.value.toNat := by
      unfold toSizeT
      split <;> omega
    rw [hcount]
    refine (transferEnd_spec K fd _ (send_transmits fd flags) fits_ssize hobject hfuel _).mono ?_
      fun _ _ _ h => h
    intro s' cs' hand
    rw [hand.2]
    refine ⟨?_, hacc, ?_⟩
    · show a.value.toNat ≤ buf.bytes.length
      omega
    · -- after a failure nothing has been written
      show 0 < a.value.toNat ∨ a.value ≤ 0
      omega

/-- **`write` and `send` end, and hand the kernel exactly the bytes they say**, whatever it accepts of
each call and however the waits end. -/
theorem write_send_transfer {fuel : Nat} (hfuel : buf.bytes.length < fuel) :
    (∃ r, ((write true (some A.val) fd fuel buf).exec K.handle .none).result = some r ∧
      Transferred buf.bytes r ((write true (some A.val) fd fuel buf).exec K.handle .none).calls) ∧
    (∃ r, ((send true (some A.val) fd fuel buf flags).exec K.handle .none).result = some r ∧
      Transferred buf.bytes r
        ((send true (some A.val) fd fuel buf flags).exec K.handle .none).calls) :=
  ⟨write_spec K fd A buf hfuel .none [] rfl, send_spec K fd A buf flags hfuel .none [] rfl⟩

/-- A receive that brings nothing is within its bounds. -/
theorem received_nothing (n : Nat) : -1 ≤ (⟨0, 0, []⟩ : Answer).value ∧
    (⟨0, 0, []⟩ : Answer).value ≤ (min n maxRwCount : Nat) ∧
    (⟨0, 0, []⟩ : Answer).data.length = (⟨0, 0, []⟩ : Answer).value.toNat := by
  refine ⟨by decide, ?_, rfl⟩
  show (0 : Int) ≤ (min n maxRwCount : Nat)
  omega

/-- A kernel that takes at most two bytes at a time. -/
def Kernel.slow : Kernel where
  transmit _ n := ⟨(min n 2 : Nat), 0, []⟩
  receive _ _ := ⟨0, 0, []⟩
  poll _ := ⟨1, 0, []⟩
  transmitted := by
    intro i n
    show (-1 : Int) ≤ (min n 2 : Nat) ∧ ((min n 2 : Nat) : Int) ≤ (min n maxRwCount : Nat)
    unfold maxRwCount
    omega
  received _ n := received_nothing n

def Buffer.three : Buffer := ⟨[1, 2, 3], by decide⟩

def Blocking.fresh : Blocking := ⟨.fresh, not_nonBlock_zero⟩

/-- Three bytes in two pieces. -/
theorem write_send_transfer_slow :
    (∃ r, ((write true (some Blocking.fresh.val) 5 4 .three).exec Kernel.slow.handle .none).result =
        some r ∧ Transferred Buffer.three.bytes r
          ((write true (some Blocking.fresh.val) 5 4 .three).exec Kernel.slow.handle .none).calls) ∧
    (∃ r, ((send true (some Blocking.fresh.val) 5 4 .three 0).exec Kernel.slow.handle .none).result =
        some r ∧ Transferred Buffer.three.bytes r
          ((send true (some Blocking.fresh.val) 5 4 .three 0).exec Kernel.slow.handle .none).calls) :=
  write_send_transfer Kernel.slow 5 .fresh .three 0 (show Buffer.three.bytes.length < 4 by decide)

end RocketCo.Hook
