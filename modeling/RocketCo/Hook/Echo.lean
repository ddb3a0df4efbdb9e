/-
  RocketCo.Hook.Echo — what a connection of the echo server gets back.

  For a connection `readwrite_routine` waits, reads into a buffer of its own, and writes back what it has
  read, until a call fails.  It looks at the sign of `write`'s result, and not at how much was written.

      asked not to block   `write` is one call of the system, and the rest of the chunk is dropped
      else                 `write` goes on with the rest, until a call fails

  Main result: `echo_exact` — what goes back is part of what has come, in its order, and all of it exactly
  if the kernel does its share of every write.
-/
import RocketCo.Hook.Transfer
import RocketCo.CoRoutine.EchoServer

namespace RocketCo.Hook

open RocketCo.Lib
open RocketCo.CoRoutine (EAGAIN toInt32 toSizeT setNonBlock setNonBlock_direct accept_other)

/-! ## §1. The inner loop of `readwrite_routine`. -/

/-- The attributes of the descriptor, and the buffer `buf`. -/
structure Echo where
  Attributes : Option FdAttributes
  buf : List Byte

/-- The first `ret` bytes of the buffer, an `int`. -/
def Buffer.front (buf : List Byte) (ret : Int) : Buffer where
  bytes := buf.take (toInt32 ret).toNat
  object := by
    have hlen := List.length_take_le (toInt32 ret).toNat buf
    unfold toInt32 at hlen ⊢
    omega

/-- The test at the end of the body, on the last result and `errno`; behind it stands `close`. -/
def echoNext (ret : Int) (last : Option Answer) (s : Echo) : Echo ⊕ Unit :=
  if 0 < ret ∨ (-1 = ret ∧ last.map Answer.errno = some EAGAIN) then .inl s else .inr ()

/-- The body. -/
def echoRound (fd : Int) (s : Echo) : Program (Echo ⊕ Unit) :=
  -- `Co_poll_inner`, whose result is not looked at
  .call (.poll ⟨fd, POLLIN ||| POLLERR ||| POLLHUP, 0⟩ 1000) fun _ =>
    ((read true s.Attributes fd s.buf).withLast none).bind fun r =>
      let ret := toInt32 r.1.ret
      if 0 < ret then
        let data := Buffer.front r.1.buffer r.1.ret
        ((write true s.Attributes fd (data.bytes.length + 1) data).withLast r.2).bind fun w =>
          -- `write` has made the entry it did not find
          .done (echoNext (toInt32 (w.1.getD 0)) w.2 ⟨some (s.Attributes.getD .fresh), r.1.buffer⟩)
      else .done (echoNext ret r.2 ⟨s.Attributes, r.1.buffer⟩)

/-- The loop. -/
def echoLoop (fd : Int) (rounds : Nat) (s : Echo) : Program (Option Unit) :=
  Prog.loop (echoRound fd) rounds s

/-- Its run. -/
def echoRun (K : Kernel) (fd : Int) (rounds : Nat) (s : Echo) :
    Outcome SysCall Answer (Option Unit) Calls :=
  (echoLoop fd rounds s).exec K.handle .none

/-! ## §2. What is asked. -/

def SysCall.isRead : SysCall → Bool
  | .read _ _ => true
  | _ => false

def SysCall.isWrite : SysCall → Bool
  | .write _ _ => true
  | _ => false

/-- **The bytes that the reads have brought**, in order. -/
def received (calls : List (SysCall × Answer)) : List Byte :=
  calls.flatMap fun x => if x.1.isRead then x.2.data else []

/-- The flags that the hooks go by; `write` makes an entry that is missing. -/
def askedFlags (Attributes : Option FdAttributes) : Flags := (Attributes.getD .fresh).fdFlag

/-- The kernel's share of a write: all of it, or some of it where the hook goes on with the rest. -/
def Taken (flags : Flags) (x : SysCall × Answer) : Prop :=
  x.1.isWrite = true →
    if NonBlock flags then x.2.value = x.1.payload.length else 0 < x.2.value

def Delivered (flags : Flags) (calls : List (SysCall × Answer)) : Prop := ∀ x ∈ calls, Taken flags x

/-- **What goes back**: part of what has come, and all of it exactly if the kernel does its share. -/
structure Echoes (flags : Flags) (calls : List (SysCall × Answer)) : Prop where
  part : (accepted calls).Sublist (received calls)
  all_iff : accepted calls = received calls ↔ Delivered flags calls

/-- The last call failed, and not because it would have had to wait, or found the end of the stream. -/
def GivenUp (calls : List (SysCall × Answer)) : Prop :=
  ∃ op a, calls.getLast? = some (op, a) ∧ a.value ≤ 0 ∧ ¬ (a.value = -1 ∧ a.errno = EAGAIN)

/-! ## §3. The calls. -/

section Calls

variable {flags : Flags} {cs cs' : List (SysCall × Answer)}

/-- Bytes are received call by call. -/
theorem received_append (cs cs' : List (SysCall × Answer)) :
    received (cs ++ cs') = received cs ++ received cs' := List.flatMap_append

/-- A kernel delivers what each part of the calls has for it. -/
theorem delivered_append : Delivered flags (cs ++ cs') ↔ Delivered flags cs ∧ Delivered flags cs' :=
  List.forall_mem_append

/-- **Chunk by chunk**: two parts are all of both only if each is all of its own. -/
theorem Echoes.append (h : Echoes flags cs) (h' : Echoes flags cs') : Echoes flags (cs ++ cs') := by
  have hlen := h.part.length_le
  have hlen' := h'.part.length_le
  constructor
  case part =>
    rw [accepted_append, received_append]
    exact h.part.append h'.part
  case all_iff =>
    rw [delivered_append, ← h.all_iff, ← h'.all_iff, accepted_append, received_append]
    constructor
    · intro heq
      have hsum := congrArg List.length heq
      rw [List.length_append, List.length_append] at hsum
      exact ⟨h.part.eq_of_length (by omega), h'.part.eq_of_length (by omega)⟩
    · rintro ⟨heq, heq'⟩
      rw [heq, heq']

/-- Calls that move nothing. -/
theorem Echoes.of_nothing (hacc : accepted cs = []) (hrec : received cs = [])
    (hdel : Delivered flags cs) : Echoes flags cs := by
  refine ⟨?_, iff_of_true ?_ hdel⟩
  · rw [hacc]
    exact List.nil_sublist _
  · rw [hacc, hrec]

theorem Echoes.nil : Echoes flags [] :=
  .of_nothing rfl rfl fun _ hx => absurd hx List.not_mem_nil

theorem delivered_single {op : SysCall} (a : Answer) (h : op.isWrite = false) :
    Delivered flags [(op, a)] := by
  intro x hx hwrite
  rw [List.mem_singleton.mp hx, h] at hwrite
  cases hwrite

/-- A `poll` moves no bytes. -/
theorem Echoes.poll (event : Pollfd) (timeout : Int) (a : Answer) :
    Echoes flags [(.poll event timeout, a)] :=
  .of_nothing (accepted_poll [] event timeout a) rfl (delivered_single a rfl)

theorem accepted_read (fd : Int) (n : Nat) (a : Answer) : accepted [(.read fd n, a)] = [] := by
  show [].take a.value.toNat ++ [] = []
  simp

theorem received_read (fd : Int) (n : Nat) (a : Answer) : received [(.read fd n, a)] = a.data :=
  List.append_nil _

/-- A read that brings nothing. -/
theorem Echoes.read_nothing (fd : Int) (n : Nat) {a : Answer} (h : a.data = []) :
    Echoes flags [(.read fd n, a)] := by
  refine .of_nothing (accepted_read fd n a) ?_ (delivered_single a rfl)
  rw [received_read, h]

/-- **What a `write` of `bytes` comes to**: a prefix of them has gone out, and all of them exactly if the
kernel did its share; a result that is not positive is that of its only call. -/
structure Written (flags : Flags) (bytes : List Byte) (r : Option Int) (cs : List (SysCall × Answer)) :
    Prop where
  ends : ∃ v, r = some v ∧ -1 ≤ v ∧ v ≤ bytes.length
  front : accepted cs <+: bytes
  unread : received cs = []
  whole : accepted cs = bytes ↔ Delivered flags cs
  fails : ∀ v, r = some v → v ≤ 0 → ∃ op a, cs = [(op, a)] ∧ a.value = v

/-- **A chunk**: what a read has brought, and what `write` makes of it. -/
theorem Written.echoes {r : Option Int} {fd : Int} {n : Nat} {a : Answer}
    (h : Written flags a.data r cs) : Echoes flags ([(.read fd n, a)] ++ cs) := by
  have hacc : accepted ([(.read fd n, a)] ++ cs) = accepted cs := by
    rw [accepted_append, accepted_read, List.nil_append]
  have hrec : received ([(.read fd n, a)] ++ cs) = a.data := by
    rw [received_append, received_read, h.unread, List.append_nil]
  constructor
  case part =>
    rw [hacc, hrec]
    exact h.front.sublist
  case all_iff =>
    rw [hacc, hrec, delivered_append, h.whole]
    exact ⟨fun hdel => ⟨delivered_single a rfl, hdel⟩, fun hand => hand.2⟩

end Calls

/-! ## §4. `write`. -/

section Write

variable (K : Kernel) (fd : Int) {flags : Flags} {bytes : List Byte} {cs : List (SysCall × Answer)}

/-- The calls of a `write` of which none has failed. -/
structure Unbroken (flags : Flags) (cs : List (SysCall × Answer)) : Prop where
  unread : received cs = []
  moved : accepted cs ≠ []
  delivered : Delivered flags cs

/-- Behind the loop, with `wrotelen` bytes written of `n`. -/
structure Broken (flags : Flags) (n wrotelen : Nat) (cs : List (SysCall × Answer)) : Prop where
  unread : received cs = []
  moved : accepted cs ≠ []
  whole : Delivered flags cs ↔ n ≤ wrotelen

theorem delivered_write (hblock : ¬ NonBlock flags) (data : List Byte) (a : Answer) :
    Delivered flags [(.write fd data, a)] ↔ 0 < a.value := by
  unfold Delivered Taken
  rw [List.forall_mem_singleton, if_neg hblock]
  exact ⟨fun h => h rfl, fun h _ => h⟩

/-- A wait and a write behind them. -/
theorem unbroken_more (h : Unbroken flags cs) (event : Pollfd) (timeout : Int) (b : Answer)
    (data : List Byte) (a : Answer) :
    received (cs ++ [(.poll event timeout, b)] ++ [(.write fd data, a)]) = [] ∧
      accepted (cs ++ [(.poll event timeout, b)] ++ [(.write fd data, a)]) ≠ [] ∧
      (Delivered flags (cs ++ [(.poll event timeout, b)] ++ [(.write fd data, a)]) ↔
        Delivered flags [(.write fd data, a)]) := by
  refine ⟨?_, ?_, ?_⟩
  · rw [received_append, received_append, h.unread]
    rfl
  · rw [accepted_append, accepted_poll]
    exact List.append_ne_nil_of_left_ne_nil h.moved _
  · rw [delivered_append, delivered_append]
    exact ⟨fun hand => hand.2, fun hw => ⟨⟨h.delivered, delivered_single b rfl⟩, hw⟩⟩

/-- **A turn** of `write`'s loop. -/
theorem transferTurn_unbroken (bytes : List Byte) (hblock : ¬ NonBlock flags) (timeout : Int)
    (x : Int × Nat) :
    Prog.Ensures K.handle (fun _ cs => Unbroken flags cs)
      (transferTurn fd (.write fd) toInt32 timeout bytes x)
      (Prog.TurnKeeps (fun _ _ cs => Unbroken flags cs)
        fun y _ cs => Broken flags bytes.length y.2 cs) := by
  unfold transferTurn
  by_cases hmore : x.2 < bytes.length
  · rw [if_pos hmore]
    refine Prog.Ensures.call ?_
    intro s cs hunbroken
    refine Prog.Ensures.call ?_
    intro s' cs' hpoll
    obtain ⟨a, hhandle, -, hlo, -, hmax, -⟩ :=
      first_call K (write_transmits fd) s' (bytes.drop x.2)
    rw [hhandle, hpoll.2]
    dsimp only
    rw [fits_int a.value hlo hmax]
    obtain ⟨hunread, hmoved, hdel⟩ := unbroken_more fd hunbroken
      ⟨fd, POLLOUT ||| POLLERR ||| POLLHUP, 0⟩ (toInt32 timeout) _ (bytes.drop x.2) a
    rw [delivered_write fd hblock] at hdel
    by_cases hret : a.value ≤ 0
    · -- the call that failed ends the loop before all is written
      rw [if_pos hret]
      refine Prog.Ensures.done ?_
      intro s'' cs'' hand
      rw [hand.2]
      refine ⟨hunread, hmoved, ?_⟩
      rw [hdel]
      show 0 < a.value ↔ bytes.length ≤ x.2
      omega
    · rw [if_neg hret]
      refine Prog.Ensures.done ?_
      intro s'' cs'' hand
      rw [hand.2]
      exact ⟨hunread, hmoved, hdel.mpr (by omega)⟩
  · rw [if_neg hmore]
    refine Prog.Ensures.done ?_
    intro s cs hunbroken
    refine ⟨hunbroken.unread, hunbroken.moved, iff_of_true hunbroken.delivered ?_⟩
    show bytes.length ≤ x.2
    omega

/-- **The loop**, and what follows it. -/
theorem transferEnd_written (hblock : ¬ NonBlock flags) (timeout : Int)
    (hobject : bytes.length < 2 ^ 63) (x : Int × Nat) :
    Prog.Ensures K.handle (fun _ cs => Sent bytes x cs ∧ Unbroken flags cs)
      ((Prog.loop (transferTurn fd (.write fd) toInt32 timeout bytes) (bytes.length + 1) x).bind
        fun y => .done (y.map transferred)) fun r _ cs => Written flags bytes r cs := by
  have hsent := transferLoop_spec K fd timeout (write_transmits fd) fits_int hobject
    (Nat.lt_succ_self bytes.length) x
  have hturns := Prog.Ensures.loop_turns
    (fun y => transferTurn_unbroken K fd bytes hblock timeout y) (bytes.length + 1) x
  refine (hsent.and hturns).bind ?_
  intro r
  refine Prog.Ensures.done ?_
  rintro s cs ⟨⟨y, hy, hend⟩, hbroken⟩
  rw [hy] at hbroken ⊢
  have hle := hend.le
  have htold := hend.transferred hobject
  have hmoved : accepted cs ≠ [] := hbroken.moved
  have hpositive : 0 < transferred y := by
    by_contra hnot
    exact hmoved (htold.2 (by omega))
  constructor
  case ends => exact ⟨transferred y, rfl, by omega, (htold.1 hpositive).1⟩
  case front =>
    rw [hend.bytes]
    exact List.take_prefix y.2 bytes
  case unread => exact hbroken.unread
  case whole =>
    rw [hend.bytes, hbroken.whole]
    exact List.take_eq_self_iff bytes
  case fails =>
    intro v hv hneg
    have hv' : transferred y = v := Option.some.inj hv
    omega

/-- A `write` of one call. -/
theorem written_single (hpos : 0 < bytes.length) {a : Answer} (hlo : -1 ≤ a.value)
    (hlen : a.value ≤ bytes.length)
    (hacc : accepted [(.write fd bytes, a)] = bytes.take a.value.toNat)
    (hdel : Delivered flags [(.write fd bytes, a)] ↔ a.value = bytes.length) :
    Written flags bytes (some a.value) [(.write fd bytes, a)] := by
  constructor
  case ends => exact ⟨a.value, rfl, hlo, hlen⟩
  case front =>
    rw [hacc]
    exact List.take_prefix _ _
  case unread => rfl
  case whole =>
    rw [hacc, hdel, List.take_eq_self_iff]
    omega
  case fails =>
    intro v hv hneg
    exact ⟨.write fd bytes, a, rfl, Option.some.inj hv⟩

/-- **`write`**, of something. -/
theorem write_written (Attributes : Option FdAttributes) (buf : Buffer)
    (hpos : 0 < buf.bytes.length) :
    Prog.Ensures K.handle (fun _ cs => cs = [])
      (write true Attributes fd (buf.bytes.length + 1) buf) fun r _ cs =>
        Written (askedFlags Attributes) buf.bytes r cs := by
  -- a user who wants no blocking gets the system's write
  by_cases hflag : NonBlock (askedFlags Attributes)
  · have hplain : write true Attributes fd (buf.bytes.length + 1) buf =
        transmitAll (.write fd buf.bytes) := by
      unfold write unlessBlocking
      rw [if_pos rfl]
      exact if_pos hflag
    rw [hplain]
    refine Prog.Ensures.call ?_
    intro s cs hcs
    obtain ⟨a, hhandle, -, hlo, hlen, -, hacc⟩ := first_call K (write_transmits fd) s buf.bytes
    rw [hhandle, hcs, List.nil_append]
    refine Prog.Ensures.done ?_
    intro s' cs' hand
    rw [hand.2]
    refine written_single fd hpos hlo hlen hacc ?_
    unfold Delivered Taken
    rw [List.forall_mem_singleton, if_pos hflag]
    exact ⟨fun h => h rfl, fun h _ => h⟩
  · obtain ⟨A, hA⟩ : ∃ A : Blocking, A.val = Attributes.getD .fresh := ⟨⟨_, hflag⟩, rfl⟩
    unfold write
    rw [← hA, unlessBlocking_emulated]
    refine Prog.Ensures.call ?_
    intro s cs hcs
    obtain ⟨a, hhandle, -, hlo, hlen, hmax, hacc⟩ := first_call K (write_transmits fd) s buf.bytes
    have hdel := delivered_write fd hflag buf.bytes a
    rw [hhandle, hcs, List.nil_append]
    dsimp only
    rw [fits_int a.value hlo hmax]
    -- `ret <= 0` is handed on at once, also when it is EAGAIN
    by_cases hret : a.value ≤ 0
    · rw [if_pos hret]
      refine Prog.Ensures.done ?_
      intro s' cs' hand
      rw [hand.2]
      refine written_single fd hpos hlo hlen hacc ?_
      rw [hdel]
      omega
    · rw [if_neg hret]
      have hobject := buf.object
      have hcount : toSizeT a.value = a.value.toNat := by
        unfold toSizeT
        omega
      rw [hcount]
      refine (transferEnd_written K fd hflag _ hobject _).mono ?_
        fun _ _ _ h => h
      intro s' cs' hand
      rw [hand.2]
      refine ⟨⟨?_, hacc, Or.inl ?_⟩, rfl, ?_, hdel.mpr (by omega)⟩
      · show a.value.toNat ≤ buf.bytes.length
        omega
      · show 0 < a.value.toNat
        omega
      · -- the first call has moved something
        intro hnil
        have hlength := congrArg List.length (hacc.symm.trans hnil)
        rw [List.length_take, List.length_nil] at hlength
        omega

end Write

/-! ## §5. A round. -/

section Round

variable (K : Kernel) (fd : Int) {flags : Flags}

/-- **What a `read` comes to**: perhaps a wait, and one call that brings `a`. -/
structure Brought (flags : Flags) (n : Nat) (buf : List Byte) (r : Received)
    (cs : List (SysCall × Answer)) : Prop where
  calls : ∃ waits a, cs = waits ++ [(.read fd n, a)] ∧ Echoes flags waits ∧
    r = ⟨a.value, fill buf a.data⟩ ∧ -1 ≤ a.value ∧ a.value ≤ (maxRwCount : Int) ∧
    a.data.length = a.value.toNat

/-- **The hooked `read`** brings what its last call received, or nothing. -/
theorem read_brought (flags : Flags) (Attributes : Option FdAttributes) (buf : List Byte) :
    Prog.Ensures K.handle (fun _ cs => cs = []) (read true Attributes fd buf) fun r _ cs =>
      Brought fd flags buf.length buf r cs := by
  -- the call itself, behind whatever waits there were
  have hcall : Prog.Ensures K.handle (fun _ cs => Echoes flags cs)
      (receiveInto (.read fd buf.length) buf) fun r _ cs => Brought fd flags buf.length buf r cs := by
    refine Prog.Ensures.call ?_
    intro s waits hwaits
    refine Prog.Ensures.done ?_
    intro s' cs' hand
    have hvalid := K.received s.receives buf.length
    have hmax : (K.receive s.receives buf.length).value ≤ maxRwCount := by omega
    exact ⟨waits, K.receive s.receives buf.length, hand.2, hwaits, rfl, hvalid.1, hmax, hvalid.2.2⟩
  have hplain : Prog.Ensures K.handle (fun _ cs => cs = [])
      (receiveInto (.read fd buf.length) buf) fun r _ cs =>
        Brought fd flags buf.length buf r cs := by
    refine hcall.mono ?_ fun _ _ _ h => h
    intro s cs hcs
    rw [hcs]
    exact .nil
  unfold read unlessBlocking
  rw [if_pos rfl]
  cases Attributes with
  | none => exact hplain
  | some A =>
      dsimp only
      split
      · exact hplain
      · refine Prog.Ensures.call ?_
        intro s cs hcs
        refine hcall.mono ?_ fun _ _ _ h => h
        intro s' cs' hand
        rw [hand.2, hcs]
        exact .poll _ _ _

/-- The chunk that `write` is given is what has been read. -/
theorem front_fill {a : Answer} (buf : List Byte) (hpos : 0 < a.value)
    (hmax : a.value ≤ (maxRwCount : Int)) (hdata : a.data.length = a.value.toNat) :
    (Buffer.front (fill buf a.data) a.value).bytes = a.data := by
  have hfits : toInt32 a.value = a.value := fits_int a.value (by omega) hmax
  show (a.data ++ buf.drop a.data.length).take (toInt32 a.value).toNat = a.data
  rw [hfits, ← hdata, List.take_left]

/-- **The end of the body**: the loop goes on, or the last call is one behind which it gives up. -/
theorem echoNext_keeps {ret : Int} {last : Option Answer} {s : Echo} {c : Calls}
    {cs : List (SysCall × Answer)} (hechoes : Echoes flags cs) (hflags : askedFlags s.Attributes = flags)
    (hlast : ret ≤ 0 → ∃ op a, cs.getLast? = some (op, a) ∧ last = some a ∧ a.value = ret) :
    Prog.TurnKeeps (fun s _ cs => Echoes flags cs ∧ askedFlags s.Attributes = flags)
      (fun _ _ cs => Echoes flags cs ∧ GivenUp cs) (echoNext ret last s) c cs := by
  unfold echoNext
  by_cases hgo : 0 < ret ∨ (-1 = ret ∧ last.map Answer.errno = some EAGAIN)
  · rw [if_pos hgo]
    exact ⟨hechoes, hflags⟩
  · rw [if_neg hgo]
    obtain ⟨hnot, hagain⟩ := not_or.mp hgo
    obtain ⟨op, a, hcs, hans, hvalue⟩ := hlast (by omega)
    refine ⟨hechoes, op, a, hcs, by omega, ?_⟩
    rintro ⟨hminus, herrno⟩
    refine hagain ⟨by omega, ?_⟩
    rw [hans, ← herrno]
    rfl

/-- **A round** adds a chunk, or ends the loop. -/
theorem echoRound_spec (flags : Flags) (s : Echo) :
    Prog.Ensures K.handle (fun _ cs => Echoes flags cs ∧ askedFlags s.Attributes = flags)
      (echoRound fd s)
      (Prog.TurnKeeps (fun s _ cs => Echoes flags cs ∧ askedFlags s.Attributes = flags)
        fun _ _ cs => Echoes flags cs ∧ GivenUp cs) := by
  unfold echoRound
  refine Prog.Ensures.call ?_
  intro c cs hinv
  have hflags := hinv.2
  have hread := ((read_brought K fd flags s.Attributes s.buf).withLast none).frame
    (F := Echoes flags)
  refine (hread.mono ?_ fun _ _ _ h => h).bind ?_
  · intro c' cs' hand
    rw [hand.2]
    exact hinv.1.append (.poll _ _ _)
  intro r
  dsimp only
  by_cases hpos : 0 < toInt32 r.1.ret
  · rw [if_pos hpos]
    refine Prog.Ensures.given ?_
    rintro c' cs' ⟨before, own, hcs', hbefore, hbrought, -⟩
    obtain ⟨waits, a, hown, hwaits, hret, hlo, hmax, hdata⟩ := hbrought.calls
    rw [hret, fits_int a.value hlo hmax] at hpos
    rw [hret]
    dsimp only
    have hfront := front_fill s.buf hpos hmax hdata
    have hchunk : 0 < (Buffer.front (fill s.buf a.data) a.value).bytes.length := by
      rw [hfront]
      omega
    -- what `read` has put into the buffer is what `write` gets
    have hwrite := ((write_written K fd s.Attributes _ hchunk).withLast r.2).frame (F := (· = cs'))
    rw [hfront, hflags] at hwrite
    rw [hfront]
    refine (hwrite.mono (fun _ _ hand => hand.2) fun _ _ _ h => h).bind ?_
    intro w
    refine Prog.Ensures.done ?_
    rintro c'' cs'' ⟨_, written, hcs'', rfl, hwritten, hw⟩
    obtain ⟨v, hv, hvlo, hvhi⟩ := hwritten.ends
    have hfits : toInt32 v = v := fits_int v hvlo (by omega)
    rw [hv, Option.getD_some, hfits]
    refine echoNext_keeps ?_ hflags ?_
    · rw [hcs'', hcs', hown, List.append_assoc, List.append_assoc]
      exact hbefore.append (hwaits.append hwritten.echoes)
    · intro hneg
      obtain ⟨op, b, hsingle, hb⟩ := hwritten.fails v hv hneg
      rw [hcs'', hw, hsingle, List.getLast?_concat]
      exact ⟨op, b, rfl, rfl, hb⟩
  · rw [if_neg hpos]
    refine Prog.Ensures.done ?_
    rintro c' cs' ⟨before, own, hcs', hbefore, hbrought, hr⟩
    obtain ⟨waits, a, hown, hwaits, hret, hlo, hmax, hdata⟩ := hbrought.calls
    rw [hret, fits_int a.value hlo hmax] at hpos ⊢
    have hlast : own.getLast? = some (.read fd s.buf.length, a) := by
      rw [hown]
      exact List.getLast?_concat
    -- a read without success brings nothing to echo
    have hnone : a.data = [] := List.eq_nil_of_length_eq_zero (by omega)
    refine echoNext_keeps ?_ hflags ?_
    · rw [hcs', hown]
      exact hbefore.append (hwaits.append (.read_nothing fd _ hnone))
    · intro _
      rw [hcs', List.getLast?_append, hlast, hr, hlast]
      exact ⟨.read fd s.buf.length, a, rfl, rfl, rfl⟩

end Round

/-! ## §6. The loop. -/

section Loop

variable (K : Kernel) (fd : Int) (s : Echo) (rounds : Nat)

theorem echoRun_spec : Echoes (askedFlags s.Attributes) (echoRun K fd rounds s).calls ∧
    ((echoRun K fd rounds s).result = some () → GivenUp (echoRun K fd rounds s).calls) := by
  generalize ho : echoRun K fd rounds s = o
  have hrun := Prog.Ensures.loop_turns (echoRound_spec K fd (askedFlags s.Attributes))
    rounds s .none [] ⟨.nil, rfl⟩
  have hexec : (Prog.loop (echoRound fd) rounds s).exec K.handle .none = o := ho
  rw [List.nil_append, hexec] at hrun
  cases hresult : o.result with
  | none =>
      rw [hresult] at hrun
      obtain ⟨s', hechoes, -⟩ := hrun
      exact ⟨hechoes, fun hend => by cases hend⟩
  | some u =>
      rw [hresult] at hrun
      exact ⟨hrun.1, fun _ => hrun.2⟩

/-- **What a connection gets back**, after any number of rounds and whatever the kernel does: part of what
it has sent, in its order, and all of it exactly if the kernel does its share of every write.  The loop
ends, and the descriptor is closed, only behind the end of the stream or a failure other than `EAGAIN`. -/
theorem echo_exact :
    (accepted (echoRun K fd rounds s).calls).Sublist (received (echoRun K fd rounds s).calls) ∧
    (accepted (echoRun K fd rounds s).calls = received (echoRun K fd rounds s).calls ↔
      Delivered (askedFlags s.Attributes) (echoRun K fd rounds s).calls) ∧
    ((echoRun K fd rounds s).result = some () → GivenUp (echoRun K fd rounds s).calls) := by
  obtain ⟨hechoes, hend⟩ := echoRun_spec K fd s rounds
  exact ⟨hechoes.part, hechoes.all_iff, hend⟩

/-- Behind `AcceptFd2Attributes` and `SetNonBlock` the hooks take the descriptor for one that is not to
block. -/
theorem asked_accepted {table accepted table' : FdTable} (h0 : 0 ≤ fd)
    (hfree : table.kernel fd = none) (haccept : table.acceptFd2Attributes fd = some accepted)
    (hset : setNonBlock accepted true fd = some table') :
    NonBlock (askedFlags (table'.Fd2Attributes fd)) := by
  have hopen := (accept_other h0 hfree haccept).2
  obtain ⟨-, ⟨A, hA, hflag⟩, -⟩ := setNonBlock_direct h0 hopen hset
  unfold askedFlags
  rw [hA]
  exact hflag

/-- **In the server**: whatever a write leaves over is lost to the client. -/
theorem server_loses_iff {table accepted' table' : FdTable} (buf : List Byte) (h0 : 0 ≤ fd)
    (hfree : table.kernel fd = none) (haccept : table.acceptFd2Attributes fd = some accepted')
    (hset : setNonBlock accepted' true fd = some table') :
    accepted (echoRun K fd rounds ⟨table'.Fd2Attributes fd, buf⟩).calls =
        received (echoRun K fd rounds ⟨table'.Fd2Attributes fd, buf⟩).calls ↔
      ∀ x ∈ (echoRun K fd rounds ⟨table'.Fd2Attributes fd, buf⟩).calls,
        x.1.isWrite = true → x.2.value = x.1.payload.length := by
  have hflags := asked_accepted fd h0 hfree haccept hset
  have hechoes := (echoRun_spec K fd ⟨table'.Fd2Attributes fd, buf⟩ rounds).1
  rw [hechoes.all_iff]
  unfold Delivered Taken
  simp only [if_pos hflags]

end Loop

/-- The client sends three bytes at a time, and the kernel takes two. -/
def Kernel.short : Kernel where
  transmit _ n := ⟨(min n 2 : Nat), 0, []⟩
  receive _ n := ⟨(min n 3 : Nat), 0, List.replicate (min n 3) 7⟩
  poll _ := ⟨1, 0, []⟩
  transmitted := Kernel.slow.transmitted
  received := by
    intro i n
    show (-1 : Int) ≤ (min n 3 : Nat) ∧ ((min n 3 : Nat) : Int) ≤ (min n maxRwCount : Nat) ∧ _
    unfold maxRwCount
    refine ⟨by omega, by omega, ?_⟩
    rw [List.length_replicate]
    rfl

/-- Asked not to block the server loses the third byte of each chunk; else the hook writes it too. -/
example :
    accepted (echoRun .short 5 2 ⟨some { FdAttributes.fresh with fdFlag := O_NONBLOCK },
      [0, 0, 0, 0]⟩).calls = [7, 7, 7, 7] ∧
    accepted (echoRun .short 5 2 ⟨some .fresh, [0, 0, 0, 0]⟩).calls = [7, 7, 7, 7, 7, 7] := by
  decide +kernel

end RocketCo.Hook
