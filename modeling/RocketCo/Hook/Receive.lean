/-
  RocketCo.Hook.Receive — does a hooked receive lose anything?

  The kernel keeps what has arrived for a descriptor, and each receive removes from it: a datagram, of
  which the caller gets what fits, or the next bytes of a stream.  More may arrive before every call.

    • `read` and `recv` receive once, after the wait, and hand over what they remove,
    • `recvfrom` receives before the wait too, and forgets what it got.

  Main result: `receive_exact_iff`.
-/
import RocketCo.Hook.Transfer

namespace RocketCo.Hook

open RocketCo.Lib
open RocketCo.CoRoutine (Errno EAGAIN)

/-! ## §1. The receive queue. -/

/-- What waits in the kernel: datagrams, or the bytes of a stream and whether its end has come. -/
inductive Queue where
  | datagrams (waiting : List (List Byte))
  | stream (waiting : List Byte) (closed : Bool)

namespace Queue

def isStream : Queue → Bool
  | datagrams _ => false
  | stream _ _ => true

/-- What arrives goes to the end; behind the end of a stream nothing does. -/
def arrive (pieces : List (List Byte)) (close : Bool) : Queue → Queue
  | datagrams ds => datagrams (ds ++ pieces)
  | stream bytes closed => stream (if closed then bytes else bytes ++ pieces.flatten) (closed || close)

/-- The next datagram, or up to `k` bytes of the stream. -/
def remove (k : Nat) : Queue → Option (List Byte × Queue)
  | datagrams [] => none
  | datagrams (d :: ds) => some (d, datagrams ds)
  | stream [] _ => none
  | stream (b :: bytes) closed => some ((b :: bytes).take k, stream ((b :: bytes).drop k) closed)

/-- The answer when there is nothing to remove: the end of the stream, or `EAGAIN`. -/
def nothing : Queue → Answer
  | stream _ true => ⟨0, 0, []⟩
  | _ => ⟨-1, EAGAIN, []⟩

/-- Something waits. -/
def Waiting : Queue → Prop
  | datagrams ds => ds ≠ []
  | stream bytes _ => bytes ≠ []

/-- A receive of `n` bytes would remove something. -/
def Gives (n : Nat) (Q : Queue) : Prop := Q.Waiting ∧ (Q.isStream = true → n ≠ 0)

end Queue

/-- What happens around the calls: what arrives before the `i`-th one, whether the stream ends there,
whether a receive fails all the same, how many bytes of a stream it takes (one more than `chunk`, if
there is room), and how the other calls are answered. -/
structure Peer where
  arrives : Nat → List (List Byte)
  closes : Nat → Bool
  fault : Nat → Option Errno
  chunk : Nat → Nat
  answer : Nat → Answer

/-- The queue, the number of calls so far, and **what they have removed**. -/
structure Inbox where
  queue : Queue
  calls : Nat
  removed : List (List Byte)

def Inbox.start (Q : Queue) : Inbox := ⟨Q, 0, []⟩

namespace Peer

variable (P : Peer)

/-- The queue as a call finds it. -/
def found (s : Inbox) : Queue := s.queue.arrive (P.arrives s.calls) (P.closes s.calls)

/-- Behind a call that removes nothing. -/
def passed (s : Inbox) : Inbox := ⟨P.found s, s.calls + 1, s.removed⟩

/-- A receive of up to `n` bytes; what does not fit of a datagram is gone. -/
def receive (s : Inbox) (n : Nat) : Answer × Inbox :=
  match P.fault s.calls with
  | some errno => (⟨-1, errno, []⟩, P.passed s)
  -- how much of a stream comes at once is up to the kernel
  | none =>
      match (P.found s).remove (min n (P.chunk s.calls + 1)) with
      | none => ((P.found s).nothing, P.passed s)
      | some (piece, rest) =>
          (⟨(piece.take n).length, 0, piece.take n⟩, ⟨rest, s.calls + 1, s.removed ++ [piece]⟩)

def handle (s : Inbox) : SysCall → Answer × Inbox
  -- a `read` of no bytes does not look at the socket
  | .read _ n => if n = 0 then (⟨0, 0, []⟩, P.passed s) else P.receive s n
  | .recv _ n _ | .recvfrom _ n _ => P.receive s n
  | .write _ _ | .send _ _ _ | .sendto _ _ _ _ | .poll _ _ => (P.answer s.calls, P.passed s)

end Peer

/-! ## §2. What is asked. -/

/-- **The caller gets what was removed**: the bytes of a stream, or the one datagram, as far as it fits
into the buffer of `n` bytes; without a datagram he gets none. -/
def Exact (isStream : Bool) (n : Nat) (r : Received) (removed : List (List Byte)) : Prop :=
  if isStream then removed.flatten = r.buffer.take r.ret.toNat
  else (removed = [] ∧ r.ret ≤ 0) ∨
    ∃ d, removed = [d] ∧ r.ret = (d.take n).length ∧ r.buffer.take r.ret.toNat = d.take n

/-- The same of a run on the queue `Q`. -/
def Received.Exact (Q : Queue) (n : Nat) (o : Outcome SysCall Answer Received Inbox) : Prop :=
  RocketCo.Hook.Exact Q.isStream n o.result o.final.removed

/-! ## §3. One receive. -/

/-- **What a receive does**: it gives nothing, or removes a piece and hands over what fits. -/
inductive Reception (isStream : Bool) (n : Nat) : Answer → List (List Byte) → Prop where
  | nothing {a : Answer} (value : a.value ≤ 0) (data : a.data = []) : Reception isStream n a []
  | piece {a : Answer} (p : List Byte) (value : a.value = (p.take n).length) (data : a.data = p.take n)
      (fits : isStream = true → p.length ≤ n) : Reception isStream n a [p]

variable (P : Peer) (s : Inbox) (n : Nat)

/-- What arrives does not change the kind of the socket. -/
theorem isStream_arrive (pieces : List (List Byte)) (close : Bool) (Q : Queue) :
    (Q.arrive pieces close).isStream = Q.isStream := by
  cases Q <;> rfl

theorem isStream_found : (P.found s).isStream = s.queue.isStream := isStream_arrive _ _ _

/-- What is removed of a stream is as long as asked for, and not empty unless that is. -/
theorem remove_stream {Q rest : Queue} {k : Nat} {p : List Byte} (h : Q.remove k = some (p, rest))
    (hQ : Q.isStream = true) : p.length ≤ k ∧ (k ≠ 0 → p ≠ []) := by
  cases Q with
  | datagrams ds => cases hQ
  | stream bytes closed =>
      cases bytes with
      | nil => cases h
      | cons b bytes =>
          have hp : (b :: bytes).take k = p := (Prod.mk.inj (Option.some.inj h)).1
          rw [← hp]
          refine ⟨List.length_take_le _ _, ?_⟩
          intro hk
          cases k with
          | zero => exact absurd rfl hk
          | succ k => exact List.cons_ne_nil _ _

theorem isStream_remove {Q rest : Queue} {k : Nat} {p : List Byte} (h : Q.remove k = some (p, rest)) :
    rest.isStream = Q.isStream := by
  cases Q with
  | datagrams ds =>
      cases ds with
      | nil => cases h
      | cons d ds =>
          rw [← (Prod.mk.inj (Option.some.inj h)).2]
          rfl
  | stream bytes closed =>
      cases bytes with
      | nil => cases h
      | cons b bytes =>
          rw [← (Prod.mk.inj (Option.some.inj h)).2]
          rfl

/-- A receive would block exactly if nothing waits. -/
theorem remove_eq_none_iff (Q : Queue) (k : Nat) : Q.remove k = none ↔ ¬ Q.Waiting := by
  cases Q with
  | datagrams ds => cases ds <;> simp [Queue.remove, Queue.Waiting]
  | stream bytes closed => cases bytes <;> simp [Queue.remove, Queue.Waiting]

theorem nothing_value (Q : Queue) : Q.nothing.value ≤ 0 ∧ Q.nothing.data = [] ∧
    (Q.isStream = false → Q.nothing.value < 0) := by
  cases Q with
  | datagrams ds => exact ⟨show (-1 : Int) ≤ 0 by decide, rfl, fun _ => show (-1 : Int) < 0 by decide⟩
  | stream bytes closed =>
      cases closed with
      | false => exact ⟨show (-1 : Int) ≤ 0 by decide, rfl, fun h => by cases h⟩
      | true => exact ⟨Int.le_refl 0, rfl, fun h => by cases h⟩

/-- **A receive that gives nothing**: it fails, or nothing waits. -/
theorem receive_nothing (h : P.fault s.calls ≠ none ∨ ¬ (P.found s).Waiting) :
    ∃ a, P.receive s n = (a, P.passed s) ∧ a.value ≤ 0 ∧ a.data = [] ∧
      (s.queue.isStream = false → a.value < 0) := by
  unfold Peer.receive
  cases hfault : P.fault s.calls with
  | some errno => exact ⟨⟨-1, errno, []⟩, rfl, show (-1 : Int) ≤ 0 by decide, rfl,
      fun _ => show (-1 : Int) < 0 by decide⟩
  | none =>
      -- nothing waits, so there is nothing to remove
      have hnone := (remove_eq_none_iff (P.found s) (min n (P.chunk s.calls + 1))).mpr
        (h.resolve_left fun hne => hne hfault)
      have hvalue := nothing_value (P.found s)
      rw [isStream_found] at hvalue
      dsimp only
      rw [hnone]
      exact ⟨(P.found s).nothing, rfl, hvalue⟩

/-- **A receive that removes a piece.** -/
theorem receive_piece (hfault : P.fault s.calls = none) (h : (P.found s).Waiting) :
    ∃ p rest, P.receive s n = (⟨(p.take n).length, 0, p.take n⟩,
        ⟨rest, s.calls + 1, s.removed ++ [p]⟩) ∧ rest.isStream = s.queue.isStream ∧
      (s.queue.isStream = true → p.length ≤ n ∧ (n ≠ 0 → p ≠ [])) := by
  cases hremove : (P.found s).remove (min n (P.chunk s.calls + 1)) with
  | none => exact absurd h ((remove_eq_none_iff _ _).mp hremove)
  | some r =>
      obtain ⟨p, rest⟩ := r
      have hstream := isStream_remove hremove
      rw [isStream_found] at hstream
      refine ⟨p, rest, ?_, hstream, ?_⟩
      · unfold Peer.receive
        rw [hfault]
        dsimp only
        rw [hremove]
      · intro hQ
        have hpiece := remove_stream hremove (by rw [isStream_found]; exact hQ)
        refine ⟨by omega, fun hn => hpiece.2 (by omega)⟩

/-- Every receive is one or the other. -/
theorem receive_spec : ∃ pieces, (P.receive s n).2.removed = s.removed ++ pieces ∧
    (P.receive s n).2.queue.isStream = s.queue.isStream ∧
    Reception s.queue.isStream n (P.receive s n).1 pieces ∧
    (s.queue.isStream = false → pieces = [] → (P.receive s n).1.value < 0) := by
  by_cases h : P.fault s.calls ≠ none ∨ ¬ (P.found s).Waiting
  · obtain ⟨a, ha, hvalue, hdata, hagain⟩ := receive_nothing P s n h
    rw [ha]
    exact ⟨[], (List.append_nil _).symm, isStream_found P s, .nothing hvalue hdata,
      fun hQ _ => hagain hQ⟩
  · have hboth := not_or.mp h
    obtain ⟨p, rest, hp, hrest, hfits⟩ :=
      receive_piece P s n (not_not.mp hboth.1) (not_not.mp hboth.2)
    rw [hp]
    exact ⟨[p], rfl, hrest, .piece p rfl rfl fun hQ => (hfits hQ).1, fun _ hnil => by cases hnil⟩

/-- What is filled in stands at the front. -/
theorem take_fill (buffer data : List Byte) : (fill buffer data).take data.length = data := by
  unfold fill
  rw [List.take_append_of_le_length (Nat.le_refl _), List.take_length]

/-- **One receive into the buffer is exact.** -/
theorem Reception.exact {isStream : Bool} {n : Nat} {a : Answer} {pieces : List (List Byte)}
    (h : Reception isStream n a pieces) (buffer : List Byte) :
    Exact isStream n ⟨a.value, fill buffer a.data⟩ pieces := by
  unfold RocketCo.Hook.Exact
  cases h with
  | nothing value data =>
      -- no piece, and no bytes in the buffer
      have hnone : a.value.toNat = 0 := by omega
      split
      · show [] = (fill buffer a.data).take a.value.toNat
        rw [hnone]
        rfl
      · exact Or.inl ⟨rfl, value⟩
  | piece p value data fits =>
      have hlen : a.value.toNat = (p.take n).length := by omega
      have htake : (fill buffer a.data).take a.value.toNat = p.take n := by
        rw [hlen, data]
        exact take_fill buffer (p.take n)
      split
      · next hstream =>
          show [p].flatten = (fill buffer a.data).take a.value.toNat
          rw [htake, List.take_of_length_le (fits hstream)]
          simp
      · exact Or.inr ⟨p, rfl, value, htake⟩

/-! ## §4. The three calls. -/

variable (Q : Queue) (fd : Int) (A : Blocking) (buffer : List Byte) (flags : Int)

/-- A call that receives nothing removes nothing. -/
theorem handle_poll (event : Pollfd) (timeout : Int) :
    P.handle s (.poll event timeout) = (P.answer s.calls, P.passed s) := rfl

/-- A receive behind a wait, from the start. -/
theorem receive_passed_exact :
    Exact Q.isStream n
      ⟨(P.receive (P.passed (.start Q)) n).1.value,
        fill buffer (P.receive (P.passed (.start Q)) n).1.data⟩
      (P.receive (P.passed (.start Q)) n).2.removed := by
  obtain ⟨pieces, hremoved, -, hreception, -⟩ := receive_spec P (P.passed (.start Q)) n
  have hstream : (P.passed (.start Q)).queue.isStream = Q.isStream := isStream_found P (.start Q)
  have hnone : (P.passed (.start Q)).removed = [] := rfl
  rw [hstream] at hreception
  rw [hnone, List.nil_append] at hremoved
  rw [hremoved]
  exact hreception.exact buffer

/-- **`read`** is exact, ... -/
theorem read_exact : Received.Exact Q buffer.length
    ((read true (some A.val) fd buffer).exec P.handle (.start Q)) := by
  unfold read pollOne receiveInto
  rw [unlessBlocking_emulated, Prog.exec_call (handle_poll P _ _ _)]
  by_cases hzero : buffer.length = 0
  · have hread : P.handle (P.passed (.start Q)) (.read fd buffer.length) =
        (⟨0, 0, []⟩, P.passed (P.passed (.start Q))) := if_pos hzero
    rw [Prog.exec_call hread]
    have hnothing : Reception Q.isStream buffer.length ⟨0, 0, []⟩ [] := .nothing (by decide) rfl
    exact hnothing.exact buffer
  · have hread : P.handle (P.passed (.start Q)) (.read fd buffer.length) =
        P.receive (P.passed (.start Q)) buffer.length := if_neg hzero
    rw [Prog.exec_call hread]
    exact receive_passed_exact P buffer.length Q buffer

/-- ... so is **`recv`** ... -/
theorem recv_exact : Received.Exact Q buffer.length
    ((recv true (some A.val) fd buffer flags).exec P.handle (.start Q)) := by
  have hrecv : P.handle (P.passed (.start Q)) (.recv fd buffer.length flags) =
    P.receive (P.passed (.start Q)) buffer.length := rfl
  unfold recv pollOne receiveInto
  rw [unlessBlocking_emulated, Prog.exec_call (handle_poll P _ _ _), Prog.exec_call hrecv]
  exact receive_passed_exact P buffer.length Q buffer

/-- **`recvfrom`**: two receives around the wait, and the caller gets what the second one handed over. -/
theorem recvfrom_run {o : Outcome SysCall Answer Received Inbox}
    (ho : o = (recvfrom true (some A.val) fd buffer flags).exec P.handle (.start Q)) :
    ∃ a before pieces, o.result = ⟨a.value, fill before a.data⟩ ∧
      o.final.removed = (P.receive (.start Q) buffer.length).2.removed ++ pieces ∧
      Reception Q.isStream buffer.length a pieces ∧
      (Q.isStream = false → pieces = [] → a.value < 0) := by
  generalize hfirst : P.receive (.start Q) buffer.length = r
  have hstream : r.2.queue.isStream = Q.isStream := by
    obtain ⟨_, _, hsame, _⟩ := receive_spec P (.start Q) buffer.length
    rw [hfirst] at hsame
    exact hsame
  -- the second receive starts from whatever the first one and the wait have left
  obtain ⟨pieces, hremoved, -, hreception, hagain⟩ := receive_spec P (P.passed r.2) buffer.length
  generalize hsecond : P.receive (P.passed r.2) buffer.length = r' at hremoved hreception hagain
  have hcall : P.handle (.start Q) (.recvfrom fd buffer.length flags) = (r.1, r.2) := hfirst
  have hcall' : P.handle (P.passed r.2) (.recvfrom fd buffer.length flags) = (r'.1, r'.2) := hsecond
  have hkind : (P.passed r.2).queue.isStream = Q.isStream := (isStream_found P r.2).trans hstream
  rw [hkind] at hreception hagain
  unfold recvfrom pollOne receiveInto at ho
  rw [unlessBlocking_emulated, Prog.exec_call hcall, Prog.exec_call (handle_poll P _ _ _),
    Prog.exec_call hcall'] at ho
  rw [ho]
  exact ⟨r'.1, fill buffer r.1.data, pieces, rfl, hremoved, hreception, hagain⟩

/-- The first receive of a call finds nothing it could remove. -/
def NothingYet : Prop := P.fault 0 ≠ none ∨ ¬ (P.found (.start Q)).Gives n

/-- Two pieces are not what one receive hands over. -/
theorem Reception.not_exact {isStream : Bool} {n : Nat} {a : Answer} {pieces : List (List Byte)}
    (h : Reception isStream n a pieces) (hagain : isStream = false → pieces = [] → a.value < 0)
    {first : List Byte} (hfirst : isStream = true → first ≠ []) (buffer : List Byte) :
    ¬ Exact isStream n ⟨a.value, fill buffer a.data⟩ (first :: pieces) := by
  have hexact := h.exact buffer
  unfold RocketCo.Hook.Exact at hexact ⊢
  cases isStream with
  | true =>
      -- the bytes removed before are in front of those handed over
      rw [if_pos rfl] at hexact ⊢
      intro heq
      rw [List.flatten_cons, ← hexact] at heq
      have hlen := congrArg List.length heq
      rw [List.length_append] at hlen
      exact hfirst rfl (List.eq_nil_of_length_eq_zero (by omega))
  | false =>
      rw [if_neg (by decide)]
      rintro (⟨hnone, -⟩ | ⟨d, hone, hret, -⟩)
      · cases hnone
      -- the second receive found no datagram, so its value is negative
      · have hneg := hagain rfl (List.cons.inj hone).2
        dsimp only at hret
        omega

/-- Nor does a piece without a byte of a stream change them. -/
theorem Exact.cons_nil {n : Nat} {r : Received} {pieces : List (List Byte)}
    (h : Exact true n r pieces) : Exact true n r ([] :: pieces) := by
  unfold RocketCo.Hook.Exact at h ⊢
  rw [if_pos rfl] at h ⊢
  rw [List.flatten_cons, List.nil_append]
  exact h

theorem recvfrom_exact_iff : Received.Exact Q buffer.length
      ((recvfrom true (some A.val) fd buffer flags).exec P.handle (.start Q)) ↔
    NothingYet P buffer.length Q := by
  obtain ⟨a, before, pieces, hresult, hremoved, hreception, hagain⟩ := recvfrom_run P Q fd A buffer flags rfl
  unfold Received.Exact NothingYet
  rw [hresult, hremoved]
  by_cases hnothing : P.fault 0 ≠ none ∨ ¬ (P.found (.start Q)).Waiting
  · -- the first receive gives nothing, so the second one is the only one
    obtain ⟨first, hfirst, -⟩ := receive_nothing P (.start Q) buffer.length hnothing
    rw [hfirst]
    refine iff_of_true (hreception.exact before) ?_
    exact hnothing.imp_right fun hnot hgives => hnot hgives.1
  · obtain ⟨hfault, hwaiting⟩ := not_or.mp hnothing
    rw [not_not] at hfault hwaiting
    obtain ⟨p, rest, hpiece, -, hfits⟩ := receive_piece P (.start Q) buffer.length hfault hwaiting
    rw [hpiece]
    by_cases hroom : Q.isStream = true ∧ buffer.length = 0
    · -- a stream gives no bytes to an empty buffer
      have hempty : p = [] := List.eq_nil_of_length_eq_zero (by have := (hfits hroom.1).1; omega)
      have hexact := hreception.exact before
      rw [hroom.1] at hexact ⊢
      rw [hempty]
      refine iff_of_true hexact.cons_nil (Or.inr ?_)
      intro hgives
      exact hgives.2 ((isStream_found P (.start Q)).trans hroom.1) hroom.2
    · refine iff_of_false (hreception.not_exact hagain ?_ before) ?_
      · intro hstream
        exact (hfits hstream).2 fun hzero => hroom ⟨hstream, hzero⟩
      · rintro (hne | hnot)
        · exact hne hfault
        · refine hnot ⟨hwaiting, ?_⟩
          rw [isStream_found]
          exact fun hstream hzero => hroom ⟨hstream, hzero⟩

/-- **What the hooked receives lose.**  `read` and `recv` remove what they hand over, whatever has arrived
by then and however the wait ends; `recvfrom` does only if its first receive finds nothing. -/
theorem receive_exact_iff :
    Received.Exact Q buffer.length
      ((read true (some A.val) fd buffer).exec P.handle (.start Q)) ∧
    Received.Exact Q buffer.length
      ((recv true (some A.val) fd buffer 0).exec P.handle (.start Q)) ∧
    (Received.Exact Q buffer.length
        ((recvfrom true (some A.val) fd buffer 0).exec P.handle (.start Q)) ↔
      NothingYet P buffer.length Q) :=
  ⟨read_exact P Q fd A buffer, recv_exact P Q fd A buffer 0, recvfrom_exact_iff P Q fd A buffer 0⟩

/-- Nothing arrives any more, and no call fails. -/
def Peer.silent : Peer := ⟨fun _ => [], fun _ => false, fun _ => none, fun _ => 0, fun _ => ⟨0, 0, []⟩⟩

/-- A datagram that waits is gone after `recvfrom`, whose caller is told that there is none. -/
theorem not_receive_exact :
    ((recvfrom true (some Blocking.fresh.val) 5 [0, 0, 0, 0] 0).exec Peer.silent.handle
      (.start (.datagrams [[7]]))).result.ret = -1 ∧
    ((recvfrom true (some Blocking.fresh.val) 5 [0, 0, 0, 0] 0).exec Peer.silent.handle
      (.start (.datagrams [[7]]))).final.removed = [[7]] ∧
    ¬ Received.Exact (.datagrams [[7]]) 4
      ((recvfrom true (some Blocking.fresh.val) 5 [0, 0, 0, 0] 0).exec Peer.silent.handle
        (.start (.datagrams [[7]]))) := by
  refine ⟨by decide +kernel, by decide +kernel, ?_⟩
  intro hexact
  have hwaiting : NothingYet Peer.silent 4 (.datagrams [[7]]) :=
    (recvfrom_exact_iff Peer.silent (.datagrams [[7]]) 5 .fresh [0, 0, 0, 0] 0).mp hexact
  rcases hwaiting with hfault | hnot
  · exact hfault rfl
  · exact hnot ⟨List.cons_ne_nil _ _, fun hstream => by cases hstream⟩

end RocketCo.Hook
