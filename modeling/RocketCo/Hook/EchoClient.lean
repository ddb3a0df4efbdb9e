/-
  RocketCo.Hook.EchoClient — the descriptors of the echo client.

  `readwrite_routine` of the client makes a connection when it has none, sends eight bytes and reads an
  answer, again and again; when a call fails it closes the descriptor, calls `AddFailCnt`, and begins anew.
  It does not look at what `socket` returns.

  Main result: `client_descriptors` — exactly as long as no `socket` fails, every call is made on the one
  descriptor that is open; and `AddFailCnt` is called as often as a descriptor is closed.  What `AddFailCnt`
  does with the call (it starts from 0 in each second) is left out.
-/
import RocketCo.Hook.Connect

namespace RocketCo.Hook

open RocketCo.Lib
open RocketCo.CoRoutine (Errno toInt32 toSizeT)

/-! ## §1. The routine. -/

def EALREADY : Errno := 114

def PF_INET : Int := 2

/-- The calls of `readwrite_routine`, and those the hooks make for it. -/
inductive ClientCall where
  | socket
  | getfl (fd : Int)
  | setfl (fd : Int) (flag : Flags)
  | connect (call : ConnectCall)
  | sys (call : SysCall)
  /-- `Co_poll_inner`. -/
  | poll (event : Pollfd) (timeout : Int)
  | getsockopt (fd : Int)
  | close (fd : Int)
  | AddSuccCnt
  | AddFailCnt

/-- What comes back; `entry` is what the table has at the index that `socket` returns. -/
structure ClientAnswer where
  value : Int
  errno : Errno
  revents : BitVec 16
  err : Errno
  data : List Byte
  flags : Flags
  entry : Option FdAttributes

def ClientAnswer.connect (a : ClientAnswer) : ConnectAnswer := ⟨a.value, a.errno, a.revents, a.err⟩

def ClientAnswer.sys (a : ClientAnswer) : Answer := ⟨a.value, a.errno, a.data⟩

abbrev Clients (α : Type) := Prog ClientCall ClientAnswer α

/-- The variables of the routine, and the attributes of its descriptor. -/
structure Client where
  fd : Int
  Attributes : Option FdAttributes
  buf : List Byte

/-- `"sarlmol"`, with the 0 at its end. -/
def clientStr : Buffer where
  bytes := [0x73, 0x61, 0x72, 0x6c, 0x6d, 0x6f, 0x6c, 0x00]
  object := by decide

/-- The hooked `socket`. -/
def clientSocket (c : Client) : Clients Client :=
  .call .socket fun a =>
    if a.value < 0 then .done { c with fd := a.value, Attributes := a.entry }
    else
      let A := { a.entry.getD .fresh with domain := PF_INET }
      .call (.getfl a.value) fun g =>
        -- the hooked `fcntl` keeps what it was asked for
        .call (.setfl a.value (g.flags ||| O_NONBLOCK)) fun r =>
          .done { c with
            fd := a.value
            Attributes := some (if r.value = 0 then { A with fdFlag := g.flags } else A) }

/-- `close(fd); fd = -1; AddFailCnt();` -/
def giveUp (c : Client) : Clients (Client ⊕ Empty) :=
  .call (.close c.fd) fun _ => .call .AddFailCnt fun _ => .done (.inl { c with fd := -1 })

/-- The part with a connection: `str` is sent, and an answer is read. -/
def exchange (c : Client) : Clients (Client ⊕ Empty) :=
  ((write true c.Attributes c.fd (clientStr.bytes.length + 1) clientStr).lift .sys ClientAnswer.sys).bind fun w =>
    let c := { c with Attributes := some (c.Attributes.getD .fresh) }
    if 0 < toInt32 (w.getD 0) then
      ((read true c.Attributes c.fd c.buf).lift .sys ClientAnswer.sys).bind fun r =>
        let c := { c with buf := r.buffer }
        if toInt32 r.ret ≤ 0 then giveUp c else .call .AddSuccCnt fun _ => .done (.inl c)
    else giveUp c

/-- The test behind `connect`, on the `errno` it leaves. -/
def checked (c : Client) (errno : Errno) : Clients (Client ⊕ Empty) :=
  if errno = EALREADY ∨ errno = EINPROGRESS then
    .call (.poll (pollEvent c.fd) 200) fun _ =>
      .call (.getsockopt c.fd) fun a =>
        if a.value = -1 then giveUp c
        else if a.err ≠ 0 then giveUp c
        else exchange c
  else exchange c

/-- The hooked `connect`; `addr` is a `sockaddr_in`. -/
def connected (addr : BitVec 128) (c : Client) : Clients (Client ⊕ Empty) :=
  ((connect true c.Attributes c.fd addr 16).lift .connect ClientAnswer.connect).bind fun r =>
    checked { c with Attributes := r.Attributes } r.errno

/-- The body of the loop. -/
def clientRound (addr : BitVec 128) (c : Client) : Clients (Client ⊕ Empty) :=
  if c.fd < 0 then (clientSocket c).bind (connected addr) else exchange c

/-- The loop, which does not end; `buf` is not initialised. -/
def clientLoop (addr : BitVec 128) (buf : List Byte) (rounds : Nat) : Clients (Option Empty) :=
  Prog.loop (clientRound addr) rounds ⟨-1, none, buf⟩

/-! ## §2. What is asked. -/

/-- The descriptor that a call inside a hook is made on. -/
def SysCall.fd : SysCall → Int
  | .read fd _ | .recv fd _ _ | .recvfrom fd _ _ | .write fd _ | .send fd _ _ | .sendto fd _ _ _ => fd
  | .poll event _ => event.fd

def ConnectCall.fd : ConnectCall → Int
  | .connect fd | .getsockopt fd => fd
  | .poll event _ => event.fd

/-- The descriptor that a call works on; `socket` and `close` are not here. -/
def ClientCall.uses : ClientCall → Option Int
  | .getfl fd | .setfl fd _ | .getsockopt fd => some fd
  | .poll event _ => some event.fd
  | .connect call => some call.fd
  | .sys call => some call.fd
  | .socket | .close _ | .AddSuccCnt | .AddFailCnt => none

/-- What the calls so far come to: there is no descriptor, or one, or a call was made on another. -/
inductive Descriptor where
  | closed
  | opened (fd : Int)
  | misused
  deriving DecidableEq

/-- One call more. -/
def Descriptor.next (d : Descriptor) (x : ClientCall × ClientAnswer) : Descriptor :=
  match x.1 with
  | .AddSuccCnt | .AddFailCnt => d
  | .socket =>
      if d = .closed then (if 0 ≤ x.2.value then .opened x.2.value else .closed) else .misused
  | .close fd => if d = .opened fd then .closed else .misused
  | op => if op.uses.map .opened = some d then d else .misused

abbrev ClientCalls := List (ClientCall × ClientAnswer)

def descriptor (cs : ClientCalls) : Descriptor := cs.foldl Descriptor.next .closed

def SocketsOpened (cs : ClientCalls) : Prop := ∀ x ∈ cs, x.1 = .socket → 0 ≤ x.2.value

def ClientCall.isClose : ClientCall → Bool
  | .close _ => true
  | _ => false

def ClientCall.isFailure : ClientCall → Bool
  | .AddFailCnt => true
  | _ => false

/-- `AddFailCnt` is called as often as a descriptor is closed. -/
def Balanced (cs : ClientCalls) : Prop :=
  cs.countP (fun x => x.1.isFailure) = cs.countP fun x => x.1.isClose

/-! ## §3. Whatever is kept by the calls. -/

variable {σ : Type} {handle : σ → ClientCall → ClientAnswer × σ} {J : Int → ClientCalls → Prop}
  {K : ClientCalls → Prop} {c : Client} {cs : ClientCalls}

/-- `J` is kept with a descriptor, and giving it up leads to `K`. -/
structure Kept (J : Int → ClientCalls → Prop) (K : ClientCalls → Prop) : Prop where
  uses : ∀ fd cs op a, op.uses = some fd → J fd cs → J fd (cs ++ [(op, a)])
  success : ∀ fd cs a, J fd cs → J fd (cs ++ [(.AddSuccCnt, a)])
  failure : ∀ fd cs a a', J fd cs → K (cs ++ [(.close fd, a)] ++ [(.AddFailCnt, a')])

/-- Behind a round with the descriptor `fd`: it is still there, or it was given up. -/
def RoundPost (J : Int → ClientCalls → Prop) (K : ClientCalls → Prop) (fd : Int)
    (r : Client ⊕ Empty) (cs : ClientCalls) : Prop :=
  ∃ c, r = .inl c ∧ (c.fd = fd ∧ J fd cs ∨ c.fd = -1 ∧ K cs)

/-- `close` and `AddFailCnt` end the turn without a descriptor. -/
theorem giveUp_kept (h : Kept J K) {fd : Int} (hfd : c.fd = fd) :
    Prog.Ensures handle (fun _ cs => J fd cs) (giveUp c) fun r _ cs => RoundPost J K fd r cs := by
  rw [← hfd]
  refine Prog.Ensures.call ?_
  intro s cs hJ
  refine Prog.Ensures.call ?_
  rintro s' cs' ⟨-, heq⟩
  refine Prog.Ensures.done ?_
  rintro s'' cs'' ⟨-, heq'⟩
  rw [heq', heq]
  exact ⟨_, rfl, Or.inr ⟨rfl, h.failure c.fd cs _ _ hJ⟩⟩

/-- The loop of `write` writes and polls. -/
theorem write_within (Attributes : Option FdAttributes) (fd : Int) (fuel : Nat) (buf : Buffer) :
    (write true Attributes fd fuel buf).Within fun op => op.fd = fd := by
  unfold write unlessBlocking
  rw [if_pos rfl]
  dsimp only
  by_cases hflag : NonBlock (Attributes.getD .fresh).fdFlag
  · rw [if_pos hflag]
    exact ⟨rfl, fun _ => trivial⟩
  · rw [if_neg hflag]
    refine ⟨rfl, ?_⟩
    intro a
    by_cases hret : toInt32 a.value ≤ 0
    · show Prog.Within _ (if toInt32 a.value ≤ 0 then _ else _)
      rw [if_pos hret]
      trivial
    · show Prog.Within _ (if toInt32 a.value ≤ 0 then _ else _)
      rw [if_neg hret]
      refine Prog.Within.bind _ (fun x => ?_) _ (Prog.Within.loop ?_ fuel _)
      · trivial
      intro x
      unfold transferTurn
      by_cases hmore : x.2 < buf.bytes.length
      · rw [if_pos hmore]
        refine ⟨rfl, fun _ => ⟨rfl, ?_⟩⟩
        intro b
        dsimp only
        split
        · trivial
        · trivial
      · rw [if_neg hmore]
        trivial

/-- The hooked `read` makes its calls on its own descriptor, ... -/
theorem read_within (Attributes : Option FdAttributes) (fd : Int) (buf : List Byte) :
    (read true Attributes fd buf).Within fun op => op.fd = fd := by
  have hplain : (receiveInto (.read fd buf.length) buf).Within fun op => op.fd = fd :=
    ⟨rfl, fun _ => trivial⟩
  unfold read unlessBlocking
  rw [if_pos rfl]
  cases Attributes with
  | none => exact hplain
  | some A =>
      dsimp only
      by_cases hflag : NonBlock A.fdFlag
      · rw [if_pos hflag]
        exact hplain
      · rw [if_neg hflag]
        exact ⟨rfl, fun _ => hplain⟩

/-- ... so do the polls of `connect` ... -/
theorem connectLoop_within (fd : Int) : ∀ (turns : Nat) (x : Retry),
    (connectLoop fd turns x).Within fun op => op.fd = fd := by
  intro turns
  induction turns with
  | zero => exact fun _ => trivial
  | succ turns ih =>
      intro x
      refine ⟨rfl, ?_⟩
      intro res
      show Prog.Within _ (if res.Writable then _ else _)
      split
      · trivial
      · exact ih _

/-- ... and all of `connect`. -/
theorem connect_within (Attributes : Option FdAttributes) (fd : Int) (address : BitVec 128)
    (addressLen : Nat) :
    (connect true Attributes fd address addressLen).Within fun op => op.fd = fd := by
  refine ⟨rfl, ?_⟩
  intro a
  dsimp only
  rw [if_pos rfl]
  cases Attributes with
  | none => trivial
  | some A =>
      dsimp only
      split
      · trivial
      · split
        · trivial
        · refine Prog.Within.bind _ ?_ _ (connectLoop_within fd 5 _)
          intro x
          unfold connectEnd
          split
          · refine ⟨rfl, ?_⟩
            intro v
            dsimp only
            split
            · trivial
            · split
              · trivial
              · trivial
          · split
            · trivial
            · trivial

/-- It returns, whatever the calls say: each turn of its loop writes something. -/
theorem clientWrite_returns (handle : σ → ClientCall → ClientAnswer × σ)
    (Attributes : Option FdAttributes) (fd : Int) (s : σ) :
    ∃ v, (((write true Attributes fd (clientStr.bytes.length + 1) clientStr).lift .sys
      ClientAnswer.sys).exec handle s).result = some v := by
  rw [Prog.exec_lift]
  obtain ⟨sysHandle, hsys⟩ : ∃ sysHandle : σ → SysCall → Answer × σ, sysHandle =
      fun s op => ((handle s (.sys op)).1.sys, (handle s (.sys op)).2) := ⟨_, rfl⟩
  rw [← hsys]
  -- a turn that goes on has sent at least one byte
  have hturn : ∀ timeout (x : Int × Nat), Prog.Ensures sysHandle (fun _ _ => True)
      (transferTurn fd (.write fd) toInt32 timeout clientStr.bytes x)
      (Prog.TurnPost (fun _ _ _ => True) (fun y => clientStr.bytes.length - y.2)
        (fun _ _ _ => True) x) := by
    intro timeout x
    unfold transferTurn
    by_cases hmore : x.2 < clientStr.bytes.length
    · rw [if_pos hmore]
      refine Prog.Ensures.call ?_
      intro s _ _
      refine Prog.Ensures.call ?_
      intro s' _ _
      dsimp only
      by_cases hret : toInt32 (sysHandle s' (.write fd (clientStr.bytes.drop x.2))).1.value ≤ 0
      · rw [if_pos hret]
        exact Prog.Ensures.done fun _ _ _ => trivial
      · rw [if_neg hret]
        refine Prog.Ensures.done ?_
        intro _ _ _
        have hlen : clientStr.bytes.length = 8 := rfl
        refine ⟨trivial, ?_⟩
        show clientStr.bytes.length - toSizeT (x.2 + toInt32 _) < clientStr.bytes.length - x.2
        unfold toSizeT
        unfold toInt32 at hret ⊢
        omega
    · rw [if_neg hmore]
      exact Prog.Ensures.done fun _ _ _ => trivial
  -- a null descriptor, a user who wants no blocking, and the loop
  have hreturns : Prog.Ensures sysHandle (fun _ _ => True)
      (write true Attributes fd (clientStr.bytes.length + 1) clientStr) fun r _ _ =>
        ∃ v, r = some v := by
    unfold write unlessBlocking
    rw [if_pos rfl]
    dsimp only
    split
    · exact Prog.Ensures.call fun s _ _ => Prog.Ensures.done fun _ _ _ => ⟨_, rfl⟩
    · refine Prog.Ensures.call ?_
      intro s _ _
      split
      · exact Prog.Ensures.done fun _ _ _ => ⟨_, rfl⟩
      · refine Prog.Ensures.bind ((Prog.Ensures.loop (hturn _) _ _ (by omega)).mono
          (fun _ _ _ => trivial) fun _ _ _ h => h) ?_
        intro r
        refine Prog.Ensures.done ?_
        rintro _ _ ⟨x, hx, -⟩
        rw [hx]
        exact ⟨_, rfl⟩
  exact hreturns s [] trivial

/-- **The calls inside a hook** are made on its descriptor. -/
theorem hooked_kept {Op Ans α : Type} (h : Kept J K) {fd : Int} (f : Op → ClientCall)
    (g : ClientAnswer → Ans) (fdOf : Op → Int) (hf : ∀ op, (f op).uses = some (fdOf op))
    (p : Prog Op Ans α) (hp : p.Within fun op => fdOf op = fd) :
    Prog.Ensures handle (fun _ cs => J fd cs) (p.lift f g) fun _ _ cs => J fd cs := by
  refine Prog.Ensures.within (C := fun op => op.uses = some fd) ?_ _ ?_
  · intro cs op a hop hJ
    exact h.uses fd cs op a hop hJ
  · refine Prog.Within.lift f g ?_ p hp
    intro op hop
    rw [hf, hop]

/-- The write and the read of a turn. -/
theorem exchange_kept (h : Kept J K) (c : Client) :
    Prog.Ensures handle (fun _ cs => J c.fd cs) (exchange c) fun r _ cs => RoundPost J K c.fd r cs := by
  refine Prog.Ensures.bind (hooked_kept h .sys ClientAnswer.sys SysCall.fd (fun _ => rfl) _
    (write_within c.Attributes c.fd _ clientStr)) ?_
  intro w
  dsimp only
  by_cases hret : 0 < toInt32 (w.getD 0)
  · rw [if_pos hret]
    refine Prog.Ensures.bind (hooked_kept h .sys ClientAnswer.sys SysCall.fd (fun _ => rfl) _
      (read_within _ c.fd c.buf)) ?_
    intro r
    by_cases hread : toInt32 r.ret ≤ 0
    · rw [if_pos hread]
      exact giveUp_kept h rfl
    · rw [if_neg hread]
      refine Prog.Ensures.call ?_
      intro s cs hJ
      refine Prog.Ensures.done ?_
      rintro s' cs' ⟨-, heq⟩
      rw [heq]
      exact ⟨_, rfl, Or.inl ⟨rfl, h.success c.fd cs _ hJ⟩⟩
  · rw [if_neg hret]
    exact giveUp_kept h rfl

/-- Behind `connect`: the connection is up, or the client gives up. -/
theorem checked_kept (h : Kept J K) (c : Client) (errno : Errno) :
    Prog.Ensures handle (fun _ cs => J c.fd cs) (checked c errno) fun r _ cs =>
      RoundPost J K c.fd r cs := by
  unfold checked
  split
  · refine Prog.Ensures.call ?_
    intro s cs hJ
    have hpoll := h.uses c.fd cs (.poll (pollEvent c.fd) 200)
      (handle s (.poll (pollEvent c.fd) 200)).1 rfl hJ
    refine Prog.Ensures.call ?_
    rintro s' cs' ⟨-, heq⟩
    have hasked := h.uses c.fd cs' (.getsockopt c.fd) (handle s' (.getsockopt c.fd)).1 rfl (heq ▸ hpoll)
    have hpre : ∀ s'' cs'', s'' = (handle s' (.getsockopt c.fd)).2 ∧
        cs'' = cs' ++ [(.getsockopt c.fd, (handle s' (.getsockopt c.fd)).1)] → J c.fd cs'' := by
      intro s'' cs'' hand
      rw [hand.2]
      exact hasked
    split
    · exact (giveUp_kept h rfl).mono hpre fun _ _ _ h => h
    · split
      · exact (giveUp_kept h rfl).mono hpre fun _ _ _ h => h
      · exact (exchange_kept h c).mono hpre fun _ _ _ h => h
  · exact exchange_kept h c

/-- A turn of a client that has a descriptor. -/
theorem connected_kept (h : Kept J K) (addr : BitVec 128) (c : Client) :
    Prog.Ensures handle (fun _ cs => J c.fd cs) (connected addr c) fun r _ cs =>
      RoundPost J K c.fd r cs := by
  refine Prog.Ensures.bind (hooked_kept h .connect ClientAnswer.connect ConnectCall.fd (fun _ => rfl) _
    (connect_within c.Attributes c.fd addr 16)) ?_
  intro r
  exact checked_kept h { c with Attributes := r.Attributes } r.errno

/-! ## §4. The descriptor. -/

theorem descriptor_snoc (cs : ClientCalls) (x : ClientCall × ClientAnswer) :
    descriptor (cs ++ [x]) = (descriptor cs).next x := by
  unfold descriptor
  rw [List.foldl_append]
  rfl

/-- Only a `socket` that fails can end this. -/
theorem socketsOpened_snoc {x : ClientCall × ClientAnswer} (hx : x.1 = .socket → 0 ≤ x.2.value) :
    SocketsOpened (cs ++ [x]) ↔ SocketsOpened cs := by
  unfold SocketsOpened
  rw [List.forall_mem_append, List.forall_mem_singleton]
  exact ⟨fun h => h.1, fun h => ⟨h, hx⟩⟩

/-- A `socket` opens the descriptor that it returns. -/
theorem next_socket (a : ClientAnswer) : Descriptor.closed.next (.socket, a) =
    if 0 ≤ a.value then .opened a.value else .closed := by
  unfold Descriptor.next
  exact if_pos rfl

/-- No `socket` has failed, and this is what the calls have come to. -/
def InOrder (d : Descriptor) (cs : ClientCalls) : Prop := SocketsOpened cs ∧ descriptor cs = d

/-- A `socket` has failed, and a call was made although there is no descriptor. -/
def OutOfOrder (cs : ClientCalls) : Prop := ¬ SocketsOpened cs ∧ descriptor cs = .misused

theorem next_misused (x : ClientCall × ClientAnswer) : Descriptor.misused.next x = .misused := by
  obtain ⟨op, a⟩ := x
  cases op with
  | AddSuccCnt => rfl
  | AddFailCnt => rfl
  | _ => simp [Descriptor.next, ClientCall.uses]

/-- **Whatever follows.** -/
theorem OutOfOrder.snoc (h : OutOfOrder cs) (x : ClientCall × ClientAnswer) :
    OutOfOrder (cs ++ [x]) := by
  refine ⟨?_, ?_⟩
  · intro hall
    exact h.1 fun y hy => hall y (List.mem_append_left _ hy)
  · rw [descriptor_snoc, h.2]
    exact next_misused x

/-- Nor does any program put it right. -/
theorem outOfOrder_kept {α : Type} (p : Clients α) :
    Prog.Ensures handle (fun _ cs => OutOfOrder cs) p fun _ _ cs => OutOfOrder cs :=
  Prog.Ensures.within (fun _ op a _ h => h.snoc (op, a)) p (Prog.Within.any p)

/-- A call on the descriptor that is open. -/
theorem next_uses {op : ClientCall} {fd : Int} (a : ClientAnswer) (h : op.uses = some fd) :
    (Descriptor.opened fd).next (op, a) = .opened fd ∧ op ≠ .socket := by
  cases op with
  | socket => cases h
  | close fd' => cases h
  | AddSuccCnt => cases h
  | AddFailCnt => cases h
  | _ =>
      refine ⟨?_, ClientCall.noConfusion⟩
      unfold Descriptor.next
      dsimp only
      rw [h]
      exact if_pos rfl

/-- On an open descriptor calls are in order, and so is `close`. -/
theorem inOrder_kept : Kept (fun fd cs => InOrder (.opened fd) cs) (InOrder .closed) := by
  constructor
  case uses =>
    intro fd cs op a hop h
    obtain ⟨hnext, hne⟩ := next_uses a hop
    refine ⟨(socketsOpened_snoc fun hs => absurd hs hne).mpr h.1, ?_⟩
    rw [descriptor_snoc, h.2, hnext]
  case success =>
    intro fd cs a h
    refine ⟨(socketsOpened_snoc fun hs => by cases hs).mpr h.1, ?_⟩
    rw [descriptor_snoc, h.2]
    rfl
  case failure =>
    intro fd cs a a' h
    have hclose : SocketsOpened (cs ++ [(.close fd, a)]) :=
      (socketsOpened_snoc fun hs => by cases hs).mpr h.1
    refine ⟨(socketsOpened_snoc fun hs => by cases hs).mpr hclose, ?_⟩
    rw [descriptor_snoc, descriptor_snoc, h.2]
    show (if Descriptor.opened fd = .opened fd then Descriptor.closed else .misused) = .closed
    rw [if_pos rfl]

/-- What holds between two rounds. -/
inductive Between (c : Client) (cs : ClientCalls) : Prop
  | opened (hfd : 0 ≤ c.fd) (h : InOrder (.opened c.fd) cs)
  | closed (hfd : c.fd < 0) (h : InOrder .closed cs)
  | out (h : OutOfOrder cs)

/-- A turn that ends in order leaves the client between two turns. -/
theorem RoundPost.between {fd : Int} (hfd : 0 ≤ fd) {r : Client ⊕ Empty}
    (h : RoundPost (fun fd cs => InOrder (.opened fd) cs) (InOrder .closed) fd r cs) :
    ∃ c, r = .inl c ∧ Between c cs := by
  obtain ⟨c, hr, hc⟩ := h
  rcases hc with ⟨heq, hin⟩ | ⟨heq, hin⟩
  · exact ⟨c, hr, .opened (by omega) (heq ▸ hin)⟩
  · exact ⟨c, hr, .closed (by omega) hin⟩

/-- Behind `socket`, which leaves a descriptor or has failed. -/
def SocketPost (c : Client) (cs : ClientCalls) : Prop :=
  0 ≤ c.fd ∧ InOrder (.opened c.fd) cs ∨ ¬ SocketsOpened cs ∧ descriptor cs = .closed

/-- `socket` opens a descriptor, or leaves the client without one. -/
theorem clientSocket_post (c : Client) :
    Prog.Ensures handle (fun _ cs => InOrder .closed cs) (clientSocket c) fun c' _ cs =>
      SocketPost c' cs := by
  refine Prog.Ensures.call ?_
  intro s cs hin
  by_cases hneg : (handle s .socket).1.value < 0
  · rw [if_pos hneg]
    refine Prog.Ensures.done ?_
    rintro s' cs' ⟨-, heq⟩
    rw [heq]
    refine Or.inr ⟨?_, ?_⟩
    · intro hall
      have hopened := hall _ (List.mem_append_right _ (List.mem_singleton.mpr rfl)) rfl
      dsimp only at hopened
      omega
    · rw [descriptor_snoc, hin.2, next_socket, if_neg (by omega)]
  · rw [if_neg hneg]
    obtain ⟨fd, hfd⟩ : ∃ fd, fd = (handle s .socket).1.value := ⟨_, rfl⟩
    have hopened : InOrder (.opened fd) (cs ++ [(.socket, (handle s .socket).1)]) := by
      refine ⟨(socketsOpened_snoc fun _ => by dsimp only; omega).mpr hin.1, ?_⟩
      rw [descriptor_snoc, hin.2, next_socket, if_pos (by omega), hfd]
    rw [← hfd]
    refine Prog.Ensures.call ?_
    rintro s₁ cs₁ ⟨-, heq₁⟩
    have hgetfl := inOrder_kept.uses fd cs₁ (.getfl fd) (handle s₁ (.getfl fd)).1 rfl (heq₁ ▸ hopened)
    refine Prog.Ensures.call ?_
    rintro s₂ cs₂ ⟨-, heq₂⟩
    refine Prog.Ensures.done ?_
    rintro s₃ cs₃ ⟨-, heq₃⟩
    rw [heq₃]
    refine Or.inl ⟨?_, inOrder_kept.uses fd cs₂ _ _ rfl (heq₂ ▸ hgetfl)⟩
    show 0 ≤ fd
    omega

/-- **Without a descriptor**: `socket` opens one, or the first call behind it is made on none. -/
theorem reconnect_between (addr : BitVec 128) (c : Client) :
    Prog.Ensures handle (fun _ cs => InOrder .closed cs) ((clientSocket c).bind (connected addr))
      fun r _ cs => ∃ c', r = .inl c' ∧ Between c' cs := by
  refine (clientSocket_post c).bind ?_
  intro c'
  refine Prog.Ensures.given ?_
  rintro s cs (⟨hfd, hin⟩ | ⟨hfailed, hclosed⟩)
  · refine (connected_kept inOrder_kept addr c').mono ?_ ?_
    · rintro s' cs' ⟨-, heq⟩
      rw [heq]
      exact hin
    · intro r s' cs' hpost
      exact hpost.between hfd
  · -- the system's `connect` comes before the hook looks at anything
    obtain ⟨next, hnext⟩ : ∃ next, connected addr c' = .call (.connect (.connect c'.fd)) next :=
      ⟨_, rfl⟩
    rw [hnext]
    refine Prog.Ensures.call ?_
    rintro s' cs' ⟨-, heq⟩
    refine (outOfOrder_kept _).mono ?_ ?_
    · rintro s'' cs'' ⟨-, heq'⟩
      rw [heq', heq]
      refine ⟨?_, ?_⟩
      · intro hall
        exact hfailed fun x hx => hall x (List.mem_append_left _ hx)
      · rw [descriptor_snoc, hclosed]
        rfl
    · intro r s'' cs'' hout
      cases r with
      | inl c'' => exact ⟨c'', rfl, .out hout⟩
      | inr e => exact e.elim

/-- **A turn**, from the state between two turns to the next such state. -/
theorem clientRound_between (handle : σ → ClientCall → ClientAnswer × σ) (addr : BitVec 128)
    (c : Client) :
    Prog.Ensures handle (fun _ cs => Between c cs) (clientRound addr c)
      (Prog.TurnKeeps (fun c' _ cs => Between c' cs) fun _ _ _ => False) := by
  have hround : Prog.Ensures handle (fun _ cs => Between c cs) (clientRound addr c)
      fun r _ cs => ∃ c', r = .inl c' ∧ Between c' cs := by
    refine Prog.Ensures.given ?_
    intro s cs hbetween
    cases hbetween with
    | opened hfd hin =>
        unfold clientRound
        rw [if_neg (by omega)]
        refine (exchange_kept inOrder_kept c).mono ?_ fun r s' cs' hpost => hpost.between hfd
        rintro s' cs' ⟨-, heq⟩
        rw [heq]
        exact hin
    | closed hfd hin =>
        unfold clientRound
        rw [if_pos hfd]
        refine (reconnect_between addr c).mono ?_ fun _ _ _ h => h
        rintro s' cs' ⟨-, heq⟩
        rw [heq]
        exact hin
    | out hout =>
        refine (outOfOrder_kept (clientRound addr c)).mono ?_ ?_
        · rintro s' cs' ⟨-, heq⟩
          rw [heq]
          exact hout
        · intro r s' cs' hout'
          cases r with
          | inl c' => exact ⟨c', rfl, .out hout'⟩
          | inr e => exact e.elim
  refine hround.mono (fun _ _ h => h) ?_
  rintro r s cs ⟨c', hr, hbetween⟩
  rw [hr]
  exact hbetween

/-! ## §5. What is counted. -/

/-- A call on a descriptor is neither a `close` nor `AddFailCnt`. -/
theorem balanced_uses {op : ClientCall} {fd : Int} (a : ClientAnswer) (h : op.uses = some fd)
    (hcs : Balanced cs) : Balanced (cs ++ [(op, a)]) := by
  have hnone : op.isFailure = false ∧ op.isClose = false := by
    cases op with
    | socket => cases h
    | close fd' => cases h
    | AddSuccCnt => cases h
    | AddFailCnt => cases h
    | _ => exact ⟨rfl, rfl⟩
  unfold Balanced at hcs ⊢
  rw [List.countP_append, List.countP_append, hcs, List.countP_singleton, List.countP_singleton,
    hnone.1, hnone.2]

/-- `AddFailCnt` follows `close`, and stands nowhere else. -/
theorem balanced_kept : Kept (fun _ cs => Balanced cs) Balanced := by
  constructor
  case uses =>
    intro fd cs op a hop h
    exact balanced_uses a hop h
  case success =>
    intro fd cs a h
    unfold Balanced at h ⊢
    rw [List.countP_append, List.countP_append, h]
    rfl
  case failure =>
    intro fd cs a a' h
    unfold Balanced at h ⊢
    rw [List.countP_append, List.countP_append, List.countP_append, List.countP_append, h]
    rfl

theorem clientSocket_balanced (c : Client) :
    Prog.Ensures handle (fun _ cs => Balanced cs) (clientSocket c) fun _ _ cs => Balanced cs := by
  refine Prog.Ensures.within (C := fun op => op = .socket ∨ ∃ fd, op.uses = some fd) ?_ _ ?_
  · rintro cs op a (hop | ⟨fd, hop⟩) h
    · rw [hop]
      unfold Balanced at h ⊢
      rw [List.countP_append, List.countP_append, h]
      rfl
    · exact balanced_uses a hop h
  · refine ⟨Or.inl rfl, ?_⟩
    intro a
    dsimp only
    split
    · trivial
    · exact ⟨Or.inr ⟨_, rfl⟩, fun _ => ⟨Or.inr ⟨_, rfl⟩, fun _ => trivial⟩⟩

/-- **A turn** calls `AddFailCnt` as often as `close`. -/
theorem clientRound_balanced (handle : σ → ClientCall → ClientAnswer × σ) (addr : BitVec 128)
    (c : Client) :
    Prog.Ensures handle (fun _ cs => Balanced cs) (clientRound addr c)
      (Prog.TurnKeeps (fun _ _ cs => Balanced cs) fun _ _ _ => False) := by
  have hround : Prog.Ensures handle (fun _ cs => Balanced cs) (clientRound addr c)
      fun r _ cs => ∃ fd, RoundPost (fun _ cs => Balanced cs) Balanced fd r cs := by
    unfold clientRound
    split
    · refine (clientSocket_balanced c).bind ?_
      intro c'
      exact (connected_kept balanced_kept addr c').mono (fun _ _ h => h) fun _ _ _ h => ⟨_, h⟩
    · exact (exchange_kept balanced_kept c).mono (fun _ _ h => h) fun _ _ _ h => ⟨_, h⟩
  refine hround.mono (fun _ _ h => h) ?_
  rintro r s cs ⟨fd, c', hr, hbalanced⟩
  rw [hr]
  rcases hbalanced with ⟨-, h⟩ | ⟨-, h⟩
  · exact h
  · exact h

/-! ## §6. The client. -/

/-- The calls of a run, in an environment that answers as it likes. -/
def clientCalls (handle : σ → ClientCall → ClientAnswer × σ) (s : σ) (addr : BitVec 128)
    (buf : List Byte) (rounds : Nat) : ClientCalls :=
  ((clientLoop addr buf rounds).exec handle s).calls

/-- **The client keeps to its descriptor exactly as long as no `socket` fails**: in each run of it, whatever
is answered, every call is made on the one descriptor that is open and none is opened or closed twice, if
and only if every `socket` returns one.  And it calls `AddFailCnt` once for each descriptor that it closes.
-/
theorem client_descriptors (handle : σ → ClientCall → ClientAnswer × σ) (s : σ) (addr : BitVec 128)
    (buf : List Byte) (rounds : Nat) :
    (descriptor (clientCalls handle s addr buf rounds) ≠ .misused ↔
      SocketsOpened (clientCalls handle s addr buf rounds)) ∧
    Balanced (clientCalls handle s addr buf rounds) := by
  have hnone : (Client.mk (-1) none buf).fd < 0 := by
    show (-1 : Int) < 0
    omega
  -- `fd = -1` before the first round: nothing is open
  have hstart : Between ⟨-1, none, buf⟩ [] :=
    .closed hnone ⟨fun x hx => absurd hx List.not_mem_nil, rfl⟩
  have hloop := Prog.Ensures.loop_turns (clientRound_between handle addr) rounds
    ⟨-1, none, buf⟩ s [] hstart
  have hcount := Prog.Ensures.loop_turns (clientRound_balanced handle addr) rounds
    ⟨-1, none, buf⟩ s [] rfl
  rw [List.nil_append] at hloop hcount
  change Prog.RunKeeps _ _ ((clientLoop addr buf rounds).exec handle s).result _ _ at hloop hcount
  cases hresult : ((clientLoop addr buf rounds).exec handle s).result with
  | some e => exact e.elim
  | none =>
      rw [hresult] at hloop hcount
      obtain ⟨c, hbetween⟩ := hloop
      obtain ⟨-, hbalanced⟩ := hcount
      refine ⟨?_, hbalanced⟩
      show descriptor ((clientLoop addr buf rounds).exec handle s).calls ≠ _ ↔ _
      -- behind a round the books are in order exactly when every `socket` has given a descriptor
      cases hbetween with
      | opened hfd hin =>
          have hne : descriptor ((clientLoop addr buf rounds).exec handle s).calls ≠ .misused := by
            have heq := hin.2
            intro hmis
            cases heq.symm.trans hmis
          exact iff_of_true hne hin.1
      | closed hfd hin =>
          have hne : descriptor ((clientLoop addr buf rounds).exec handle s).calls ≠ .misused := by
            have heq := hin.2
            intro hmis
            cases heq.symm.trans hmis
          exact iff_of_true hne hin.1
      | out hout =>
          have hmis : descriptor ((clientLoop addr buf rounds).exec handle s).calls = .misused := hout.2
          exact iff_of_false (fun hne => hne hmis) hout.1

end RocketCo.Hook
