/-
  RocketCo.Hook.TableIndex — the indices used on `Fd2Attributes`.

  The table has 8196 entries, and three functions look a descriptor up:

      GetFdAttributesByFd, DeleteAttributes — test `fd >= -1 && fd < AttributesLength`
      CreateAFdAttributes                   — tests `fd < 0 && fd >= AttributesLength`

  The first two let `-1` through, and the test of the third never holds.  Ten calls rely on a null
  result to fall back to the plain system call.  Here the table is an array without ends: an index that
  leaves it reads and writes what happens to lie there, and every use is written down.

  Main result: `table_index_iff`.
-/
import RocketCo.Hook.Attributes

namespace RocketCo.Hook

open RocketCo.Lib

/-! ## §1. What a call does with the table. -/

/-- A use of `Fd2Attributes[i]`, of a field of an entry that is null, the system call that is hooked, or
a hooked `poll`. -/
inductive Use where
  | index (i : Int)
  | missing
  | system
  | poll
  deriving DecidableEq

/-- `Fd2Attributes`, with the memory before and behind it. -/
abbrev Entries := Int → Option FdAttributes

/-- The table, and the uses so far. -/
structure Table where
  entries : Entries
  uses : List Use

/-- The commands of `fcntl`; `unknown` is any other number. -/
inductive FcntlCmd where
  | getfd
  | setfd
  | getfl
  /-- `ret` is what the kernel returns. -/
  | setfl (param : Flags) (ret : Int)
  | getlk
  | setlk
  | setlkw
  | dupfd
  | unknown

namespace Table

variable (s : Table) (isHook : Bool) (fd : Int)

def note (us : List Use) : Table := { s with uses := s.uses ++ us }

/-- A field of the entry is written through its pointer. -/
def setEntry (A : FdAttributes) : Table :=
  { s with entries := Function.update s.entries fd (some A) }

/-- `GetFdAttributesByFd`. -/
def getFdAttributesByFd : Table × Option FdAttributes :=
  if -1 ≤ fd ∧ fd < AttributesLength then (s.note [.index fd], s.entries fd) else (s, none)

/-- `DeleteAttributes`. -/
def deleteAttributes : Table :=
  if -1 ≤ fd ∧ fd < AttributesLength then
    match s.entries fd with
    | none => s.note [.index fd]
    | some A =>
        -- once for the test, and once for each field
        (s.note [.index fd, .index fd, .index fd, .index fd]).setEntry fd
          { A with fdFlag := 0, domain := 0, addr := 0 }
  else s

/-- `CreateAFdAttributes`. -/
def createAFdAttributes : Table × Option FdAttributes :=
  -- never true
  if fd < 0 ∧ AttributesLength ≤ fd then (s, none)
  else
    match s.entries fd with
    | some Temp => (s.note [.index fd, .index fd], some Temp)
    | none => ((s.note [.index fd, .index fd]).setEntry fd .fresh, some .fresh)

/-- `fcntl`, the same for hooked callers and others. -/
def fcntl (cmd : FcntlCmd) : Table :=
  if fd < 0 then s
  else
    let r := s.createAFdAttributes fd
    match cmd with
    | .setfl param ret =>
        let s := r.1.note [.system]
        match r.2 with
        | none => s
        | some A => if ret = 0 then s.setEntry fd { A with fdFlag := param } else s
    -- an unknown command returns 0 without a system call
    | .unknown => r.1
    | _ => r.1.note [.system]

/-- `socket`; the kernel's returns `fd`, and its `F_GETFL` says `flags`. -/
def socket (domain : Int) (flags : Flags) (ret : Int) : Table :=
  let s := s.note [.system]
  if isHook then
    if fd < 0 then s
    else
      let r := s.createAFdAttributes fd
      match r.2 with
      | none => r.1.note [.missing]
      | some A => ((r.1.setEntry fd { A with domain }).note [.system]).fcntl fd (.setfl flags ret)
  else s

/-- `AcceptFd2Attributes`; `accept` returns `fd`. -/
def acceptFd2Attributes : Table :=
  let s := s.note [.system]
  if fd < 0 then s else (s.createAFdAttributes fd).1

/-- `write`; its loop takes `turns` turns. -/
def write (turns : Nat) : Table :=
  if isHook then
    let r := s.createAFdAttributes fd
    match r.2 with
    | none => r.1.note [.system]
    | some A =>
        if NonBlock A.fdFlag then r.1.note [.system]
        else r.1.note (.system :: (List.replicate turns [.poll, .system]).flatten)
  else s.note [.system]

/-- What `read`, `recv`, `recvfrom`, `send` and `sendto` have in common: without an entry, or with one
that has `O_NONBLOCK`, the system call alone, and else `emulation`. -/
def emulate (emulation : List Use) : Table :=
  if isHook then
    let r := s.getFdAttributesByFd fd
    match r.2 with
    | none => r.1.note [.system]
    | some A => if NonBlock A.fdFlag then r.1.note [.system] else r.1.note emulation
  else s.note [.system]

/-- `read`. -/
def read : Table := s.emulate isHook fd [.poll, .system]

/-- `recv`. -/
def recv : Table := s.emulate isHook fd [.poll, .system]

/-- `recvfrom`. -/
def recvfrom : Table := s.emulate isHook fd [.system, .poll, .system]

/-- `sendto`; the first call fails with `EAGAIN`, or it does not. -/
def sendto (again : Bool) : Table :=
  s.emulate isHook fd (if again then [.system, .poll, .system] else [.system])

/-- `send`; its loop takes `turns` turns. -/
def send (turns : Nat) : Table :=
  s.emulate isHook fd (.system :: (List.replicate turns [.poll, .system]).flatten)

/-- The loop of `connect`: `poll`s until one says that the socket is writable. -/
def connectPolls (ready : Nat → Bool) : Nat → Nat → List Use
  | 0, _ => []
  | k + 1, i => if ready i then [.poll] else .poll :: connectPolls ready k (i + 1)

/-- `memcpy` of the first `len` bytes of an address. -/
def copyAddr (old new : BitVec 128) (len : Nat) : BitVec 128 :=
  let mask := BitVec.allOnes 128 >>> (128 - 8 * len)
  (old &&& ~~~mask) ||| (new &&& mask)

/-- `connect`; the system's call ends with `EINPROGRESS`, or it does not. -/
def connect (address : BitVec 128) (addressLen : Nat) (inProgress : Bool) (ready : Nat → Bool) :
    Table :=
  if isHook then
    let r := (s.note [.system]).getFdAttributesByFd fd
    match r.2 with
    | none => r.1
    | some A =>
        if NonBlock A.fdFlag then r.1
        else if inProgress then
          let s :=
            -- the address is copied if it is no longer than a `sockaddr_in`
            if addressLen ≤ 16 then
              r.1.setEntry fd { A with addr := copyAddr A.addr address addressLen }
            else r.1
          s.note (connectPolls ready 5 0)
        else r.1
  else s.note [.system]

/-- `close`. -/
def close : Table :=
  if isHook then (s.deleteAttributes fd).note [.system] else s.note [.system]

end Table

/-- A call, with what the kernel does meanwhile. -/
inductive HookCall where
  | socket (isHook : Bool) (fd domain : Int) (flags : Flags) (ret : Int)
  | read (isHook : Bool) (fd : Int)
  | write (isHook : Bool) (fd : Int) (turns : Nat)
  | fcntl (fd : Int) (cmd : FcntlCmd)
  | accept (fd : Int)
  | connect (isHook : Bool) (fd : Int) (address : BitVec 128) (addressLen : Nat) (inProgress : Bool)
      (ready : Nat → Bool)
  | close (isHook : Bool) (fd : Int)
  | sendto (isHook : Bool) (fd : Int) (again : Bool)
  | recvfrom (isHook : Bool) (fd : Int)
  | send (isHook : Bool) (fd : Int) (turns : Nat)
  | recv (isHook : Bool) (fd : Int)

namespace HookCall

def fd : HookCall → Int
  | .socket _ fd _ _ _ | .read _ fd | .write _ fd _ | .fcntl fd _ | .accept fd
  | .connect _ fd _ _ _ _ | .close _ fd | .sendto _ fd _ | .recvfrom _ fd | .send _ fd _
  | .recv _ fd => fd

/-- The call on a table, with nothing written down yet. -/
def run (c : HookCall) (E : Entries) : Table :=
  match c with
  | .socket isHook fd domain flags ret => (Table.mk E []).socket isHook fd domain flags ret
  | .read isHook fd => (Table.mk E []).read isHook fd
  | .write isHook fd turns => (Table.mk E []).write isHook fd turns
  | .fcntl fd cmd => (Table.mk E []).fcntl fd cmd
  | .accept fd => (Table.mk E []).acceptFd2Attributes fd
  | .connect isHook fd address addressLen inProgress ready =>
      (Table.mk E []).connect isHook fd address addressLen inProgress ready
  | .close isHook fd => (Table.mk E []).close isHook fd
  | .sendto isHook fd again => (Table.mk E []).sendto isHook fd again
  | .recvfrom isHook fd => (Table.mk E []).recvfrom isHook fd
  | .send isHook fd turns => (Table.mk E []).send isHook fd turns
  | .recv isHook fd => (Table.mk E []).recv isHook fd

/-- **A call keeps to the table**: every index is one of the array, no field of a null entry is used,
and a number that is no index goes to the system call without a look at the table. -/
structure Safe (c : HookCall) (E : Entries) : Prop where
  inArray : ∀ i, Use.index i ∈ (c.run E).uses → InArray i
  present : Use.missing ∉ (c.run E).uses
  plain : ¬ InArray c.fd →
    Use.system ∈ (c.run E).uses ∧ ∀ i, Use.index i ∉ (c.run E).uses

/-- **When it does.**  The calls that look up with `CreateAFdAttributes` need an index, those with the
other two anything but `-1`; `socket` and `AcceptFd2Attributes` use a number only if it is not negative,
and `fcntl` has no fallback for a negative one. -/
def Covered : HookCall → Prop
  | .socket isHook fd _ _ _ => isHook = true → fd < AttributesLength
  | .accept fd => fd < AttributesLength
  | .write isHook fd _ => isHook = true → InArray fd
  | .fcntl fd _ => InArray fd
  | .read isHook fd | .connect isHook fd _ _ _ _ | .close isHook fd | .sendto isHook fd _
  | .recvfrom isHook fd | .send isHook fd _ | .recv isHook fd => isHook = true → fd ≠ -1

end HookCall

/-! ## §2. The three lookups. -/

variable {E : Entries} {fd : Int} {isHook : Bool} {us : List Use}

/-- **`GetFdAttributesByFd`** indexes from `-1` on. -/
theorem getFdAttributesByFd_uses (s : Table) (fd : Int) : ∃ k,
    (s.getFdAttributesByFd fd).1.uses = s.uses ++ List.replicate k (.index fd) ∧
      (k = 0 ↔ ¬ (-1 ≤ fd ∧ fd < AttributesLength)) := by
  unfold Table.getFdAttributesByFd
  by_cases h : -1 ≤ fd ∧ fd < AttributesLength
  · rw [if_pos h]
    exact ⟨1, rfl, by simp [h]⟩
  · rw [if_neg h]
    exact ⟨0, by simp, by simp [h]⟩

/-- **`DeleteAttributes`** does too. -/
theorem deleteAttributes_uses (s : Table) (fd : Int) : ∃ k,
    (s.deleteAttributes fd).uses = s.uses ++ List.replicate k (.index fd) ∧
      (k = 0 ↔ ¬ (-1 ≤ fd ∧ fd < AttributesLength)) := by
  unfold Table.deleteAttributes
  by_cases h : -1 ≤ fd ∧ fd < AttributesLength
  · rw [if_pos h]
    cases s.entries fd with
    | none => exact ⟨1, rfl, by simp [h]⟩
    | some A => exact ⟨4, rfl, by simp [h]⟩
  · rw [if_neg h]
    exact ⟨0, by simp, by simp [h]⟩

/-- **`CreateAFdAttributes`** indexes with any number, and always has an entry to return. -/
theorem createAFdAttributes_uses (s : Table) (fd : Int) :
    (s.createAFdAttributes fd).1.uses = s.uses ++ [.index fd, .index fd] ∧
      ∃ A, (s.createAFdAttributes fd).2 = some A := by
  unfold Table.createAFdAttributes
  have hnever : ¬ (fd < 0 ∧ AttributesLength ≤ fd) := by
    unfold AttributesLength
    omega
  rw [if_neg hnever]
  cases s.entries fd with
  | none => exact ⟨rfl, .fresh, rfl⟩
  | some A => exact ⟨rfl, A, rfl⟩

/-- In the array it is the lookup of the table. -/
theorem createAFdAttributes_table {s t : FdTable} {A : FdAttributes}
    (h : s.createAFdAttributes fd = some (A, t)) :
    (Table.createAFdAttributes ⟨s.Fd2Attributes, us⟩ fd).1.entries = t.Fd2Attributes ∧
      (Table.createAFdAttributes ⟨s.Fd2Attributes, us⟩ fd).2 = some A := by
  unfold FdTable.createAFdAttributes at h
  unfold Table.createAFdAttributes
  split at h
  · next harr =>
      rw [if_neg fun hneg => absurd harr.1 (by omega)]
      show _ ∧ (match s.Fd2Attributes fd with | some _ => _ | none => _ : Table × _).2 = some A
      cases hentry : s.Fd2Attributes fd with
      | none =>
          rw [hentry] at h
          obtain ⟨hA, ht⟩ := Prod.mk.inj (Option.some.inj h)
          rw [← hA, ← ht]
          simp only [hentry]
          exact ⟨rfl, trivial⟩
      | some B =>
          rw [hentry] at h
          obtain ⟨hA, ht⟩ := Prod.mk.inj (Option.some.inj h)
          rw [← hA, ← ht]
          simp only [hentry]
          exact ⟨rfl, trivial⟩
  · cases h

/-! ## §3. The calls. -/

/-- A use that does not concern the table. -/
def Use.Plain (u : Use) : Prop := u = .system ∨ u = .poll

theorem Use.Plain.ne_index {u : Use} (h : u.Plain) (i : Int) : u ≠ .index i := by
  cases h with
  | inl hsys =>
      rw [hsys]
      exact Use.noConfusion
  | inr hpoll =>
      rw [hpoll]
      exact Use.noConfusion

theorem loop_plain (turns : Nat) :
    ∀ u ∈ Use.system :: (List.replicate turns [Use.poll, .system]).flatten, u.Plain := by
  intro u hu
  rcases List.mem_cons.mp hu with hsys | hrest
  · exact Or.inl hsys
  · obtain ⟨l, hl, hmem⟩ := List.mem_flatten.mp hrest
    rw [List.eq_of_mem_replicate hl] at hmem
    rcases List.mem_cons.mp hmem with hpoll | hlast
    · exact Or.inr hpoll
    · exact Or.inl (List.mem_singleton.mp hlast)

/-- The polls of `connect` do not look into the table. -/
theorem connectPolls_plain (ready : Nat → Bool) : ∀ (k i : Nat),
    ∀ u ∈ Table.connectPolls ready k i, u.Plain := by
  intro k
  induction k with
  | zero =>
      intro i u hu
      cases hu
  | succ k ih =>
      intro i u hu
      unfold Table.connectPolls at hu
      split at hu
      · exact Or.inr (List.mem_singleton.mp hu)
      · rcases List.mem_cons.mp hu with hpoll | hrest
        · exact Or.inr hpoll
        · exact ih (i + 1) u hrest

/-- **What decides** about a call that uses no other index and no null entry: whether its number is used
as an index, and whether the system call is made. -/
theorem safe_iff {c : HookCall} (h : ∀ u ∈ (c.run E).uses, u.Plain ∨ u = .index c.fd) : c.Safe E ↔
    (Use.index c.fd ∈ (c.run E).uses → InArray c.fd) ∧
      (¬ InArray c.fd → Use.system ∈ (c.run E).uses) := by
  -- the number is the only index there is
  have hindex : ∀ i, Use.index i ∈ (c.run E).uses → i = c.fd := by
    intro i hi
    rcases h _ hi with hplain | hfd
    · exact absurd rfl (hplain.ne_index i)
    · exact Use.index.inj hfd
  constructor
  · intro hsafe
    exact ⟨hsafe.inArray c.fd, fun hnot => (hsafe.plain hnot).1⟩
  · intro ⟨hin, hsys⟩
    constructor
    case inArray =>
      intro i hi
      have heq := hindex i hi
      rw [heq] at hi ⊢
      exact hin hi
    case present =>
      intro hmissing
      rcases h _ hmissing with (hsys | hpoll) | hfd
      · cases hsys
      · cases hpoll
      · cases hfd
    case plain =>
      intro hnot
      refine ⟨hsys hnot, ?_⟩
      intro i hi
      have heq := hindex i hi
      rw [heq] at hi
      exact hnot (hin hi)

/-- A call of a caller that is not hooked. -/
theorem safe_unhooked {c : HookCall} (h : (c.run E).uses = [.system]) : c.Safe E := by
  have hplain : ∀ u ∈ (c.run E).uses, u.Plain ∨ u = .index c.fd := by
    intro u hu
    rw [h] at hu
    exact Or.inl (Or.inl (List.mem_singleton.mp hu))
  rw [safe_iff hplain, h]
  refine ⟨?_, fun _ => List.mem_singleton.mpr rfl⟩
  intro hindex
  cases List.mem_singleton.mp hindex

/-- The range of `GetFdAttributesByFd` and `DeleteAttributes` has one number too many. -/
theorem inArray_of_looked (fd : Int) :
    ((-1 ≤ fd ∧ fd < AttributesLength) → InArray fd) ↔ fd ≠ -1 := by
  unfold InArray AttributesLength
  constructor
  · intro h heq
    have := h (by omega)
    omega
  · intro hne hand
    omega

/-- **The calls that index where `GetFdAttributesByFd` does**, `pre` and `post` being what they do before
and after. -/
theorem safe_iff_looked {c : HookCall} {pre post : List Use} {k : Nat}
    (huses : (c.run E).uses = pre ++ List.replicate k (.index c.fd) ++ post)
    (hk : k = 0 ↔ ¬ (-1 ≤ c.fd ∧ c.fd < AttributesLength))
    (hpre : ∀ u ∈ pre, u.Plain) (hpost : ∀ u ∈ post, u.Plain)
    (hsys : Use.system ∈ pre ∨ Use.system ∈ post) : c.Safe E ↔ c.fd ≠ -1 := by
  have hmem : ∀ u, u ∈ (c.run E).uses ↔ u ∈ pre ∨ (k ≠ 0 ∧ u = .index c.fd) ∨ u ∈ post := by
    intro u
    rw [huses, List.mem_append, List.mem_append, List.mem_replicate, or_assoc]
  rw [safe_iff]
  · rw [← inArray_of_looked]
    have hindex : Use.index c.fd ∈ (c.run E).uses ↔ -1 ≤ c.fd ∧ c.fd < AttributesLength := by
      rw [hmem]
      constructor
      · intro hor
        rcases hor with h | ⟨hne, -⟩ | h
        · exact absurd rfl ((hpre _ h).ne_index _)
        · exact not_not.mp fun hnot => hne (hk.mpr hnot)
        · exact absurd rfl ((hpost _ h).ne_index _)
      · intro hrange
        exact Or.inr (Or.inl ⟨fun h0 => hk.mp h0 hrange, rfl⟩)
    rw [hindex]
    refine ⟨fun hand => hand.1, fun hin => ⟨hin, fun _ => ?_⟩⟩
    rw [hmem]
    cases hsys with
    | inl h => exact Or.inl h
    | inr h => exact Or.inr (Or.inr h)
  · intro u hu
    rw [hmem] at hu
    rcases hu with h | ⟨-, h⟩ | h
    · exact Or.inl (hpre u h)
    · exact Or.inr h
    · exact Or.inl (hpost u h)

/-- **The five calls with `GetFdAttributesByFd` in front.** -/
theorem emulate_safe {c : HookCall} {emulation : List Use}
    (hrun : c.run E = (Table.mk E []).emulate isHook c.fd emulation)
    (hsys : Use.system ∈ emulation) (hplain : ∀ u ∈ emulation, u.Plain) :
    c.Safe E ↔ (isHook = true → c.fd ≠ -1) := by
  cases isHook with
  | false =>
      have huses : (c.run E).uses = [.system] := by
        rw [hrun]
        rfl
      exact iff_of_true (safe_unhooked huses) (by simp)
  | true =>
      obtain ⟨k, hget, hk⟩ := getFdAttributesByFd_uses ⟨E, []⟩ c.fd
      have htail : ∃ tail, (c.run E).uses = [] ++ List.replicate k (.index c.fd) ++ tail ∧
          (tail = [.system] ∨ tail = emulation) := by
        rw [hrun, ← hget]
        unfold Table.emulate
        rw [if_pos rfl]
        dsimp only
        cases (Table.getFdAttributesByFd ⟨E, []⟩ c.fd).2 with
        | none => exact ⟨[.system], rfl, Or.inl rfl⟩
        | some A =>
            dsimp only
            split
            · exact ⟨[.system], rfl, Or.inl rfl⟩
            · exact ⟨emulation, rfl, Or.inr rfl⟩
      -- with or without the emulation the system call is made
      obtain ⟨tail, huses, hor⟩ := htail
      have hall : (∀ u ∈ tail, u.Plain) ∧ Use.system ∈ tail := by
        cases hor with
        | inl h =>
            rw [h]
            exact ⟨fun u hu => Or.inl (List.mem_singleton.mp hu), List.mem_singleton.mpr rfl⟩
        | inr h =>
            rw [h]
            exact ⟨hplain, hsys⟩
      rw [safe_iff_looked huses hk (fun u hu => by cases hu) hall.1 (Or.inr hall.2)]
      simp

theorem connect_safe (fd : Int) (address : BitVec 128) (addressLen : Nat) (inProgress : Bool)
    (ready : Nat → Bool) : (HookCall.connect isHook fd address addressLen inProgress ready).Safe E ↔
      (isHook = true → fd ≠ -1) := by
  cases isHook with
  | false => exact iff_of_true (safe_unhooked rfl) (by simp)
  | true =>
      obtain ⟨k, hget, hk⟩ := getFdAttributesByFd_uses ⟨E, [.system]⟩ fd
      have htail : ∃ tail, ((HookCall.connect true fd address addressLen inProgress ready).run E).uses =
          [.system] ++ List.replicate k (.index fd) ++ tail ∧ ∀ u ∈ tail, u.Plain := by
        show ∃ tail, ((Table.mk E []).connect true fd address addressLen inProgress ready).uses = _ ∧ _
        rw [← hget]
        unfold Table.connect
        rw [if_pos rfl]
        dsimp only
        show ∃ tail, (match (Table.getFdAttributesByFd ⟨E, [.system]⟩ fd).2 with
          | none => _ | some A => _ : Table).uses = _ ∧ _
        cases (Table.getFdAttributesByFd ⟨E, [.system]⟩ fd).2 with
        | none => exact ⟨[], (List.append_nil _).symm, fun u hu => by cases hu⟩
        | some A =>
            dsimp only
            split
            · exact ⟨[], (List.append_nil _).symm, fun u hu => by cases hu⟩
            · cases inProgress with
              | false => exact ⟨[], (List.append_nil _).symm, fun u hu => by cases hu⟩
              | true =>
                  refine ⟨Table.connectPolls ready 5 0, ?_, connectPolls_plain ready 5 0⟩
                  rw [if_pos rfl]
                  -- the address is copied through the pointer, not through the table
                  split <;> rfl
      obtain ⟨tail, huses, hplain⟩ := htail
      rw [safe_iff_looked huses hk (fun u hu => Or.inl (List.mem_singleton.mp hu)) hplain
        (Or.inl (List.mem_singleton.mpr rfl))]
      simp [HookCall.fd]

/-- `close` is in range for any descriptor but -1, ... -/
theorem close_safe (fd : Int) :
    (HookCall.close isHook fd).Safe E ↔ (isHook = true → fd ≠ -1) := by
  cases isHook with
  | false => exact iff_of_true (safe_unhooked rfl) (by simp)
  | true =>
      obtain ⟨k, hdel, hk⟩ := deleteAttributes_uses ⟨E, []⟩ fd
      have huses : ((HookCall.close true fd).run E).uses =
          [] ++ List.replicate k (.index fd) ++ [.system] := by
        show (Table.deleteAttributes ⟨E, []⟩ fd).uses ++ [.system] = _
        rw [hdel]
      rw [safe_iff_looked huses hk (fun u hu => by cases hu)
        (fun u hu => Or.inl (List.mem_singleton.mp hu)) (Or.inr (List.mem_singleton.mpr rfl))]
      simp [HookCall.fd]

/-- **The calls that look up with `CreateAFdAttributes`** use their number as an index; `tail` is what they
do behind the last lookup. -/
theorem safe_iff_created {c : HookCall} {pre tail : List Use} (huses : (c.run E).uses = pre ++ tail)
    (hpre : ∀ u ∈ pre, u.Plain ∨ u = .index c.fd) (hindex : Use.index c.fd ∈ pre)
    (hplain : ∀ u ∈ tail, u.Plain) : c.Safe E ↔ InArray c.fd := by
  have hall : ∀ u ∈ (c.run E).uses, u.Plain ∨ u = .index c.fd := by
    intro u hu
    rw [huses] at hu
    cases List.mem_append.mp hu with
    | inl h => exact hpre u h
    | inr h => exact Or.inl (hplain u h)
  rw [safe_iff hall, huses]
  exact ⟨fun hand => hand.1 (List.mem_append_left _ hindex),
    fun hin => ⟨fun _ => hin, fun hnot => absurd hin hnot⟩⟩

/-- ... `write` for those inside the array, ... -/
theorem write_safe (fd : Int) (turns : Nat) :
    (HookCall.write isHook fd turns).Safe E ↔ (isHook = true → InArray fd) := by
  cases isHook with
  | false => exact iff_of_true (safe_unhooked rfl) (by simp)
  | true =>
      obtain ⟨hcreate, A, hA⟩ := createAFdAttributes_uses ⟨E, []⟩ fd
      have htail : ∃ tail, ((HookCall.write true fd turns).run E).uses =
          [.index fd, .index fd] ++ tail ∧ ∀ u ∈ tail, u.Plain := by
        show ∃ tail, ((Table.mk E []).write true fd turns).uses = _ ∧ _
        unfold Table.write
        rw [if_pos rfl]
        dsimp only
        rw [hA]
        dsimp only
        split
        · refine ⟨[.system], ?_, fun u hu => Or.inl (List.mem_singleton.mp hu)⟩
          show (Table.createAFdAttributes ⟨E, []⟩ fd).1.uses ++ _ = _
          rw [hcreate]
          rfl
        · refine ⟨_, ?_, loop_plain turns⟩
          show (Table.createAFdAttributes ⟨E, []⟩ fd).1.uses ++ _ = _
          rw [hcreate]
          rfl
      obtain ⟨tail, huses, hplain⟩ := htail
      rw [safe_iff_created huses (by simp [HookCall.fd]) (by simp [HookCall.fd]) hplain]
      simp [HookCall.fd]

/-- `fcntl` behind its test. -/
theorem fcntl_uses (s : Table) {fd : Int} (h0 : 0 ≤ fd) (cmd : FcntlCmd) : ∃ tail,
    (s.fcntl fd cmd).uses = s.uses ++ [.index fd, .index fd] ++ tail ∧ ∀ u ∈ tail, u.Plain := by
  obtain ⟨hcreate, A, hA⟩ := createAFdAttributes_uses s fd
  have hsys : ∀ u ∈ [Use.system], u.Plain := fun u hu => Or.inl (List.mem_singleton.mp hu)
  unfold Table.fcntl
  rw [if_neg (by omega), ← hcreate]
  dsimp only
  cases cmd with
  | setfl param ret =>
      refine ⟨[.system], ?_, hsys⟩
      dsimp only
      rw [hA]
      dsimp only
      split <;> rfl
  | unknown => exact ⟨[], (List.append_nil _).symm, fun u hu => by cases hu⟩
  | getfd | setfd | getfl | getlk | setlk | setlkw | dupfd => exact ⟨[.system], rfl, hsys⟩

/-- ... and `fcntl` too, hooked or not. -/
theorem fcntl_safe (fd : Int) (cmd : FcntlCmd) : (HookCall.fcntl fd cmd).Safe E ↔ InArray fd := by
  by_cases h0 : 0 ≤ fd
  · obtain ⟨tail, huses, hplain⟩ := fcntl_uses ⟨E, []⟩ h0 cmd
    have huses' : ((HookCall.fcntl fd cmd).run E).uses = [.index fd, .index fd] ++ tail := huses
    exact safe_iff_created huses' (by simp [HookCall.fd]) (by simp [HookCall.fd]) hplain
  · -- it returns its line number
    have hnot : ¬ InArray fd := fun hin => h0 hin.1
    have huses : ((HookCall.fcntl fd cmd).run E).uses = [] := by
      show ((Table.mk E []).fcntl fd cmd).uses = []
      unfold Table.fcntl
      rw [if_pos (by omega)]
    refine iff_of_false ?_ hnot
    intro hsafe
    have hsys := (hsafe.plain hnot).1
    rw [huses] at hsys
    cases hsys

/-- `AcceptFd2Attributes` tests one end of the range itself. -/
theorem accept_safe (fd : Int) : (HookCall.accept fd).Safe E ↔ fd < AttributesLength := by
  by_cases h0 : fd < 0
  -- a failed `accept` does not look anything up
  · have huses : ((HookCall.accept fd).run E).uses = [.system] := by
      show ((Table.mk E []).acceptFd2Attributes fd).uses = _
      unfold Table.acceptFd2Attributes
      rw [if_pos h0]
      rfl
    refine iff_of_true (safe_unhooked huses) ?_
    unfold AttributesLength
    omega
  · obtain ⟨hcreate, -⟩ := createAFdAttributes_uses ⟨E, [.system]⟩ fd
    have huses : ((HookCall.accept fd).run E).uses = [.system, .index fd, .index fd] ++ [] := by
      show ((Table.mk E []).acceptFd2Attributes fd).uses = _
      unfold Table.acceptFd2Attributes
      rw [if_neg h0]
      exact hcreate
    rw [safe_iff_created huses (by simp [HookCall.fd, Use.Plain]) (by simp [HookCall.fd])
      fun u hu => by cases hu]
    unfold InArray
    show 0 ≤ fd ∧ _ ↔ _
    exact ⟨fun hin => hin.2, fun hlt => ⟨by omega, hlt⟩⟩

theorem socket_safe (fd domain : Int) (flags : Flags) (ret : Int) :
    (HookCall.socket isHook fd domain flags ret).Safe E ↔
      (isHook = true → fd < AttributesLength) := by
  cases isHook with
  | false => exact iff_of_true (safe_unhooked rfl) (by simp)
  | true =>
      by_cases h0 : fd < 0
      · have huses : ((HookCall.socket true fd domain flags ret).run E).uses = [.system] := by
          show ((Table.mk E []).socket true fd domain flags ret).uses = _
          unfold Table.socket
          rw [if_pos rfl, if_pos h0]
          rfl
        refine iff_of_true (safe_unhooked huses) fun _ => ?_
        unfold AttributesLength
        omega
      · obtain ⟨hcreate, A, hA⟩ := createAFdAttributes_uses ⟨E, [.system]⟩ fd
        have htail : ∃ tail, ((HookCall.socket true fd domain flags ret).run E).uses =
            [.system, .index fd, .index fd, .system, .index fd, .index fd] ++ tail ∧
            ∀ u ∈ tail, u.Plain := by
          show ∃ tail, ((Table.mk E []).socket true fd domain flags ret).uses = _ ∧ _
          unfold Table.socket
          rw [if_pos rfl, if_neg h0]
          show ∃ tail, (match (Table.createAFdAttributes ⟨E, [.system]⟩ fd).2 with
            | none => _ | some A => _ : Table).uses = _ ∧ _
          rw [hA]
          -- `fcntl` looks the descriptor up again
          have hnonneg : 0 ≤ fd := by omega
          obtain ⟨tail, huses, hplain⟩ := fcntl_uses
            (((Table.createAFdAttributes ⟨E, [.system]⟩ fd).1.setEntry fd { A with domain }).note
              [.system]) hnonneg (.setfl flags ret)
          refine ⟨tail, ?_, hplain⟩
          refine huses.trans ?_
          show (Table.createAFdAttributes ⟨E, [.system]⟩ fd).1.uses ++ _ ++ _ ++ _ = _
          rw [hcreate]
          rfl
        obtain ⟨tail, huses, hplain⟩ := htail
        rw [safe_iff_created huses (by simp [HookCall.fd, Use.Plain]) (by simp [HookCall.fd]) hplain]
        unfold InArray
        show 0 ≤ fd ∧ _ ↔ _
        exact ⟨fun hin _ => hin.2, fun hlt => ⟨by omega, hlt rfl⟩⟩

/-- **One call keeps to the table exactly under its condition**, whatever the table holds. -/
theorem covered_iff_safe (c : HookCall) (E : Entries) : c.Covered ↔ c.Safe E := by
  have hwait : ∀ u ∈ [Use.poll, .system], u.Plain :=
    fun u hu => loop_plain 1 u (List.mem_cons_of_mem _ hu)
  cases c with
  | socket isHook fd domain flags ret => exact (socket_safe fd domain flags ret).symm
  | read isHook fd => exact (emulate_safe (c := .read isHook fd) rfl (by simp) hwait).symm
  | write isHook fd turns => exact (write_safe fd turns).symm
  | fcntl fd cmd => exact (fcntl_safe fd cmd).symm
  | accept fd => exact (accept_safe fd).symm
  | connect isHook fd address addressLen inProgress ready =>
      exact (connect_safe fd address addressLen inProgress ready).symm
  | close isHook fd => exact (close_safe fd).symm
  | sendto isHook fd again =>
      cases again with
      | true => exact (emulate_safe (c := .sendto isHook fd true) rfl (by simp) (loop_plain 1)).symm
      | false => exact (emulate_safe (c := .sendto isHook fd false) rfl (by simp) (loop_plain 0)).symm
  | recvfrom isHook fd =>
      exact (emulate_safe (c := .recvfrom isHook fd) rfl (by simp) (loop_plain 1)).symm
  | send isHook fd turns =>
      exact (emulate_safe (c := .send isHook fd turns) rfl (by simp) (loop_plain turns)).symm
  | recv isHook fd => exact (emulate_safe (c := .recv isHook fd) rfl (by simp) hwait).symm

/-! ## §4. Every run. -/

/-- The calls of a program, one after the other. -/
def TableStep (E : Entries) (c : HookCall) (E' : Entries) : Prop := E' = (c.run E).entries

/-- **The calls that keep to the table.**  Whatever the table holds at first, the runs all of whose calls
index inside the array, and leave it alone for a number outside, are exactly those whose every call is
covered. -/
theorem table_index_iff (E E' : Entries) (cs : List HookCall) :
    Run (fun E c E' => TableStep E c E' ∧ c.Covered) E cs E' ↔
      Run (fun E c E' => TableStep E c E' ∧ c.Safe E) E cs E' :=
  Run.guarded_iff_of_invariant (I := fun _ => True) (fun _ _ _ _ _ => trivial)
    (fun E c _ _ _ => covered_iff_safe c E) trivial

/-- A hooked `read` of `-1`, such as a failed `socket` returns, reads the word before the table. -/
theorem not_table_index_safe : ¬ ∀ (E E' : Entries) (cs : List HookCall),
    Run TableStep E cs E' → Run (fun E c E' => TableStep E c E' ∧ c.Safe E) E cs E' := by
  intro hclaim
  have hrun : Run TableStep (fun _ => none) ([] ++ [.read true (-1)]) (fun _ => none) :=
    .snoc (.nil _) rfl
  obtain ⟨E, -, -, hsafe⟩ := (hclaim _ _ _ hrun).unsnoc
  have hindex : Use.index (-1) ∈ ((HookCall.read true (-1)).run E).uses := by
    show Use.index (-1) ∈ ((Table.mk E []).emulate true (-1) _).uses
    unfold Table.emulate Table.getFdAttributesByFd
    rw [if_pos rfl, if_pos (by decide)]
    dsimp only
    cases E (-1) with
    | none => exact List.mem_append_left _ (List.mem_singleton.mpr rfl)
    | some A =>
        dsimp only
        split
        · exact List.mem_append_left _ (List.mem_singleton.mpr rfl)
        · exact List.mem_append_left _ (List.mem_singleton.mpr rfl)
  exact absurd (hsafe.inArray (-1) hindex).1 (by decide)

end RocketCo.Hook
