/-
  RocketCo.Hook.Attributes — what the hooks remember of a descriptor, and what the kernel does.

  The hooked `read`, `write` and so on emulate blocking with `poll` when `Fd2Attributes` has an entry
  for the descriptor in which `O_NONBLOCK` is not set.  That is right when

      the kernel does not block on the descriptor, and
      an entry with `O_NONBLOCK` says what the user has asked of this descriptor,

  which five entry points have to keep, each in a hooked and an unhooked form.  The table is indexed by
  descriptor number, and the kernel uses a number again.

  Main result: `attributes_coupled_iff`.
-/
import RocketCo.Lib.Run
import Mathlib.Logic.Function.Basic

namespace RocketCo.Hook

open RocketCo.Lib

/-! ## §1. Flags. -/

abbrev Flags := BitVec 32

def O_RDWR : Flags := 2

def O_APPEND : Flags := BitVec.twoPow 32 10

def O_NONBLOCK : Flags := BitVec.twoPow 32 11

def O_ASYNC : Flags := BitVec.twoPow 32 13

def O_DIRECT : Flags := BitVec.twoPow 32 14

def O_NOATIME : Flags := BitVec.twoPow 32 18

/-- The bits that the kernel's `F_SETFL` changes.  The comment in `fcntl` has the first three only. -/
def setflMask : Flags := O_APPEND ||| O_NONBLOCK ||| O_ASYNC ||| O_DIRECT ||| O_NOATIME

/-- `flags & O_NONBLOCK`. -/
def NonBlock (flags : Flags) : Prop := flags &&& O_NONBLOCK ≠ 0

instance (flags : Flags) : Decidable (NonBlock flags) := inferInstanceAs (Decidable (_ ≠ _))

/-- `O_NONBLOCK` is bit 11. -/
theorem nonBlock_iff (flags : Flags) : NonBlock flags ↔ flags.getLsbD 11 = true := by
  unfold NonBlock O_NONBLOCK
  rw [BitVec.and_twoPow]
  cases flags.getLsbD 11 with
  | true => simp; decide
  | false => simp

/-- The hooked `fcntl` asks for `O_NONBLOCK`. -/
theorem nonBlock_or (flags : Flags) : NonBlock (flags ||| O_NONBLOCK) := by
  rw [nonBlock_iff, BitVec.getLsbD_or]
  have hbit : O_NONBLOCK.getLsbD 11 = true := by decide
  rw [hbit, Bool.or_true]

/-- The flags of an open file after `F_SETFL`. -/
def setfl (old arg : Flags) : Flags := (old &&& ~~~setflMask) ||| (arg &&& setflMask)

/-- `F_SETFL` sets and clears it as it is told. -/
theorem nonBlock_setfl (old arg : Flags) : NonBlock (setfl old arg) ↔ NonBlock arg := by
  rw [nonBlock_iff, nonBlock_iff]
  have hmask : setflMask.getLsbD 11 = true := by decide
  have hnot : (~~~setflMask).getLsbD 11 = false := by decide
  unfold setfl
  rw [BitVec.getLsbD_or, BitVec.getLsbD_and, BitVec.getLsbD_and, hmask, hnot]
  simp

theorem not_nonBlock_zero : ¬ NonBlock 0 := by decide

theorem not_nonBlock_rdwr : ¬ NonBlock O_RDWR := by decide

/-! ## §2. The table and the kernel. -/

structure FdAttributes where
  addr : BitVec 128
  domain : Int
  fdFlag : Flags
  read_timeout : Int
  wirte_timeout : Int

/-- An open file; `asked` is what the user has set on it last (a ghost). -/
structure OpenFile where
  flags : Flags
  asked : Flags

/-- `Fd2Attributes`, and the kernel's descriptors of the process. -/
structure FdTable where
  Fd2Attributes : Int → Option FdAttributes
  kernel : Int → Option OpenFile

def FdTable.init : FdTable := ⟨fun _ => none, fun _ => none⟩

def AttributesLength : Int := 8196

/-- The number indexes the array. -/
def InArray (fd : Int) : Prop := 0 ≤ fd ∧ fd < AttributesLength

instance (fd : Int) : Decidable (InArray fd) := inferInstanceAs (Decidable (_ ∧ _))

/-- After `memset`, with the two timeouts. -/
def FdAttributes.fresh : FdAttributes where
  addr := 0
  domain := 0
  fdFlag := 0
  read_timeout := 1000
  wirte_timeout := 1000

namespace FdTable

/-- `CreateAFdAttributes`: the entry and the table; `none` when the array is left.  The test at its
start, `fd < 0 && fd >= AttributesLength`, never holds. -/
def createAFdAttributes (s : FdTable) (fd : Int) : Option (FdAttributes × FdTable) :=
  if InArray fd then
    match s.Fd2Attributes fd with
    | some Temp => some (Temp, s)
    | none =>
        some (.fresh, { s with
          Fd2Attributes := Function.update s.Fd2Attributes fd (some .fresh) })
  else none

/-- `DeleteAttributes`; it takes `-1` for an index. -/
def deleteAttributes (s : FdTable) (fd : Int) : Option FdTable :=
  if -1 ≤ fd ∧ fd < AttributesLength then
    if fd = -1 then none
    else
      match s.Fd2Attributes fd with
      | none => some s
      -- the entry is cleared and stays in the table
      | some A =>
          some { s with
            Fd2Attributes := Function.update s.Fd2Attributes fd
              (some { A with fdFlag := 0, domain := 0, addr := 0 }) }
  else some s

/-- An entry is written back. -/
def setAttributes (s : FdTable) (fd : Int) (A : FdAttributes) : FdTable :=
  { s with Fd2Attributes := Function.update s.Fd2Attributes fd (some A) }

/-- The kernel hands out a descriptor. -/
def openFd (s : FdTable) (fd : Int) (flags : Flags) : FdTable :=
  { s with kernel := Function.update s.kernel fd (some ⟨flags, flags⟩) }

/-- The kernel's `F_SETFL`, with the argument `asked` of the user's call: what it returns. -/
def kernelSetfl (s : FdTable) (fd : Int) (flag asked : Flags) (fails : Bool) : Int × FdTable :=
  match s.kernel fd with
  | none => (-1, s)
  | some file =>
      if fails then (-1, s)
      else
        (0, { s with
          kernel := Function.update s.kernel fd (some ⟨setfl file.flags flag, asked⟩) })

/-- `fcntl` with `F_SETFL`. -/
def fcntl (s : FdTable) (isHook : Bool) (fd : Int) (param : Flags) (fails : Bool) :
    Option FdTable :=
  if fd < 0 then some s
  else
    (s.createAFdAttributes fd).map fun r =>
      let flag := if isHook then param ||| O_NONBLOCK else param
      let k := r.2.kernelSetfl fd flag param fails
      -- the entry records what the user asked for, without the hook's `O_NONBLOCK`
      if k.1 = 0 then k.2.setAttributes fd { r.1 with fdFlag := param } else k.2

/-- `socket`; `fd` is what the kernel's `socket` returns, and `flags` those it opens it with. -/
def socket (s : FdTable) (isHook : Bool) (domain fd : Int) (flags : Flags) : Option FdTable :=
  if fd < 0 then some s
  else
    let s := s.openFd fd flags
    if isHook then
      (s.createAFdAttributes fd).bind fun r =>
        (r.2.setAttributes fd { r.1 with domain }).fcntl true fd flags false
    else some s

/-- `AcceptFd2Attributes`; a socket that `accept` returns does not have `O_NONBLOCK`. -/
def acceptFd2Attributes (s : FdTable) (fd : Int) : Option FdTable :=
  if fd < 0 then some s
  else ((s.openFd fd O_RDWR).createAFdAttributes fd).map Prod.snd

/-- `write`: what it does to the table. -/
def write (s : FdTable) (isHook : Bool) (fd : Int) : Option FdTable :=
  if isHook then (s.createAFdAttributes fd).map Prod.snd else some s

/-- `close`. -/
def close (s : FdTable) (isHook : Bool) (fd : Int) : Option FdTable :=
  let s' := if isHook then s.deleteAttributes fd else some s
  s'.map fun s => { s with kernel := Function.update s.kernel fd none }

end FdTable

inductive FdAction where
  | socket (isHook : Bool) (domain fd : Int) (flags : Flags)
  | accept (fd : Int)
  | setfl (isHook : Bool) (fd : Int) (param : Flags) (fails : Bool)
  | write (isHook : Bool) (fd : Int)
  | close (isHook : Bool) (fd : Int)

namespace FdTable

def step (s : FdTable) : FdAction → Option FdTable
  | .socket isHook domain fd flags => s.socket isHook domain fd flags
  | .accept fd => s.acceptFd2Attributes fd
  | .setfl isHook fd param fails => s.fcntl isHook fd param fails
  | .write isHook fd => s.write isHook fd
  | .close isHook fd => s.close isHook fd

/-- The kernel hands out numbers that are not in use. -/
def Allowed (s : FdTable) : FdAction → Prop
  | .socket _ _ fd _ | .accept fd => 0 ≤ fd → s.kernel fd = none
  | _ => True

def Step (s : FdTable) (a : FdAction) (t : FdTable) : Prop := s.Allowed a ∧ s.step a = some t

/-- A hooked caller's `read` or `write` emulates blocking. -/
def Emulates (s : FdTable) (fd : Int) : Prop :=
  ∃ A, s.Fd2Attributes fd = some A ∧ ¬ NonBlock A.fdFlag

/-- **The table and the kernel agree**: where blocking is emulated the kernel does not block, and where
it is not, the user has asked for that on this open file. -/
structure Coupled (s : FdTable) : Prop where
  emulated : ∀ fd file, s.kernel fd = some file → s.Emulates fd → NonBlock file.flags
  asked : ∀ fd file A, s.kernel fd = some file → s.Fd2Attributes fd = some A →
    NonBlock A.fdFlag → NonBlock file.asked

/-- There is an entry, or the kernel does not block. -/
def Prepared (s : FdTable) (fd : Int) : Prop :=
  ∀ file, s.kernel fd = some file → s.Fd2Attributes fd ≠ none ∨ NonBlock file.flags

/-- **When a call keeps them in agreement.** -/
def Keeps (s : FdTable) : FdAction → Prop
  | .socket isHook _ fd flags =>
      isHook = false → 0 ≤ fd → s.Fd2Attributes fd = none ∨ NonBlock flags
  | .accept fd => fd < 0
  | .setfl isHook fd param fails =>
      0 ≤ fd → s.kernel fd ≠ none →
        if fails then s.Prepared fd else isHook = true ∨ NonBlock param
  | .write isHook fd => isHook = true → s.Prepared fd
  | .close _ _ => True

end FdTable

variable {s t : FdTable} {a : FdAction} {fd : Int}

/-! ## §3. One descriptor. -/

/-- The table and the kernel agree on one descriptor. -/
def FdTable.CoupledAt (s : FdTable) (fd : Int) : Prop :=
  ∀ file A, s.kernel fd = some file → s.Fd2Attributes fd = some A →
    if NonBlock A.fdFlag then NonBlock file.asked else NonBlock file.flags

/-- Coupled is coupled at each descriptor. -/
theorem coupled_iff : s.Coupled ↔ ∀ fd, s.CoupledAt fd := by
  constructor
  · intro h fd file A hfile hA
    by_cases hflag : NonBlock A.fdFlag
    · rw [if_pos hflag]
      exact h.asked fd file A hfile hA hflag
    · rw [if_neg hflag]
      exact h.emulated fd file hfile ⟨A, hA, hflag⟩
  · intro h
    constructor
    case emulated =>
      intro fd file hfile hem
      obtain ⟨A, hA, hflag⟩ := hem
      have hat := h fd file A hfile hA
      rwa [if_neg hflag] at hat
    case asked =>
      intro fd file A hfile hA hflag
      have hat := h fd file A hfile hA
      rwa [if_pos hflag] at hat

/-- The table starts without descriptors. -/
theorem coupled_init : FdTable.init.Coupled := by
  rw [coupled_iff]
  intro fd file A hfile
  cases hfile

/-- A call changes the entry and the file of its own descriptor only. -/
theorem coupled_local (h : s.Coupled)
    (hother : ∀ fd', fd' ≠ fd → t.kernel fd' = s.kernel fd' ∧
      t.Fd2Attributes fd' = s.Fd2Attributes fd') : t.Coupled ↔ t.CoupledAt fd := by
  rw [coupled_iff]
  constructor
  · exact fun hall => hall fd
  · intro hat fd'
    by_cases hfd : fd' = fd
    · rw [hfd]
      exact hat
    · unfold FdTable.CoupledAt
      rw [(hother fd' hfd).1, (hother fd' hfd).2]
      exact coupled_iff.mp h fd'

/-- What both hold of an open descriptor. -/
theorem coupledAt_of {file : OpenFile} {A : FdAttributes} (hfile : t.kernel fd = some file)
    (hA : t.Fd2Attributes fd = some A) : t.CoupledAt fd ↔
      if NonBlock A.fdFlag then NonBlock file.asked else NonBlock file.flags := by
  unfold FdTable.CoupledAt
  rw [hfile, hA]
  constructor
  · exact fun hall => hall file A rfl rfl
  · intro hat file' A' hfile' hA'
    rw [← Option.some.inj hfile', ← Option.some.inj hA']
    exact hat

/-- Of a closed descriptor nothing is asked. -/
theorem coupledAt_closed (hfile : t.kernel fd = none) : t.CoupledAt fd := by
  intro file A hfile'
  rw [hfile] at hfile'
  cases hfile'

/-- **`CreateAFdAttributes`** returns the entry there is, or a fresh one. -/
theorem create_spec {A : FdAttributes} (h : s.createAFdAttributes fd = some (A, t)) :
    t.kernel = s.kernel ∧ t.Fd2Attributes fd = some A ∧
      (∀ fd', fd' ≠ fd → t.Fd2Attributes fd' = s.Fd2Attributes fd') ∧
      (s.Fd2Attributes fd = some A ∨ s.Fd2Attributes fd = none ∧ A = .fresh) := by
  unfold FdTable.createAFdAttributes at h
  split at h
  · cases hA : s.Fd2Attributes fd with
    | some B =>
        simp only [hA, Option.some.injEq, Prod.mk.injEq] at h
        rw [← h.1, ← h.2]
        exact ⟨rfl, hA, fun _ _ => rfl, Or.inl rfl⟩
    | none =>
        simp only [hA, Option.some.injEq, Prod.mk.injEq] at h
        rw [← h.1, ← h.2]
        exact ⟨rfl, Function.update_self _ _ _, fun fd' hne => Function.update_of_ne hne _ _,
          Or.inr ⟨rfl, rfl⟩⟩
  · cases h

/-- An entry that is made, or found, for a descriptor with its kernel flags unchanged. -/
theorem create_coupled (h : s.Coupled) {A : FdAttributes}
    (hcreate : s.createAFdAttributes fd = some (A, t)) : t.Coupled ↔ s.Prepared fd := by
  obtain ⟨hkernel, hA, hother, hwhich⟩ := create_spec hcreate
  rw [coupled_local h fun fd' hne => ⟨by rw [hkernel], hother fd' hne⟩]
  cases hfile : s.kernel fd with
  | none =>
      have hclosed : t.kernel fd = none := by
        rw [hkernel]
        exact hfile
      constructor
      · intro _ file hfile'
        rw [hfile] at hfile'
        cases hfile'
      · exact fun _ => coupledAt_closed hclosed
  | some file =>
      have hopen : t.kernel fd = some file := by
        rw [hkernel]
        exact hfile
      rw [coupledAt_of hopen hA]
      unfold FdTable.Prepared
      rw [hfile]
      cases hwhich with
      | inl hold =>
          have hat := (coupledAt_of hfile hold).mp (coupled_iff.mp h fd)
          simp only [hat, hold]
          simp
      | inr hnew =>
          have hfresh : ¬ NonBlock FdAttributes.fresh.fdFlag := not_nonBlock_zero
          rw [hnew.1, hnew.2, if_neg hfresh]
          simp

/-! ## §4. Every call. -/

/-- `fcntl` touches its own descriptor only. -/
theorem fcntl_other {isHook : Bool} {param : Flags} {fails : Bool}
    (h : s.fcntl isHook fd param fails = some t) :
    ∀ fd', fd' ≠ fd → t.kernel fd' = s.kernel fd' ∧
      t.Fd2Attributes fd' = s.Fd2Attributes fd' := by
  intro fd' hne
  unfold FdTable.fcntl at h
  split at h
  · rw [← Option.some.inj h]
    exact ⟨rfl, rfl⟩
  · obtain ⟨r, hr, heq⟩ := Option.map_eq_some_iff.mp h
    obtain ⟨hkernel, -, hother, -⟩ := create_spec (A := r.1) (t := r.2) hr
    rw [← heq]
    unfold FdTable.kernelSetfl FdTable.setAttributes
    rw [hkernel]
    cases hfile : s.kernel fd with
    | none =>
        dsimp only
        rw [if_neg (by decide)]
        exact ⟨by rw [hkernel], hother fd' hne⟩
    | some file =>
        cases fails with
        | true => exact ⟨by show r.2.kernel fd' = _; rw [hkernel], hother fd' hne⟩
        | false =>
            refine ⟨?_, ?_⟩
            · show Function.update s.kernel fd _ fd' = _
              exact Function.update_of_ne hne _ _
            · show Function.update r.2.Fd2Attributes fd _ fd' = _
              rw [Function.update_of_ne hne]
              exact hother fd' hne

/-- **`F_SETFL` that succeeds** writes the same argument to the entry and, hooked with `O_NONBLOCK`, to
the kernel. -/
theorem fcntl_done {isHook : Bool} {param : Flags} {file : OpenFile} (h0 : 0 ≤ fd)
    (hfile : s.kernel fd = some file) (h : s.fcntl isHook fd param false = some t) :
    ∃ A, t.kernel fd = some ⟨setfl file.flags (if isHook then param ||| O_NONBLOCK else param),
        param⟩ ∧ t.Fd2Attributes fd = some A ∧ A.fdFlag = param := by
  unfold FdTable.fcntl at h
  rw [if_neg (by omega)] at h
  obtain ⟨r, hr, heq⟩ := Option.map_eq_some_iff.mp h
  obtain ⟨hkernel, -, -, -⟩ := create_spec (A := r.1) (t := r.2) hr
  have hfile' : r.2.kernel fd = some file := by
    rw [hkernel]
    exact hfile
  rw [← heq]
  unfold FdTable.kernelSetfl
  rw [hfile']
  refine ⟨{ r.1 with fdFlag := param }, ?_, ?_, rfl⟩
  · exact Function.update_self _ _ _
  · exact Function.update_self _ _ _

/-- One that does not leaves an entry behind. -/
theorem fcntl_failed {isHook : Bool} {param : Flags} {fails : Bool} (h0 : 0 ≤ fd)
    (hfails : fails = true ∨ s.kernel fd = none) (h : s.fcntl isHook fd param fails = some t) :
    ∃ A, s.createAFdAttributes fd = some (A, t) := by
  unfold FdTable.fcntl at h
  rw [if_neg (by omega)] at h
  obtain ⟨r, hr, heq⟩ := Option.map_eq_some_iff.mp h
  obtain ⟨hkernel, -, -, -⟩ := create_spec (A := r.1) (t := r.2) hr
  have hsame : r.2 = t := by
    rw [← heq]
    unfold FdTable.kernelSetfl
    cases hfile : r.2.kernel fd with
    | none => rfl
    | some file =>
        cases hfails with
        | inl htrue => rw [htrue]; rfl
        | inr hnone =>
            rw [hkernel, hnone] at hfile
            cases hfile
  rw [← hsame]
  exact ⟨r.1, hr⟩

/-- **`fcntl`** keeps the coupling under its condition, ... -/
theorem setfl_coupled (h : s.Coupled) {isHook : Bool} {param : Flags} {fails : Bool}
    (hstep : s.fcntl isHook fd param fails = some t) :
    s.Keeps (.setfl isHook fd param fails) ↔ t.Coupled := by
  by_cases h0 : 0 ≤ fd
  · cases hfile : s.kernel fd with
    | none =>
        obtain ⟨A, hcreate⟩ := fcntl_failed h0 (Or.inr hfile) hstep
        rw [create_coupled h hcreate]
        constructor
        · intro _ file hfile'
          rw [hfile] at hfile'
          cases hfile'
        · exact fun _ _ hne => absurd hfile hne
    | some file =>
        have hopen : s.kernel fd ≠ none := by simp [hfile]
        cases fails with
        | true =>
            obtain ⟨A, hcreate⟩ := fcntl_failed h0 (Or.inl rfl) hstep
            rw [create_coupled h hcreate]
            exact ⟨fun hkeeps => hkeeps h0 hopen, fun hprep _ _ => hprep⟩
        | false =>
            obtain ⟨A, hkernel, hA, hflag⟩ := fcntl_done h0 hfile hstep
            rw [coupled_local h (fcntl_other hstep), coupledAt_of hkernel hA, hflag]
            have hkeeps : s.Keeps (.setfl isHook fd param false) ↔
                isHook = true ∨ NonBlock param :=
              ⟨fun hall => hall h0 hopen, fun hor _ _ => hor⟩
            rw [hkeeps, nonBlock_setfl]
            -- with `O_NONBLOCK` in the argument there is nothing to emulate
            by_cases hparam : NonBlock param
            · rw [if_pos hparam]
              exact ⟨fun _ => hparam, fun _ => Or.inr hparam⟩
            · rw [if_neg hparam]
              cases isHook with
              | true => exact ⟨fun _ => nonBlock_or param, fun _ => Or.inl rfl⟩
              | false =>
                  rw [if_neg (by simp)]
                  simp [hparam]
  · unfold FdTable.fcntl at hstep
    rw [if_pos (by omega)] at hstep
    rw [← Option.some.inj hstep]
    exact ⟨fun _ => h, fun _ h0' => absurd h0' h0⟩

/-- A descriptor that was free and is open now. -/
theorem openFd_other (s : FdTable) (flags : Flags) {fd' : Int} (hne : fd' ≠ fd) :
    (s.openFd fd flags).kernel fd' = s.kernel fd' := Function.update_of_ne hne _ _

/-- A fresh descriptor has the flags it was opened with. -/
theorem openFd_kernel (s : FdTable) (flags : Flags) :
    (s.openFd fd flags).kernel fd = some ⟨flags, flags⟩ := Function.update_self _ _ _

/-- A new file agrees with an entry from before only when the user asks for `O_NONBLOCK` at once. -/
theorem openFd_coupledAt (s : FdTable) (flags : Flags) :
    (s.openFd fd flags).CoupledAt fd ↔ s.Fd2Attributes fd = none ∨ NonBlock flags := by
  have hkernel : (s.openFd fd flags).kernel fd = some ⟨flags, flags⟩ := openFd_kernel s flags
  cases hA : s.Fd2Attributes fd with
  | none =>
      constructor
      · exact fun _ => Or.inl rfl
      · intro _ file A _ hA'
        have hA'' : s.Fd2Attributes fd = some A := hA'
        rw [hA] at hA''
        cases hA''
  | some A =>
      have hA' : (s.openFd fd flags).Fd2Attributes fd = some A := hA
      rw [coupledAt_of hkernel hA']
      simp

/-- ... so does **`socket`**, ... -/
theorem socket_coupled (h : s.Coupled) {isHook : Bool} {domain : Int} {flags : Flags}
    (hstep : s.socket isHook domain fd flags = some t) :
    s.Keeps (.socket isHook domain fd flags) ↔ t.Coupled := by
  unfold FdTable.socket at hstep
  by_cases hneg : fd < 0
  · rw [if_pos hneg] at hstep
    rw [← Option.some.inj hstep]
    exact ⟨fun _ => h, fun _ _ h0 => absurd h0 (by omega)⟩
  · rw [if_neg hneg] at hstep
    dsimp only at hstep
    have hother : ∀ fd', fd' ≠ fd → (s.openFd fd flags).kernel fd' = s.kernel fd' ∧
        (s.openFd fd flags).Fd2Attributes fd' = s.Fd2Attributes fd' :=
      fun fd' hne => ⟨openFd_other s flags hne, rfl⟩
    cases isHook with
    | false =>
        rw [if_neg (by simp)] at hstep
        rw [← Option.some.inj hstep, coupled_local h hother, openFd_coupledAt]
        exact ⟨fun hkeeps => hkeeps rfl (by omega), fun hor _ _ => hor⟩
    | true =>
        rw [if_pos rfl] at hstep
        obtain ⟨r, hr, hfcntl⟩ := Option.bind_eq_some_iff.mp hstep
        obtain ⟨hkernel, -, hrest, -⟩ := create_spec (A := r.1) (t := r.2) hr
        -- `fcntl` writes both over, whatever was there
        have hopen : (r.2.setAttributes fd { r.1 with domain }).kernel fd =
            some ⟨flags, flags⟩ := by
          show r.2.kernel fd = _
          rw [hkernel]
          exact openFd_kernel s flags
        obtain ⟨A, hkernel', hA, hflag⟩ := fcntl_done (by omega) hopen hfcntl
        have hlocal : ∀ fd', fd' ≠ fd → t.kernel fd' = s.kernel fd' ∧
            t.Fd2Attributes fd' = s.Fd2Attributes fd' := by
          intro fd' hne
          obtain ⟨hk, ha⟩ := fcntl_other hfcntl fd' hne
          rw [hk, ha]
          refine ⟨?_, ?_⟩
          · show r.2.kernel fd' = _
            rw [hkernel]
            exact openFd_other s flags hne
          · show Function.update r.2.Fd2Attributes fd _ fd' = _
            rw [Function.update_of_ne hne, hrest fd' hne]
            rfl
        rw [coupled_local h hlocal, coupledAt_of hkernel' hA, hflag, nonBlock_setfl, if_pos rfl]
        constructor
        · intro _
          split
          · assumption
          · exact nonBlock_or flags
        · intro _ hfalse
          cases hfalse

/-- ... so does **`AcceptFd2Attributes`** ... -/
theorem accept_coupled (h : s.Coupled) (hstep : s.acceptFd2Attributes fd = some t) :
    s.Keeps (.accept fd) ↔ t.Coupled := by
  unfold FdTable.acceptFd2Attributes at hstep
  by_cases hneg : fd < 0
  · rw [if_pos hneg] at hstep
    rw [← Option.some.inj hstep]
    exact ⟨fun _ => h, fun _ => hneg⟩
  · rw [if_neg hneg] at hstep
    obtain ⟨r, hr, heq⟩ := Option.map_eq_some_iff.mp hstep
    obtain ⟨hkernel, hA, hrest, -⟩ := create_spec (A := r.1) (t := r.2) hr
    rw [heq] at hkernel hA hrest
    have hopen : t.kernel fd = some ⟨O_RDWR, O_RDWR⟩ := by
      rw [hkernel]
      exact openFd_kernel s O_RDWR
    constructor
    · exact fun hkeeps => absurd hkeeps hneg
    · intro hcoupled
      -- the file has `O_NONBLOCK` neither in its flags nor in what was asked
      have hat := (coupledAt_of hopen hA).mp (coupled_iff.mp hcoupled fd)
      split at hat
      · exact absurd hat not_nonBlock_rdwr
      · exact absurd hat not_nonBlock_rdwr

/-- ... and so does **`write`**, which makes attributes where there are none. -/
theorem write_coupled (h : s.Coupled) {isHook : Bool} (hstep : s.write isHook fd = some t) :
    s.Keeps (.write isHook fd) ↔ t.Coupled := by
  unfold FdTable.write at hstep
  cases isHook with
  | false =>
      rw [if_neg (by simp)] at hstep
      rw [← Option.some.inj hstep]
      exact ⟨fun _ => h, fun _ hfalse => by cases hfalse⟩
  | true =>
      rw [if_pos rfl] at hstep
      obtain ⟨r, hr, heq⟩ := Option.map_eq_some_iff.mp hstep
      rw [← heq, create_coupled (A := r.1) (t := r.2) h hr]
      exact ⟨fun hkeeps => hkeeps rfl, fun hprep _ => hprep⟩

theorem deleteAttributes_same (h : s.deleteAttributes fd = some t) : t.kernel = s.kernel ∧
    ∀ fd', fd' ≠ fd → t.Fd2Attributes fd' = s.Fd2Attributes fd' := by
  unfold FdTable.deleteAttributes at h
  split at h
  · split at h
    · cases h
    · cases hA : s.Fd2Attributes fd with
      | none =>
          rw [hA] at h
          rw [← Option.some.inj h]
          exact ⟨rfl, fun _ _ => rfl⟩
      | some A =>
          rw [hA] at h
          rw [← Option.some.inj h]
          exact ⟨rfl, fun fd' hne => Function.update_of_ne hne _ _⟩
  · rw [← Option.some.inj h]
    exact ⟨rfl, fun _ _ => rfl⟩

/-- **`close`** always does. -/
theorem close_coupled (h : s.Coupled) {isHook : Bool} (hstep : s.close isHook fd = some t) :
    t.Coupled := by
  obtain ⟨u, hu, heq⟩ := Option.map_eq_some_iff.mp hstep
  have hsame : u.kernel = s.kernel ∧
      ∀ fd', fd' ≠ fd → u.Fd2Attributes fd' = s.Fd2Attributes fd' := by
    cases isHook with
    | true => exact deleteAttributes_same hu
    | false =>
        have hsu : s = u := Option.some.inj hu
        rw [hsu]
        exact ⟨rfl, fun _ _ => rfl⟩
  rw [← heq]
  have hother : ∀ fd', fd' ≠ fd → Function.update u.kernel fd none fd' = s.kernel fd' ∧
      u.Fd2Attributes fd' = s.Fd2Attributes fd' := by
    intro fd' hne
    rw [Function.update_of_ne hne, hsame.1]
    exact ⟨rfl, hsame.2 fd' hne⟩
  exact (coupled_local h hother).mpr (coupledAt_closed (Function.update_self _ _ _))

/-- **One call keeps the agreement exactly under its condition.** -/
theorem step_coupled (h : s.Coupled) (hstep : s.Step a t) : s.Keeps a ↔ t.Coupled := by
  obtain ⟨-, hstep⟩ := hstep
  cases a with
  | socket isHook domain fd flags => exact socket_coupled h hstep
  | accept fd => exact accept_coupled h hstep
  | setfl isHook fd param fails => exact setfl_coupled h hstep
  | write isHook fd => exact write_coupled h hstep
  | close isHook fd => exact ⟨fun _ => close_coupled h hstep, fun _ => trivial⟩

/-! ## §5. Every run. -/

/-- **The calls that keep table and kernel in agreement.**  The runs in whose every state blocking is
emulated only where the kernel does not block, and left out only where the user has asked for it, are
exactly those whose every call meets its condition. -/
theorem attributes_coupled_iff (as : List FdAction) (s : FdTable) :
    Run (fun s a t => s.Step a t ∧ s.Keeps a) .init as s ↔
      Run (fun s a t => s.Step a t ∧ t.Coupled) .init as s :=
  Run.guarded_iff (fun _ _ _ h hstep => step_coupled h hstep) coupled_init

/-- A hooked caller accepts a connection: its `read` emulates blocking on a descriptor that blocks. -/
theorem not_attributes_coupled : ¬ ∀ (as : List FdAction) (s : FdTable),
    Run FdTable.Step .init as s → s.Coupled := by
  intro hclaim
  obtain ⟨t, ht, htest⟩ : ∃ t, FdTable.init.step (.accept 5) = some t ∧
      ((t.kernel 5).map OpenFile.flags = some O_RDWR ∧
        (t.Fd2Attributes 5).map FdAttributes.fdFlag = some 0) := ⟨_, rfl, by decide⟩
  have hrun : Run FdTable.Step .init ([] ++ [.accept 5]) t := .snoc (.nil _) ⟨fun _ => rfl, ht⟩
  obtain ⟨file, hfile, hflags⟩ := Option.map_eq_some_iff.mp htest.1
  obtain ⟨A, hA, hflag⟩ := Option.map_eq_some_iff.mp htest.2
  have hemulates : t.Emulates 5 := ⟨A, hA, by rw [hflag]; exact not_nonBlock_zero⟩
  have hblocks := (hclaim _ t hrun).emulated 5 file hfile hemulates
  rw [hflags] at hblocks
  exact not_nonBlock_rdwr hblocks

end RocketCo.Hook
