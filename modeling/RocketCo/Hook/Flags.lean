/-
  RocketCo.Hook.Flags — does the user see the `O_NONBLOCK` that the library puts on his sockets?

  The hooked `socket` and `F_SETFL` set `O_NONBLOCK` in the kernel and keep what the user asked for in
  `fdFlag`.  `F_GETFL` would have to take the bit away again where the user has not asked for it; the
  branch of `F_GETFD` does so, whose flags never contain it, and `F_GETFL` passes on what the kernel
  says.  A caller who reads the flags, changes a bit and writes them back then asks for `O_NONBLOCK`.

  Main result: `flags_invisible_iff`.
-/
import RocketCo.Hook.Attributes

namespace RocketCo.Hook

open RocketCo.Lib

/-! ## §1. Reading the flags. -/

/-- The descriptor's own flag. -/
def FD_CLOEXEC : Flags := 1

namespace FdTable

/-- `__LINE__`, which `fcntl` returns for a negative number. -/
def fcntlLine : Flags := 284

/-- The kernel's `F_GETFL`. -/
def kernelGetfl (s : FdTable) (fd : Int) : Flags :=
  match s.kernel fd with
  | none => -1
  | some file => file.flags

/-- `fcntl` with `F_GETFL`: what it returns. -/
def fcntlGetfl (s : FdTable) (fd : Int) : Option (Flags × FdTable) :=
  if fd < 0 then some (fcntlLine, s)
  else (s.createAFdAttributes fd).map fun r => (r.2.kernelGetfl fd, r.2)

/-- `fcntl` with `F_GETFD`; the kernel says `flags`. -/
def fcntlGetfd (s : FdTable) (fd : Int) (flags : Flags) : Option (Flags × FdTable) :=
  if fd < 0 then some (fcntlLine, s)
  else
    (s.createAFdAttributes fd).map fun r =>
      -- a socket of the user without `O_NONBLOCK` is to be returned without it
      (if NonBlock r.1.fdFlag then flags else flags &&& ~~~O_NONBLOCK, r.2)

end FdTable

/-- **The mask of `F_GETFD` has nothing to take away.** -/
theorem fcntlGetfd_unmasked {s t : FdTable} {fd : Int} {flags ret : Flags} (h0 : 0 ≤ fd)
    (hflags : flags = 0 ∨ flags = FD_CLOEXEC) (h : s.fcntlGetfd fd flags = some (ret, t)) :
    ret = flags := by
  unfold FdTable.fcntlGetfd at h
  rw [if_neg (by omega)] at h
  obtain ⟨r, -, heq⟩ := Option.map_eq_some_iff.mp h
  -- the bit that is masked out stands in neither of the two values
  rw [← (Prod.mk.inj heq).1]
  split
  · rfl
  · cases hflags with
    | inl hzero =>
        rw [hzero]
        decide
    | inr hclo =>
        rw [hclo]
        decide

/-! ## §2. `F_SETFL` on the flags. -/

/-- The second call says it all. -/
theorem setfl_setfl (old a b : Flags) : setfl (setfl old a) b = setfl old b := by
  apply BitVec.eq_of_getLsbD_eq
  intro i _
  unfold setfl
  simp only [BitVec.getLsbD_or, BitVec.getLsbD_and, BitVec.getLsbD_not]
  -- a bit is the file's for good, or that of the last call
  cases setflMask.getLsbD i <;> simp_all

theorem or_nonBlock {a : Flags} (h : NonBlock a) : a ||| O_NONBLOCK = a := by
  apply BitVec.eq_of_getLsbD_eq
  intro i _
  rw [BitVec.getLsbD_or]
  unfold O_NONBLOCK
  rw [BitVec.getLsbD_twoPow]
  by_cases hi : 11 = i
  · rw [← hi, (nonBlock_iff a).mp h]
    simp
  · simp [hi]

/-- **The kernel ends up with the argument itself** exactly when it contains `O_NONBLOCK` and, among the
bits that `F_SETFL` does not change, those of the open file. -/
theorem setfl_eq_iff (old a : Flags) : setfl old (a ||| O_NONBLOCK) = a ↔
    NonBlock a ∧ a &&& ~~~setflMask = old &&& ~~~setflMask := by
  constructor
  · intro h
    refine ⟨?_, ?_⟩
    · rw [← h, nonBlock_setfl]
      exact nonBlock_or a
    · rw [← h]
      apply BitVec.eq_of_getLsbD_eq
      intro i _
      unfold setfl
      simp only [BitVec.getLsbD_or, BitVec.getLsbD_and, BitVec.getLsbD_not]
      cases setflMask.getLsbD i <;> simp
  -- bits of the mask come from the argument, the others are the same anyway
  · intro ⟨hnon, hrest⟩
    rw [or_nonBlock hnon]
    unfold setfl
    rw [← hrest]
    apply BitVec.eq_of_getLsbD_eq
    intro i hi
    simp only [BitVec.getLsbD_or, BitVec.getLsbD_and, BitVec.getLsbD_not]
    cases setflMask.getLsbD i <;> simp [hi]

/-! ## §3. The calls on a descriptor. -/

/-- The descriptor a call is about. -/
def FdAction.fd : FdAction → Int
  | .socket _ _ fd _ | .accept fd | .setfl _ fd _ _ | .write _ fd | .close _ fd => fd

/-- What a hooked caller does with his descriptor, and what happens elsewhere meanwhile. -/
inductive FlagCall where
  | getfl
  | setfl (param : Flags) (fails : Bool)
  | elsewhere (a : FdAction)

def FlagStep (fd : Int) (s : FdTable) (c : FlagCall) (t : FdTable) : Prop :=
  match c with
  | .getfl => ∃ ret, s.fcntlGetfl fd = some (ret, t)
  | .setfl param fails => s.fcntl true fd param fails = some t
  | .elsewhere a => a.fd ≠ fd ∧ s.Step a t

/-- The flags the user has asked for after one more call. -/
def askedAfter (asked : Flags) : FlagCall → Flags
  | .setfl param false => param
  | _ => asked

/-- **What the user asked for last**: the argument of his last successful `F_SETFL`, and before it the
flags he opened the socket with. -/
def lastAsked (flags : Flags) (cs : List FlagCall) : Flags := cs.foldl askedAfter flags

/-- **The imposed `O_NONBLOCK` is not to be seen** by a user who asked for `asked`: neither in what
`F_GETFL` returns nor after the flags are written back. -/
structure FdTable.Invisible (s : FdTable) (fd : Int) (asked : Flags) : Prop where
  reported : ∀ ret t, s.fcntlGetfl fd = some (ret, t) → (NonBlock ret ↔ NonBlock asked)
  roundTrip : ∀ ret t u, s.fcntlGetfl fd = some (ret, t) → t.fcntl true fd ret false = some u →
    (u.Fd2Attributes fd).map FdAttributes.fdFlag = (s.Fd2Attributes fd).map FdAttributes.fdFlag

theorem emulates_iff (s : FdTable) (fd : Int) :
    s.Emulates fd ↔
      ∃ flag, (s.Fd2Attributes fd).map FdAttributes.fdFlag = some flag ∧ ¬ NonBlock flag := by
  constructor
  · intro ⟨A, hA, hflag⟩
    exact ⟨A.fdFlag, by rw [hA]; rfl, hflag⟩
  · intro ⟨flag, hmap, hflag⟩
    obtain ⟨A, hA, heq⟩ := Option.map_eq_some_iff.mp hmap
    exact ⟨A, hA, by rw [heq]; exact hflag⟩

/-- Then `read`, `write` and so on block, or do not, as before. -/
theorem FdTable.Invisible.emulates {s t u : FdTable} {fd : Int} {asked ret : Flags}
    (h : s.Invisible fd asked) (hget : s.fcntlGetfl fd = some (ret, t))
    (hset : t.fcntl true fd ret false = some u) : u.Emulates fd ↔ s.Emulates fd := by
  rw [emulates_iff, emulates_iff, h.roundTrip ret t u hget hset]

/-! ## §4. The three values. -/

variable {s t u : FdTable} {fd : Int} {flags asked : Flags}

/-- **User, kernel and table**: the entry records what the user asked for last, and the kernel has the
flags the file was opened with, changed by that and `O_NONBLOCK`. -/
structure Tracked (s : FdTable) (fd : Int) (flags asked : Flags) : Prop where
  nonneg : 0 ≤ fd
  inArray : InArray fd
  file : ∃ was, s.kernel fd = some ⟨setfl flags (asked ||| O_NONBLOCK), was⟩
  entry : ∃ A, s.Fd2Attributes fd = some A ∧ A.fdFlag = asked

theorem create_inArray {A : FdAttributes} (h : s.createAFdAttributes fd = some (A, t)) :
    InArray fd := by
  unfold FdTable.createAFdAttributes at h
  split at h
  · assumption
  · cases h

theorem create_exists (s : FdTable) (h : InArray fd) :
    ∃ A t, s.createAFdAttributes fd = some (A, t) := by
  unfold FdTable.createAFdAttributes
  rw [if_pos h]
  cases s.Fd2Attributes fd with
  | none => exact ⟨_, _, rfl⟩
  | some A => exact ⟨A, s, rfl⟩

/-- Looking an entry up. -/
theorem Tracked.create (h : Tracked s fd flags asked) {A : FdAttributes}
    (hcreate : s.createAFdAttributes fd = some (A, t)) : Tracked t fd flags asked := by
  obtain ⟨hkernel, hA, -, hwhich⟩ := create_spec hcreate
  obtain ⟨B, hB, hflag⟩ := h.entry
  refine ⟨h.nonneg, h.inArray, by rw [hkernel]; exact h.file, A, hA, ?_⟩
  cases hwhich with
  | inl hold =>
      rw [hB] at hold
      rw [← Option.some.inj hold]
      exact hflag
  | inr hnew =>
      rw [hB] at hnew
      cases hnew.1

/-- **A new socket.** -/
theorem Tracked.socket {domain : Int} (h0 : 0 ≤ fd)
    (h : s.socket true domain fd flags = some t) : Tracked t fd flags flags := by
  unfold FdTable.socket at h
  rw [if_neg (by omega)] at h
  dsimp only at h
  rw [if_pos rfl] at h
  obtain ⟨r, hr, hfcntl⟩ := Option.bind_eq_some_iff.mp h
  obtain ⟨hkernel, -, -, -⟩ := create_spec (A := r.1) (t := r.2) hr
  have hopen : (r.2.setAttributes fd { r.1 with domain }).kernel fd = some ⟨flags, flags⟩ := by
    show r.2.kernel fd = _
    rw [hkernel]
    exact openFd_kernel s flags
  obtain ⟨A, hkernel', hA, hflag⟩ := fcntl_done h0 hopen hfcntl
  exact ⟨h0, create_inArray (A := r.1) (t := r.2) hr, ⟨flags, hkernel'⟩, A, hA, hflag⟩

/-- A call about another descriptor leaves this one alone. -/
theorem step_other {a : FdAction} (hne : a.fd ≠ fd) (h : s.Step a t) :
    t.kernel fd = s.kernel fd ∧ t.Fd2Attributes fd = s.Fd2Attributes fd := by
  obtain ⟨-, h⟩ := h
  cases a with
  | socket isHook domain fd' flags =>
      have hfd : fd ≠ fd' := fun heq => hne heq.symm
      unfold FdTable.step FdTable.socket at h
      dsimp only at h
      split at h
      · rw [← Option.some.inj h]
        exact ⟨rfl, rfl⟩
      · cases isHook with
        | false =>
            rw [if_neg (by simp)] at h
            rw [← Option.some.inj h]
            exact ⟨openFd_other s flags hfd, rfl⟩
        | true =>
            rw [if_pos rfl] at h
            obtain ⟨r, hr, hfcntl⟩ := Option.bind_eq_some_iff.mp h
            obtain ⟨hkernel, -, hrest, -⟩ := create_spec (A := r.1) (t := r.2) hr
            obtain ⟨hk, ha⟩ := fcntl_other hfcntl fd hfd
            rw [hk, ha]
            refine ⟨?_, ?_⟩
            · show r.2.kernel fd = _
              rw [hkernel]
              exact openFd_other s flags hfd
            · show Function.update r.2.Fd2Attributes fd' _ fd = _
              rw [Function.update_of_ne hfd, hrest fd hfd]
              rfl
  | accept fd' =>
      have hfd : fd ≠ fd' := fun heq => hne heq.symm
      unfold FdTable.step FdTable.acceptFd2Attributes at h
      dsimp only at h
      split at h
      · rw [← Option.some.inj h]
        exact ⟨rfl, rfl⟩
      · obtain ⟨r, hr, heq⟩ := Option.map_eq_some_iff.mp h
        obtain ⟨hkernel, -, hrest, -⟩ := create_spec (A := r.1) (t := r.2) hr
        rw [← heq, hkernel, hrest fd hfd]
        exact ⟨openFd_other s O_RDWR hfd, rfl⟩
  | setfl isHook fd' param fails => exact fcntl_other h fd fun heq => hne heq.symm
  -- it may make an entry for its own descriptor
  | write isHook fd' =>
      have hfd : fd ≠ fd' := fun heq => hne heq.symm
      unfold FdTable.step FdTable.write at h
      dsimp only at h
      split at h
      · obtain ⟨r, hr, heq⟩ := Option.map_eq_some_iff.mp h
        obtain ⟨hkernel, -, hrest, -⟩ := create_spec (A := r.1) (t := r.2) hr
        rw [← heq, hkernel, hrest fd hfd]
        exact ⟨rfl, rfl⟩
      · rw [← Option.some.inj h]
        exact ⟨rfl, rfl⟩
  | close isHook fd' =>
      have hfd : fd ≠ fd' := fun heq => hne heq.symm
      obtain ⟨v, hv, heq⟩ := Option.map_eq_some_iff.mp h
      rw [← heq]
      have hsame : v.kernel = s.kernel ∧
          ∀ fd'', fd'' ≠ fd' → v.Fd2Attributes fd'' = s.Fd2Attributes fd'' := by
        cases isHook with
        | true => exact deleteAttributes_same hv
        | false =>
            have hsv : s = v := Option.some.inj hv
            rw [hsv]
            exact ⟨rfl, fun _ _ => rfl⟩
      refine ⟨?_, hsame.2 fd hfd⟩
      show Function.update v.kernel fd' none fd = _
      rw [Function.update_of_ne hfd, hsame.1]

/-- **One call keeps the three in step.** -/
theorem Tracked.step {c : FlagCall} (h : Tracked s fd flags asked) (hstep : FlagStep fd s c t) :
    Tracked t fd flags (askedAfter asked c) := by
  cases c with
  | getfl =>
      obtain ⟨ret, hget⟩ := hstep
      unfold FdTable.fcntlGetfl at hget
      have hnonneg := h.nonneg
      rw [if_neg (by omega)] at hget
      obtain ⟨r, hr, heq⟩ := Option.map_eq_some_iff.mp hget
      rw [← (Prod.mk.inj heq).2]
      exact h.create (A := r.1) (t := r.2) hr
  | setfl param fails =>
      cases fails with
      | true =>
          -- nothing but the lookup has happened
          obtain ⟨A, hcreate⟩ := fcntl_failed h.nonneg (Or.inl rfl) hstep
          exact h.create hcreate
      | false =>
          -- the kernel and the entry get the argument, the kernel with the bit
          obtain ⟨was, hfile⟩ := h.file
          obtain ⟨A, hkernel, hA, hflag⟩ := fcntl_done h.nonneg hfile hstep
          rw [if_pos rfl, setfl_setfl] at hkernel
          exact ⟨h.nonneg, h.inArray, ⟨param, hkernel⟩, A, hA, hflag⟩
  | elsewhere a =>
      obtain ⟨hne, hstep⟩ := hstep
      obtain ⟨hkernel, hentry⟩ := step_other hne hstep
      refine ⟨h.nonneg, h.inArray, ?_, ?_⟩
      · rw [hkernel]
        exact h.file
      · rw [hentry]
        exact h.entry

/-- **And so does every sequence of calls.** -/
theorem Tracked.run {cs : List FlagCall} (h : Tracked s fd flags asked)
    (hrun : Run (FlagStep fd) s cs t) : Tracked t fd flags (lastAsked asked cs) := by
  induction hrun with
  | nil => exact h
  | snoc _ hstep ih =>
      unfold lastAsked at ih ⊢
      rw [List.foldl_append]
      exact ih.step hstep

/-- `F_GETFL` returns the kernel's flags. -/
theorem Tracked.getfl_spec (h : Tracked s fd flags asked) :
    ∃ t, s.fcntlGetfl fd = some (setfl flags (asked ||| O_NONBLOCK), t) ∧
      Tracked t fd flags asked := by
  have hnonneg := h.nonneg
  obtain ⟨A, t, hcreate⟩ := create_exists s h.inArray
  have ht := h.create hcreate
  obtain ⟨was, hfile⟩ := ht.file
  refine ⟨t, ?_, ht⟩
  unfold FdTable.fcntlGetfl FdTable.kernelGetfl
  rw [if_neg (by omega), hcreate]
  show some (match t.kernel fd with | none => (-1 : Flags) | some file => file.flags, t) = _
  rw [hfile]

/-- A successful `F_SETFL` is possible. -/
theorem Tracked.setfl_exists (h : Tracked s fd flags asked) (param : Flags) :
    ∃ t, s.fcntl true fd param false = some t := by
  have hnonneg := h.nonneg
  obtain ⟨A, t, hcreate⟩ := create_exists s h.inArray
  unfold FdTable.fcntl
  rw [if_neg (by omega), hcreate]
  exact ⟨_, rfl⟩

theorem Tracked.fdFlag (h : Tracked s fd flags asked) :
    (s.Fd2Attributes fd).map FdAttributes.fdFlag = some asked := by
  obtain ⟨A, hA, hflag⟩ := h.entry
  rw [hA, ← hflag]
  rfl

/-- **When the bit is not to be seen.** -/
theorem Tracked.invisible_iff (h : Tracked s fd flags asked) : s.Invisible fd asked ↔
    NonBlock asked ∧ asked &&& ~~~setflMask = flags &&& ~~~setflMask := by
  obtain ⟨t, hget, ht⟩ := h.getfl_spec
  have hsees : NonBlock (setfl flags (asked ||| O_NONBLOCK)) := by
    rw [nonBlock_setfl]
    exact nonBlock_or asked
  rw [← setfl_eq_iff]
  constructor
  · intro hinv
    obtain ⟨u, hset⟩ := ht.setfl_exists (setfl flags (asked ||| O_NONBLOCK))
    -- what is written back is what the kernel has, and that becomes `fdFlag`
    have hu : Tracked u fd flags (setfl flags (asked ||| O_NONBLOCK)) :=
      ht.step (c := .setfl (setfl flags (asked ||| O_NONBLOCK)) false) hset
    have hsame := hinv.roundTrip _ t u hget hset
    rw [hu.fdFlag, h.fdFlag] at hsame
    exact Option.some.inj hsame
  · intro heq
    rw [heq] at hget hsees
    constructor
    case reported =>
      intro ret t' hget'
      rw [hget] at hget'
      rw [← (Prod.mk.inj (Option.some.inj hget')).1]
    case roundTrip =>
      intro ret t' u hget' hset
      rw [hget] at hget'
      obtain ⟨hret, htt'⟩ := Prod.mk.inj (Option.some.inj hget')
      rw [← hret, ← htt'] at hset
      -- what is written back is what was asked for
      have hu : Tracked u fd flags asked := ht.step (c := .setfl asked false) hset
      rw [hu.fdFlag, h.fdFlag]

/-- **Who sees the bit.**  After any calls on a socket of a hooked caller, the imposed mode is invisible
exactly when what the user asked for last contains `O_NONBLOCK` himself and agrees with the flags of the
new socket in the bits that `F_SETFL` does not change. -/
theorem flags_invisible_iff {domain : Int} {cs : List FlagCall} (h0 : 0 ≤ fd)
    (hsocket : s.socket true domain fd flags = some t) (hrun : Run (FlagStep fd) t cs u) :
    u.Invisible fd (lastAsked flags cs) ↔ NonBlock (lastAsked flags cs) ∧
      lastAsked flags cs &&& ~~~setflMask = flags &&& ~~~setflMask :=
  ((Tracked.socket h0 hsocket).run hrun).invisible_iff

/-- A socket on which the user sets `O_NONBLOCK` in the usual way. -/
theorem flags_invisible_asked : ∃ t u, FdTable.init.socket true 2 3 O_RDWR = some t ∧
    Run (FlagStep 3) t [.setfl (O_RDWR ||| O_NONBLOCK) false] u ∧
    u.Invisible 3 (O_RDWR ||| O_NONBLOCK) := by
  obtain ⟨t, ht⟩ := Option.isSome_iff_exists.mp
    (show (FdTable.init.socket true 2 3 O_RDWR).isSome = true from rfl)
  obtain ⟨u, hu⟩ := (Tracked.socket (by decide) ht).setfl_exists (O_RDWR ||| O_NONBLOCK)
  have hrun : Run (FlagStep 3) t ([] ++ [.setfl (O_RDWR ||| O_NONBLOCK) false]) u :=
    .snoc (.nil t) hu
  exact ⟨t, u, ht, hrun, (flags_invisible_iff (by decide) ht hrun).mpr (by decide)⟩

/-- A fresh socket, without `O_NONBLOCK`: `F_GETFL` reports it, and writing the flags back ends the
emulation of blocking. -/
theorem not_flags_invisible : ∃ t ret v u, FdTable.init.socket true 2 3 O_RDWR = some t ∧
    t.fcntlGetfl 3 = some (ret, v) ∧ NonBlock ret ∧ ¬ NonBlock O_RDWR ∧
    v.fcntl true 3 ret false = some u ∧ t.Emulates 3 ∧ ¬ u.Emulates 3 ∧
    ¬ t.Invisible 3 O_RDWR := by
  obtain ⟨t, ht⟩ := Option.isSome_iff_exists.mp
    (show (FdTable.init.socket true 2 3 O_RDWR).isSome = true from rfl)
  have htracked := Tracked.socket (by decide) ht
  obtain ⟨v, hget, hv⟩ := htracked.getfl_spec
  obtain ⟨u, hset⟩ := hv.setfl_exists (setfl O_RDWR (O_RDWR ||| O_NONBLOCK))
  have hu : Tracked u 3 O_RDWR (setfl O_RDWR (O_RDWR ||| O_NONBLOCK)) :=
    hv.step (c := .setfl (setfl O_RDWR (O_RDWR ||| O_NONBLOCK)) false) hset
  have hbefore : t.Emulates 3 := by
    rw [emulates_iff, htracked.fdFlag]
    exact ⟨O_RDWR, rfl, not_nonBlock_rdwr⟩
  have hafter : ¬ u.Emulates 3 := by
    rw [emulates_iff, hu.fdFlag]
    intro ⟨flag, heq, hflag⟩
    rw [← Option.some.inj heq] at hflag
    exact hflag (by decide)
  refine ⟨t, _, v, u, ht, hget, by decide, not_nonBlock_rdwr, hset, hbefore, hafter, ?_⟩
  intro hinv
  exact hafter ((hinv.emulates hget hset).mpr hbefore)

end RocketCo.Hook
