/-
  RocketCo.CoSwap.FirstResume — what the first `Co_resume` of a coroutine does to the stack it takes.

      co_swap_make         — writes the address of `Co_realRunningFun` to the top of the stack
      Copy_stackMember     — saves the bytes of the coroutine that has had the stack so far
      coctx_swap           — starts the new one there

  The word that is written lies between the stack pointer of that coroutine and the end of the buffer:
  its first frame begins with it.  So its bytes are saved behind the write.

  Main result: `first_resume_iff`.
-/
import RocketCo.CoSwap.SharedStack

namespace RocketCo.CoSwap

open RocketCo.Lib

variable {cfg : Config} {ex : Nat → Prop} {s t : Thread} {a : Action} {pending co o : Co}
  {sp esp pfn : Nat} {point : Point} {target : CoSwapT}

/-! ## §1. What is asked. -/

/-- The address is between the stack pointer of `o` and the end of its stack, once the running coroutine
has been switched out at `esp`. -/
def Thread.Live (s : Thread) (esp : Nat) (o : Co) (x : Nat) : Prop :=
  s.espAt s.running esp o ≤ x ∧ x < (s.csm o).stack_bp

/-- The memory when `o` is or was switched out. -/
def Thread.atSwitchOut (s : Thread) (o : Co) : Mem := if o = s.running then s.mem else s.left o

/-- **What is prepared for `co` spares the stack of `o`.** -/
def LiveKept (s : Thread) (co o : Co) (esp pfn : Nat) : Prop :=
  ∀ x, s.Live esp o x → (startIfFresh s co pfn).mem x = s.mem x

/-- **What is saved of `o`** are the bytes that `m` has on its stack. -/
def Snapshot (t : Thread) (o : Co) (m : Mem) : Prop :=
  (t.entity o).Used_Stack =
    some (readBytes m (t.entity o).ESP ((t.csm o).stack_bp - (t.entity o).ESP))

/-- The word that `co_swap_make` writes is there already, as far as it is on the stack of `o`. -/
def AlreadyThere (s : Thread) (co o : Co) (esp pfn : Nat) : Prop :=
  ∀ x, (s.csm co).InTop x → s.Live esp o x → s.mem x = byteAt pfn (x - (s.csm co).top)

/-! ## §2. The write. -/

/-- The memory with the prepared word. -/
theorem startIfFresh_mem (hfresh : (s.entity co).ISstart = false) :
    (startIfFresh s co pfn).mem = store s.mem (s.csm co).top 8 pfn := by
  show (CoSwap.beforeResume s co pfn).mem = _
  rw [(beforeResume_prepared s co pfn).mem]
  exact if_pos hfresh

theorem liveKept_iff (hfresh : (s.entity co).ISstart = false) :
    LiveKept s co o esp pfn ↔ AlreadyThere s co o esp pfn := by
  have hword : ∀ x, (s.csm co).InTop x →
      (startIfFresh s co pfn).mem x = byteAt pfn (x - (s.csm co).top) := by
    intro x hx
    rw [startIfFresh_mem hfresh]
    exact if_pos hx
  constructor
  -- the write is the prepared word there
  · intro hkept x htop hlive
    rw [← hkept x hlive, hword x htop]
  · intro hthere x hlive
    by_cases htop : (s.csm co).InTop x
    · rw [hword x htop, hthere x htop hlive]
    · exact (beforeResume_prepared s co pfn).outside htop

/-! ## §3. The snapshot. -/

/-- Whoever has the stack of a coroutine that has not started is another one that shares it. -/
theorem StackInv.occupant (h : StackInv cfg ex s) (hc : CallInv s) (hout : co ∉ s.calls)
    (hfresh : (s.entity co).ISstart = false) (hocc : (s.csm co).current_co = some o) :
    o ≠ co ∧ cfg.IsShareStack co = true ∧ cfg.IsShareStack o = true ∧ cfg.Csm o = cfg.Csm co ∧
      (o = s.running ∨ s.Suspended o) := by
  obtain ⟨hshare, hcsm, hwho⟩ := h.tenant _ o hocc
  rw [h.static.csm] at hcsm
  have hne : o ≠ co := by
    intro heq
    rw [heq] at hwho
    rcases hwho with hrun | ⟨-, cst, hcst, -⟩
    · exact hout (hrun ▸ hc.mem_calls_running)
    · -- it has no context yet
      have hmain : co ≠ mainCo := fun hm => hout (hm ▸ hc.mem_calls_main)
      rw [h.fresh co hfresh hmain] at hcst
      cases hcst
  refine ⟨hne, ?_, hshare, hcsm, hwho⟩
  by_contra hprivate
  exact hne (cfg.alone co o (Bool.not_eq_true _ ▸ hprivate) hcsm)

/-- **`Copy_stackMember` saves what `co_swap_make` has left.** -/
theorem StackInv.snapshot (h : StackInv cfg ex s) (hc : CallInv s)
    (hstep : s.Step (.resume co esp pfn) t) (hfresh : (s.entity co).ISstart = false)
    (hocc : (s.csm co).current_co = some o) : Snapshot t o (startIfFresh s co pfn).mem ∧
      (t.entity o).ESP = s.espAt s.running esp o ∧ (t.csm o).stack_bp = (s.csm o).stack_bp := by
  obtain ⟨hok, hstep⟩ := hstep
  obtain ⟨hne, hshare, -⟩ := h.occupant hc hok.2.1 hfresh hocc
  obtain ⟨point', hsw, -⟩ := hc.resume_handover cfg hok hstep
  have hprep := beforeResume_prepared s co pfn
  have hespAt : (CoSwap.beforeResume s co pfn).espAt (CoSwap.beforeResume s co pfn).running esp o =
      s.espAt s.running esp o := by
    unfold Thread.espAt
    rw [hprep.running, hprep.other o hne]
  -- `o` loses the stack, so `Copy_stackMember` is called for it
  have hev : (CoSwap.beforeResume s co pfn).Evicts co o := by
    refine ⟨(hprep.same co).1.trans ((h.static.share co).trans hshare), ?_, hne⟩
    rw [hprep.csm]
    exact hocc
  have hesp : (t.entity o).ESP = s.espAt s.running esp o := by
    rw [hsw.entity]
    exact hespAt
  have hbp : (t.csm o).stack_bp = (s.csm o).stack_bp := by
    rw [(hsw.stack_eq o).1, hprep.csm]
  refine ⟨?_, hesp, hbp⟩
  unfold Snapshot
  rw [hesp, hbp, hsw.entity]
  dsimp only
  rw [if_pos hev, hespAt, hprep.csm]
  rfl

/-! ## §4. What a suspended coroutine left on its stack. -/

/-- `c` is suspended and still has its shared stack. -/
def Thread.Present (s : Thread) (c : Co) : Prop :=
  s.Suspended c ∧ (s.entity c).IsShareStack = true ∧ (s.csm c).current_co = some c

/-- The stack of `c` is as it left it, the word at its top included. -/
def Thread.Untouched (s : Thread) (c : Co) : Prop :=
  ∀ x, (s.entity c).ESP ≤ x → x < (s.csm c).stack_bp → s.mem x = s.left c x

/-- A step without a switch that does not write there. -/
theorem StackInv.untouched_congr (h : StackInv cfg ex s) (hrun : t.running = s.running)
    (hmember : t.member = s.member) (hleft : t.left = s.left)
    (hentity : ∀ c, ∃ b, t.entity c = { s.entity c with IsEnd := b })
    (hmem : ∀ c x, s.Suspended c → (s.csm c).current_co = some c → (s.csm c).Contains x →
      t.mem x = s.mem x)
    (hold : ∀ c, s.Present c → s.Untouched c) : ∀ c, t.Present c → t.Untouched c := by
  rintro c ⟨hsus, hshare, hcur⟩
  obtain ⟨b, hb⟩ := hentity c
  have hcsm : t.csm c = s.csm c := by
    unfold Thread.csm
    rw [hmember, hb]
  unfold Thread.Suspended at hsus
  rw [hrun, hb] at hsus
  rw [hb] at hshare
  rw [hcsm] at hcur
  have hlow : (s.csm c).stack_buffer ≤ (s.entity c).ESP :=
    h.bounds c hsus ((h.static.share c).symm.trans hshare)
  intro x hesp hbp
  rw [hb] at hesp
  rw [hcsm] at hbp
  rw [hleft, hmem c x hsus hcur ⟨Nat.le_trans hlow hesp, hbp⟩]
  exact hold c ⟨hsus, hshare, hcur⟩ x hesp hbp

/-- **A switch**: on the stack of a coroutine that still has it, nothing is written. -/
theorem StackInv.untouched_switch (h : StackInv cfg ex s)
    (hsw : Handover cfg s t pending sp point target)
    (hold : ∀ c, s.Present c → cfg.Csm c ≠ cfg.Csm pending → s.Untouched c) :
    ∀ c, t.Present c → t.Untouched c := by
  rintro c ⟨hsus, hshare, hcur⟩
  -- it was running, and has just been switched out, or it was suspended before
  obtain ⟨hcp, hwho⟩ := hsw.suspended_iff.mp hsus
  have hsh : cfg.IsShareStack c = true := ((h.static.switch hsw.toSwitched).share c).symm.trans hshare
  obtain ⟨hcur, hm⟩ := h.keeps_stack hsw hcp hcur
  have hesp : (t.entity c).ESP = s.espAt s.running sp c := by rw [hsw.entity]
  intro x hlow hhigh
  rw [hesp] at hlow
  rw [(hsw.stack_eq c).1] at hhigh
  rw [h.kept_mem hsw hwho hsh hm hlow hhigh]
  cases hwho with
  | inl hrun => rw [hsw.left_eq, if_pos hrun]
  | inr hin =>
      rw [(hsw.old hin).2]
      rw [(hsw.old hin).1] at hlow
      exact hold c ⟨hin, (h.static.share c).trans hsh, hcur⟩ hm x hlow hhigh

theorem StackInv.untouched_resume (h : StackInv cfg ex s) (hc : CallInv s)
    (hold : ∀ c, s.Present c → s.Untouched c) (hok : s.Allowed (.resume co esp pfn))
    (hstep : s.step (.resume co esp pfn) = some t) : ∀ c, t.Present c → t.Untouched c := by
  obtain ⟨point', hsw, -⟩ := hc.resume_handover cfg hok hstep
  have hprep := beforeResume_prepared s co pfn
  have hmain : co ≠ mainCo := fun heq => hok.2.1 (heq ▸ hc.mem_calls_main)
  apply (h.beforeResume hc hok.2.1 pfn).untouched_switch hsw
  -- what is read of `c` is the same before the switch is prepared
  rintro c ⟨hsus, hshare, hcur⟩ hm x hlow hhigh
  have hsus' : s.Suspended c := (h.prepared_suspended hprep hmain c).mp hsus
  rw [(hprep.same c).1] at hshare
  rw [(hprep.same c).2.2.1] at hlow
  rw [hprep.csm] at hcur hhigh
  have hcontains : (s.csm c).Contains x :=
    ⟨Nat.le_trans (h.bounds c hsus' ((h.static.share c).symm.trans hshare)) hlow, hhigh⟩
  -- the prepared word is on the stack of `co`
  have hoff : ¬ (s.csm co).Contains x := by
    refine h.static.apart ?_ hcontains
    rw [h.static.csm, h.static.csm]
    exact hm
  rw [hprep.outside fun htop => hoff (h.static.top_contains htop), hprep.left]
  exact hold c ⟨hsus', hshare, hcur⟩ x hlow hhigh

theorem StackInv.untouched_beforeYeild (h : StackInv cfg ex s) (hok : s.Allowed a)
    (ha : a.yields = true) (n : Nat) (hold : ∀ c, s.Present c → s.Untouched c) :
    ∀ c, Thread.Present { CoSwap.beforeYeild s a with Co_ESP := n } c →
      Thread.Untouched { CoSwap.beforeYeild s a with Co_ESP := n } c := by
  cases a with
  | yeild esp =>
      exact h.untouched_congr rfl rfl rfl (fun c => ⟨_, rfl⟩) (fun _ _ _ _ _ => rfl) hold
  | finish esp =>
      exact h.untouched_congr rfl rfl rfl (s.finish_entity esp) (fun _ _ _ _ _ => rfl) hold
  | poll p esp =>
      refine h.untouched_congr rfl rfl rfl (fun c => ⟨_, rfl⟩) ?_ hold
      intro c x hsus hcur hx
      exact poll_writes_outside (h.fits_apart hok.2.2.2 hsus hcur hx)
  | _ => cases ha

theorem StackInv.untouched_yields (h : StackInv cfg ex s) (hc : CallInv s)
    (hold : ∀ c, s.Present c → s.Untouched c) (hok : s.Allowed a) (ha : a.yields = true)
    (hstep : s.step a = some t) : ∀ c, t.Present c → t.Untouched c := by
  apply (h.beforeYeild hok ha (s.Co_ESP - 1)).untouched_switch (h.yields_handover hc hok ha hstep)
  exact fun c hpresent _ => h.untouched_beforeYeild hok ha (s.Co_ESP - 1) hold c hpresent

/-- **No step of a coroutine changes the stack of one that still has its stack.** -/
theorem StackInv.untouched_step (h : StackInv cfg ex s) (hc : CallInv s)
    (hold : ∀ c, s.Present c → s.Untouched c) (hstep : s.OwnStep a t) :
    ∀ c, t.Present c → t.Untouched c := by
  obtain ⟨⟨hok, hstep⟩, hown⟩ := hstep
  cases hyields : a.yields with
  | true => exact h.untouched_yields hc hold hok hyields hstep
  | false =>
      cases a with
      | resume co esp pfn => exact h.untouched_resume hc hold hok hstep
      | write x b =>
          have heq : { s with mem := Function.update s.mem x b } = t := Option.some.inj hstep
          rw [← heq]
          refine h.untouched_congr rfl rfl rfl (fun c => ⟨_, rfl⟩) ?_ hold
          intro c y hsus hcur hy
          exact h.write_outside hok hsus hcur hy
      | pollBack =>
          have heq : { s with polls := Function.update s.polls s.running none } = t :=
            Option.some.inj hstep
          rw [← heq]
          exact h.untouched_congr rfl rfl rfl (fun c => ⟨_, rfl⟩) (fun _ _ _ _ _ => rfl) hold
      | link c i off b => cases hown
      | yeild esp => cases hyields
      | finish esp => cases hyields
      | poll p esp => cases hyields

theorem StackInv.untouched_run {as : List Action} (hrun : Run Thread.OwnStep cfg.init as s) :
    ∀ c, s.Present c → s.Untouched c := by
  have hall := Run.invariant
    (I := fun s => (CallInv s ∧ StackInv cfg (fun _ => False) s) ∧ ∀ c, s.Present c → s.Untouched c)
    ?_ hrun ⟨⟨CallInv.init cfg, StackInv.init cfg⟩, ?_⟩
  · exact hall.2
  · rintro s a t ⟨hinv, hold⟩ hstep
    exact ⟨StackInv.run_step hinv hstep.1 (Or.inl hstep.2),
      hinv.2.untouched_step hinv.1 hold hstep⟩
  · -- nothing has been switched out yet
    rintro c ⟨⟨-, cst, hcst, -⟩, -⟩
    cases hcst

/-! ## §5. The first resume. -/

/-- Whoever has the stack of `co` has on it, for all of it that is live, what it had when it was switched
out. -/
theorem atSwitchOut_eq {as : List Action} (hrun : Run Thread.OwnStep cfg.init as s)
    (hstep : s.Step (.resume co esp pfn) t) (hfresh : (s.entity co).ISstart = false)
    (hocc : (s.csm co).current_co = some o) {x : Nat} (hlive : s.Live esp o x) :
    s.atSwitchOut o x = s.mem x := by
  have hinv : CallInv s ∧ StackInv cfg (fun _ => False) s := StackInv.of_run hrun
  obtain ⟨hc, h⟩ := hinv
  obtain ⟨-, -, hshare, hcsm, hwho⟩ := h.occupant hc hstep.1.2.1 hfresh hocc
  unfold Thread.atSwitchOut
  by_cases hrunning : o = s.running
  · rw [if_pos hrunning]
  · rw [if_neg hrunning]
    -- it still has the stack, so nothing has been written there since
    have hpresent : s.Present o := by
      refine ⟨hwho.resolve_left hrunning, (h.static.share o).trans hshare, ?_⟩
      unfold Thread.csm at hocc ⊢
      rw [h.static.csm] at hocc ⊢
      rw [hcsm]
      exact hocc
    obtain ⟨hlow, hhigh⟩ := hlive
    rw [espAt_other hrunning] at hlow
    exact (StackInv.untouched_run hrun o hpresent x hlow hhigh).symm

/-- **The first `Co_resume` of a coroutine spares the stack of the one that has it, and the snapshot of
that one is right, exactly if the prepared word is there already.** -/
theorem first_resume_iff {as : List Action} (hrun : Run Thread.Step cfg.init as s)
    (hstep : s.Step (.resume co esp pfn) t) (hfresh : (s.entity co).ISstart = false)
    (hocc : (s.csm co).current_co = some o) :
    (∀ c, c ≠ co → ((startIfFresh s co pfn).entity c).Used_Stack = (s.entity c).Used_Stack) ∧
      (LiveKept s co o esp pfn ↔ AlreadyThere s co o esp pfn) ∧
      (Snapshot t o s.mem ↔ AlreadyThere s co o esp pfn) ∧
      (Run Thread.OwnStep cfg.init as s →
        (Snapshot t o (s.atSwitchOut o) ↔ AlreadyThere s co o esp pfn)) := by
  have hinv : CallInv s ∧ StackInv cfg (fun _ => True) s := by
    refine hrun.invariant (I := fun s => CallInv s ∧ StackInv cfg (fun _ => True) s) ?_
      ⟨CallInv.init cfg, StackInv.init cfg⟩
    exact fun s a t hinv hstep => StackInv.run_step hinv hstep (Or.inr fun _ => trivial)
  obtain ⟨hsnap, hesp, hbp⟩ := hinv.2.snapshot hinv.1 hstep hfresh hocc
  have hkept : LiveKept s co o esp pfn ↔ AlreadyThere s co o esp pfn := liveKept_iff hfresh
  -- the bytes that are saved are those that are live
  have hiff : ∀ m : Mem, (∀ x, s.Live esp o x → m x = s.mem x) →
      (Snapshot t o m ↔ LiveKept s co o esp pfn) := by
    intro m hm
    unfold Snapshot at hsnap ⊢
    rw [hsnap, Option.some.injEq, readBytes_eq_iff, hesp, hbp]
    unfold AgreeOn LiveKept Thread.Live
    constructor
    · intro hagree x hlive
      rw [← hm x hlive]
      exact hagree x hlive.1 (by omega)
    · intro hkept x hlow hhigh
      have hlive : s.Live esp o x := ⟨hlow, by omega⟩
      rw [hm x hlive]
      exact hkept x hlive
  refine ⟨?_, hkept, (hiff s.mem fun _ _ => rfl).trans hkept, ?_⟩
  · intro c hne
    show ((CoSwap.beforeResume s co pfn).entity c).Used_Stack = _
    rw [(beforeResume_prepared s co pfn).other c hne]
  · intro hown
    exact (hiff _ fun x hlive => atSwitchOut_eq hown hstep hfresh hocc hlive).trans hkept

/-- Coroutine 1 has the address there already, and coroutine 2 starts on its stack.  Its own first switch has
put it there; a `Co_realRunningFun` that saves no register, and whose frame is only the eight bytes that
align the stack (`subq $8, %rsp`), has this word for padding and never writes it. -/
theorem first_resume_same : ∃ s t, Run Thread.OwnStep Config.twoOnOne.init
    [.resume 1 0 17, .yeild 7900] s ∧ s.Step (.resume 2 0 17) t ∧ LiveKept s 2 1 0 17 ∧
    Snapshot t 1 (s.atSwitchOut 1) := by
  have hcheck : checkRun Thread.step Thread.check Config.twoOnOne.init
      [.resume 1 0 17, .yeild 7900]
      (fun s => checkRun Thread.step Thread.check s [.resume 2 0 17] fun _ =>
        decide ((s.entity 2).ISstart = false ∧ (s.csm 2).current_co = some 1 ∧
          (s.csm 2).top = 8176 ∧ ∀ k ∈ List.range 8, s.mem (8176 + k) = byteAt 17 k)) = true := by
    decide +kernel
  obtain ⟨s, hrun, hs⟩ := Run.of_check (fun s a t => Thread.ownStep_of_check) hcheck
  obtain ⟨t, hone, ht⟩ := Run.of_check (fun s a t => Thread.ownStep_of_check) hs
  obtain ⟨hfresh, hocc, htop, hword⟩ := of_decide_eq_true ht
  have hstep := hone.single.1
  obtain ⟨-, hkept, -, hsnap⟩ := first_resume_iff (hrun.mono fun _ _ _ h => h.1) hstep hfresh hocc
  have hthere : AlreadyThere s 2 1 0 17 := by
    intro x hx _
    unfold CoStackMember.InTop at hx
    rw [htop] at hx ⊢
    have hbyte := hword (x - 8176) (List.mem_range.mpr (by omega))
    have hback : 8176 + (x - 8176) = x := by omega
    rw [hback] at hbyte
    exact hbyte
  exact ⟨s, t, hrun, hstep, hkept.mpr hthere, (hsnap hrun).mpr hthere⟩

/-- Coroutine 1 has something else there, which it does not get back. -/
theorem not_first_resume : ∃ s t, Run Thread.OwnStep Config.twoOnOne.init
    [.resume 1 0 17, .write 8176 0, .yeild 7900] s ∧ s.OwnStep (.resume 2 0 17) t ∧
    (s.entity 2).ISstart = false ∧ (s.csm 2).current_co = some 1 ∧ s.Suspended 1 ∧
    s.mem 8176 = 0 ∧ ¬ LiveKept s 2 1 0 17 ∧ ¬ Snapshot t 1 (s.atSwitchOut 1) := by
  have hcheck : checkRun Thread.step Thread.check Config.twoOnOne.init
      [.resume 1 0 17, .write 8176 0, .yeild 7900]
      (fun s => checkRun Thread.step Thread.check s [.resume 2 0 17] fun t =>
        decide ((s.entity 2).ISstart = false ∧ (s.csm 2).current_co = some 1 ∧ s.running = 0 ∧
          (s.entity 1).cst = some ⟨1, .yeild⟩ ∧ s.mem 8176 = 0 ∧ s.left 1 8176 = 0 ∧
          (s.entity 1).ESP = 7900 ∧ (s.csm 1).stack_bp = 8192 ∧
          (startIfFresh s 2 17).mem 8176 = 17 ∧ (t.entity 1).ESP = 7900 ∧
          (t.csm 1).stack_bp = 8192 ∧
          (t.entity 1).Used_Stack.bind (fun used => used[276]?) = some 17)) = true := by
    decide +kernel
  obtain ⟨s, hrun, hs⟩ := Run.of_check (fun s a t => Thread.ownStep_of_check) hcheck
  obtain ⟨t, hone, ht⟩ := Run.of_check (fun s a t => Thread.ownStep_of_check) hs
  obtain ⟨hfresh, hocc, hrunning, hcst, hbyte, hleft, hesp, hbp, hwrite, hesp', hbp', hused⟩ :=
    of_decide_eq_true ht
  have hmain : (1 : Co) ≠ s.running := by
    rw [hrunning]
    decide
  refine ⟨s, t, hrun, hone.single, hfresh, hocc, ⟨hmain, _, hcst, by simp⟩, hbyte, ?_, ?_⟩
  · intro hkept
    have hlive : s.Live 0 1 8176 := by
      unfold Thread.Live
      rw [espAt_other hmain, hesp, hbp]
      decide
    have hsame := hkept 8176 hlive
    rw [hwrite, hbyte] at hsame
    exact absurd hsame (by decide)
  · intro hsnap
    unfold Snapshot Thread.atSwitchOut at hsnap
    rw [if_neg hmain, hesp', hbp'] at hsnap
    rw [hsnap] at hused
    have hbyte276 : (readBytes (s.left 1) 7900 (8192 - 7900))[276]? = some 17 := hused
    rw [readBytes_getElem? _ _ _ _ (by decide), hleft] at hbyte276
    exact absurd hbyte276 (by decide)

end RocketCo.CoSwap
