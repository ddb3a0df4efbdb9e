/-
  RocketCo.CoSwap.SharedStack — a coroutine on a shared stack finds its bytes again.

  The bytes of a suspended coroutine `c` are in one of two places:

      the buffer, while `c->Csm->current_co` is still `c`,
      `c->Used_Stack`, from the moment another coroutine takes the stack

  `StackInv` says so, up to the word at the top of the buffer, which `co_swap_make` overwrites when a
  coroutine of the same stack starts, before the bytes are saved.

  Main result: `sharedStack_restored`.
-/
import RocketCo.CoSwap.CallStack

namespace RocketCo.CoSwap

open RocketCo.Lib

variable {cfg : Config} {ex : Nat → Prop} {s t : Thread} {a : Action} {pending co : Co} {sp : Nat}
  {point : Point} {target : CoSwapT}

/-! ## §1. Stacks do not move. -/

/-- The entities keep their stacks, and the stacks stay where they are. -/
structure Static (cfg : Config) (s : Thread) : Prop where
  share : ∀ c, (s.entity c).IsShareStack = cfg.IsShareStack c
  csm : ∀ c, (s.entity c).Csm = cfg.Csm c
  size : ∀ m, (s.member m).stack_size = cfg.stack_size m
  buffer : ∀ m, (s.member m).stack_buffer = cfg.stack_buffer m

theorem Static.init (cfg : Config) : Static cfg cfg.init :=
  ⟨fun _ => rfl, fun _ => rfl, fun _ => rfl, fun _ => rfl⟩

/-- Two stacks have no address in common. -/
theorem Static.apart (h : Static cfg s) {m m' x : Nat} (hne : m ≠ m')
    (hx : (s.member m).Contains x) : ¬ (s.member m').Contains x := by
  unfold CoStackMember.Contains CoStackMember.stack_bp at *
  rw [h.size, h.buffer] at *
  have := cfg.apart m m' hne
  omega

theorem Static.csm_buffer (h : Static cfg s) (c : Co) :
    (s.csm c).stack_buffer = cfg.stack_buffer (cfg.Csm c) := by
  unfold Thread.csm
  rw [h.buffer, h.csm]

/-- The word at the top is in the buffer. -/
theorem Static.top_contains (h : Static cfg s) {m x : Nat} (hx : (s.member m).InTop x) :
    (s.member m).Contains x := by
  have hroom := cfg.room m
  unfold CoStackMember.InTop CoStackMember.top at hx
  unfold CoStackMember.Contains
  unfold CoStackMember.stack_bp at *
  rw [h.size, h.buffer] at *
  omega

/-- A switch moves no stack. -/
theorem Static.switch (h : Static cfg s)
    (hsw : Switched s t pending s.running sp point target) : Static cfg t := by
  constructor
  case share => exact fun c => by rw [hsw.entity]; exact h.share c
  case csm => exact fun c => by rw [hsw.entity]; exact h.csm c
  case size =>
    intro m
    rw [hsw.member]
    split
    · exact h.size m
    · exact h.size m
  case buffer =>
    intro m
    rw [hsw.member]
    split
    · exact h.buffer m
    · exact h.buffer m

/-! ## §2. The invariant. -/

/-- `c` stands in a `Co_resume` or a `Co_yeild`. -/
def Thread.Suspended (s : Thread) (c : Co) : Prop :=
  c ≠ s.running ∧ ∃ cst, (s.entity c).cst = some cst ∧ cst.point ≠ .realRunningFun

/-- An address between `ESP` and the end of the stack, other than in the word at its top and those of
`ex`. -/
def Thread.Saved (s : Thread) (ex : Nat → Prop) (c : Co) (x : Nat) : Prop :=
  (s.entity c).ESP ≤ x ∧ x < (s.csm c).stack_bp ∧ ¬ (s.csm c).InTop x ∧ ¬ ex x

/-- **Where the bytes of suspended coroutines are**, up to the addresses of `ex`. -/
structure StackInv (cfg : Config) (ex : Nat → Prop) (s : Thread) : Prop where
  static : Static cfg s
  started : s.running ≠ mainCo → (s.entity s.running).ISstart = true
  fresh : ∀ c, (s.entity c).ISstart = false → c ≠ mainCo → (s.entity c).cst = none
  occupied : cfg.IsShareStack s.running = true → (s.csm s.running).current_co = some s.running
  tenant : ∀ m c, (s.member m).current_co = some c →
    cfg.IsShareStack c = true ∧ cfg.Csm c = m ∧ (c = s.running ∨ s.Suspended c)
  claimed : ∀ c, s.Suspended c → cfg.IsShareStack c = true → (s.csm c).current_co ≠ none
  bounds : ∀ c, s.Suspended c → cfg.IsShareStack c = true → (s.csm c).stack_buffer ≤ (s.entity c).ESP
  here : ∀ c, s.Suspended c → cfg.IsShareStack c = true → (s.csm c).current_co = some c →
    ∀ x, s.Saved ex c x → s.mem x = s.left c x
  away : ∀ c, s.Suspended c → cfg.IsShareStack c = true → (s.csm c).current_co ≠ some c →
    ∃ used, (s.entity c).Used_Stack = some used ∧
      used.length = (s.csm c).stack_bp - (s.entity c).ESP ∧
      ∀ x, s.Saved ex c x → used[x - (s.entity c).ESP]? = some (s.left c x)

/-- At the start nobody is on a shared stack. -/
theorem StackInv.init (cfg : Config) : StackInv cfg ex cfg.init := by
  have hnone : ∀ c, ¬ cfg.init.Suspended c := by
    intro c hsus
    obtain ⟨-, cst, hcst, -⟩ := hsus
    cases hcst
  constructor
  case static => exact Static.init cfg
  case started => exact fun hne => absurd rfl hne
  case fresh => exact fun _ _ _ => rfl
  case occupied =>
    intro hshare
    have hmain : cfg.IsShareStack mainCo = true := hshare
    rw [cfg.main] at hmain
    cases hmain
  case tenant => exact fun m c hco => by cases hco
  case claimed => exact fun c hsus => absurd hsus (hnone c)
  case bounds => exact fun c hsus => absurd hsus (hnone c)
  case here => exact fun c hsus => absurd hsus (hnone c)
  case away => exact fun c hsus => absurd hsus (hnone c)

/-- A coroutine whose bytes are in the buffer does not share it with the running one. -/
theorem StackInv.buffer_apart (h : StackInv cfg ex s) {c : Co} (hsus : s.Suspended c)
    (hcur : (s.csm c).current_co = some c) :
    cfg.Csm c ≠ cfg.Csm s.running := by
  intro heq
  cases hrun : cfg.IsShareStack s.running with
  | false => exact hsus.1 (cfg.alone _ _ hrun heq)
  | true =>
      have hocc := h.occupied hrun
      unfold Thread.csm at hcur hocc
      rw [h.static.csm] at hcur hocc
      rw [heq, hocc] at hcur
      exact hsus.1 (Option.some.inj hcur).symm

/-! ## §3. The switch. -/

theorem espAt_running (s : Thread) (sp : Nat) : s.espAt s.running sp s.running = sp :=
  if_pos rfl

theorem espAt_other {c : Co} (hne : c ≠ s.running) :
    s.espAt s.running sp c = (s.entity c).ESP := if_neg hne

/-- The stack of a coroutine after the switch. -/
theorem Switched.csm_eq (hsw : Switched s t pending s.running sp point target) (c : Co) :
    t.csm c = if (s.entity pending).IsShareStack = true ∧
        (s.entity c).Csm = (s.entity pending).Csm then
      { s.csm c with current_co := some pending } else s.csm c := by
  have hcsm : (t.entity c).Csm = (s.entity c).Csm := by rw [hsw.entity]
  unfold Thread.csm
  rw [hcsm, hsw.member]

/-- What the saved region depends on does not change. -/
theorem Switched.saved_iff (hsw : Switched s t pending s.running sp point target) {c : Co}
    {x : Nat} : t.Saved ex c x ↔ s.espAt s.running sp c ≤ x ∧ x < (s.csm c).stack_bp ∧
      ¬ (s.csm c).InTop x ∧ ¬ ex x := by
  have hesp : (t.entity c).ESP = s.espAt s.running sp c := by rw [hsw.entity]
  unfold Thread.Saved
  rw [hesp, hsw.csm_eq]
  split <;> exact Iff.rfl

/-- **A switch as `Co_resume` and `Co_yeild` make it**: to another coroutine, into its own context, with the
stack pointer of the running one on its stack. -/
structure Handover (cfg : Config) (s t : Thread) (pending : Co) (sp : Nat) (point : Point)
    (target : CoSwapT) : Prop extends Switched s t pending s.running sp point target where
  ne : pending ≠ s.running
  point_ne : point ≠ .realRunningFun
  cst : (s.entity pending).cst = some target
  co : target.co = pending
  low : cfg.IsShareStack s.running = true → (s.csm s.running).stack_buffer ≤ sp

theorem Handover.suspended_iff (hsw : Handover cfg s t pending sp point target) {c : Co} :
    t.Suspended c ↔ c ≠ pending ∧ (c = s.running ∨ s.Suspended c) := by
  have hcst : (t.entity c).cst =
      if c = s.running then some ⟨s.running, point⟩ else (s.entity c).cst := by
    rw [hsw.entity]
  unfold Thread.Suspended
  rw [hsw.running, hsw.co, hcst]
  by_cases hc : c = s.running
  · rw [if_pos hc]
    constructor
    · exact fun hsus => ⟨hsus.1, Or.inl hc⟩
    · exact fun hsus => ⟨hsus.1, _, rfl, hsw.point_ne⟩
  · rw [if_neg hc]
    constructor
    · exact fun hsus => ⟨hsus.1, Or.inr ⟨hc, hsus.2⟩⟩
    · exact fun hsus => ⟨hsus.1, (hsus.2.resolve_left hc).2⟩

/-- A switch writes to the stack of `pending` only. -/
theorem StackInv.switch_mem (h : StackInv cfg ex s) (hsw : Handover cfg s t pending sp point target)
    {x : Nat}
    (hx : ¬ (s.csm pending).Contains x ∨ (s.csm pending).current_co = some pending) :
    t.mem x = s.mem x := by
  by_cases hstart : ∀ o, s.Evicts pending o → target.point = .realRunningFun
  · rw [hsw.kept hstart]
  · obtain ⟨o, hstart⟩ := not_forall.mp hstart
    obtain ⟨hev, hgo⟩ := Classical.not_imp.mp hstart
    have hsus : s.Suspended pending := ⟨hsw.ne, target, hsw.cst, hgo⟩
    have hshare : cfg.IsShareStack pending = true := by
      rw [← h.static.share]
      exact hev.1
    have hnot : (s.csm pending).current_co ≠ some pending := by
      rw [hev.2.1]
      exact fun heq => hev.2.2 (Option.some.inj heq)
    obtain ⟨used, hused, hlen, -⟩ := h.away pending hsus hshare hnot
    have hbound := h.bounds pending hsus hshare
    rw [hsw.restored o used hev hgo hused]
    -- the bytes that come back lie in the buffer
    have hout := hx.resolve_right hnot
    unfold CoStackMember.Contains at hout
    have hagree := agreeOn_copy s.mem (a := (s.entity pending).ESP) used (b := x) (n := 1)
      (by omega)
    exact hagree x (Nat.le_refl x) (Nat.lt_succ_self x)

/-- The coroutine that is left has the memory it sees now. -/
theorem Switched.left_eq (hsw : Switched s t pending s.running sp point target) (c : Co) :
    t.left c = if c = s.running then s.mem else s.left c := by
  rw [hsw.left]
  by_cases hc : c = s.running
  · rw [hc, Function.update_self, if_pos rfl]
  · rw [Function.update_of_ne hc, if_neg hc]

/-- The stacks themselves are where they were. -/
theorem Switched.stack_eq (hsw : Switched s t pending s.running sp point target) (c : Co) :
    (t.csm c).stack_bp = (s.csm c).stack_bp ∧ (t.csm c).stack_buffer = (s.csm c).stack_buffer := by
  rw [hsw.csm_eq]
  split <;> exact ⟨rfl, rfl⟩

/-- A suspended coroutine other than the one switched out has kept its `ESP` and its bytes. -/
theorem Switched.old (hsw : Switched s t pending s.running sp point target) {c : Co}
    (hc : s.Suspended c) :
    s.espAt s.running sp c = (s.entity c).ESP ∧ t.left c = s.left c := by
  rw [hsw.left_eq, if_neg hc.1]
  exact ⟨espAt_other hc.1, rfl⟩

/-- Behind a switch `pending` occupies its stack, if it is shared. -/
theorem StackInv.current_co_eq (h : StackInv cfg ex s)
    (hsw : Switched s t pending s.running sp point target) (c : Co) : (t.csm c).current_co =
      if cfg.IsShareStack pending = true ∧ cfg.Csm c = cfg.Csm pending then some pending
      else (s.csm c).current_co := by
  rw [hsw.csm_eq, h.static.share, h.static.csm, h.static.csm]
  split <;> rfl

/-- What `co_swap_Co` switches away from lies in the buffer, whoever ran there. -/
theorem StackInv.espAt_low (h : StackInv cfg ex s) (hsw : Handover cfg s t pending sp point target)
    {c : Co} (hwho : c = s.running ∨ s.Suspended c) (hsh : cfg.IsShareStack c = true) :
    (s.csm c).stack_buffer ≤ s.espAt s.running sp c := by
  cases hwho with
  | inl heq =>
      rw [heq] at hsh ⊢
      rw [espAt_running]
      exact hsw.low hsh
  | inr hin =>
      rw [espAt_other hin.1]
      exact h.bounds c hin hsh

/-- A coroutine that still has its stack after the switch has had it before, and `pending` runs on another
one. -/
theorem StackInv.keeps_stack (h : StackInv cfg ex s) (hsw : Handover cfg s t pending sp point target)
    {c : Co} (hcp : c ≠ pending) (hco : (t.csm c).current_co = some c) :
    (s.csm c).current_co = some c ∧ cfg.Csm c ≠ cfg.Csm pending := by
  rw [h.current_co_eq hsw.toSwitched] at hco
  have hm : cfg.Csm c ≠ cfg.Csm pending := by
    intro heq
    cases hp : cfg.IsShareStack pending with
    | false => exact hcp (cfg.alone pending c hp heq)
    | true =>
        rw [if_pos ⟨hp, heq⟩] at hco
        exact hcp (Option.some.inj hco).symm
  rw [if_neg fun hand => hm hand.2] at hco
  exact ⟨hco, hm⟩

/-- Nothing is written on a stack that `pending` does not run on. -/
theorem StackInv.kept_mem (h : StackInv cfg ex s) (hsw : Handover cfg s t pending sp point target)
    {c : Co} (hwho : c = s.running ∨ s.Suspended c) (hsh : cfg.IsShareStack c = true)
    (hm : cfg.Csm c ≠ cfg.Csm pending) {x : Nat} (hlow : s.espAt s.running sp c ≤ x)
    (hhigh : x < (s.csm c).stack_bp) : t.mem x = s.mem x := by
  apply h.switch_mem hsw
  apply Or.inl
  refine h.static.apart ?_ ⟨Nat.le_trans (h.espAt_low hsw hwho hsh) hlow, hhigh⟩
  rw [h.static.csm, h.static.csm]
  exact hm

/-- **In the buffer**: a coroutine that still has its stack after the switch has its bytes there. -/
theorem StackInv.switch_here (h : StackInv cfg ex s) (hsw : Handover cfg s t pending sp point target)
    {c : Co} (hcp : c ≠ pending) (hwho : c = s.running ∨ s.Suspended c)
    (hsh : cfg.IsShareStack c = true) (hco : (t.csm c).current_co = some c) {x : Nat}
    (hx : t.Saved ex c x) : t.mem x = t.left c x := by
  obtain ⟨hcur, hm⟩ := h.keeps_stack hsw hcp hco
  have hx' := hsw.saved_iff.mp hx
  rw [h.kept_mem hsw hwho hsh hm hx'.1 hx'.2.1]
  cases hwho with
  | inl heq => rw [hsw.left_eq, if_pos heq]
  | inr hin =>
      rw [(hsw.old hin).2]
      rw [(hsw.old hin).1] at hx'
      exact h.here c hin hsh hcur x hx'

/-- **In the copy**: one whose stack is another's after the switch has its bytes in `Used_Stack`. -/
theorem StackInv.switch_away (h : StackInv cfg ex s)
    (hsw : Switched s t pending s.running sp point target) {c : Co} (hcp : c ≠ pending)
    (hwho : c = s.running ∨ s.Suspended c) (hsh : cfg.IsShareStack c = true)
    (hco : (t.csm c).current_co ≠ some c) :
    ∃ used, (t.entity c).Used_Stack = some used ∧
      used.length = (t.csm c).stack_bp - (t.entity c).ESP ∧
      ∀ x, t.Saved ex c x → used[x - (t.entity c).ESP]? = some (t.left c x) := by
  have hesp : (t.entity c).ESP = s.espAt s.running sp c := by rw [hsw.entity]
  rw [hesp, (hsw.stack_eq c).1]
  by_cases hev : s.Evicts pending c
  · -- its bytes have just been saved
    refine ⟨readBytes s.mem (s.espAt s.running sp c)
      ((s.csm c).stack_bp - s.espAt s.running sp c), ?_, readBytes_length _ _ _, ?_⟩
    · rw [hsw.entity]
      exact if_pos hev
    · intro x hx
      obtain ⟨hlow, hhigh, htop, hex⟩ := hsw.saved_iff.mp hx
      rw [readBytes_getElem? _ _ _ _ (by omega), Nat.add_sub_cancel' hlow]
      cases hwho with
      -- it has just been running: what it left is the memory itself
      | inl heq => rw [hsw.left_eq, if_pos heq]
      | inr hin =>
          have hm := (h.tenant _ c hev.2.1).2.1
          have hhas : (s.csm c).current_co = some c := by
            unfold Thread.csm
            rw [h.static.csm, hm]
            exact hev.2.1
          rw [(hsw.old hin).1] at hlow
          rw [(hsw.old hin).2, h.here c hin hsh hhas x ⟨hlow, hhigh, htop, hex⟩]
  · -- another coroutine has had the stack before, and still has it or leaves it to `pending`
    have hnot : (s.csm c).current_co ≠ some c := by
      intro heq
      rw [h.current_co_eq hsw] at hco
      by_cases hand : cfg.IsShareStack pending = true ∧ cfg.Csm c = cfg.Csm pending
      · apply hev
        refine ⟨by rw [h.static.share]; exact hand.1, ?_, hcp⟩
        unfold Thread.csm at heq ⊢
        rw [h.static.csm] at heq ⊢
        rw [← hand.2]
        exact heq
      · rw [if_neg hand] at hco
        exact hco heq
    -- the running one has its stack, so `c` was suspended before
    have hin : s.Suspended c := by
      cases hwho with
      | inl heq =>
          rw [heq] at hsh hnot
          exact absurd (h.occupied hsh) hnot
      | inr hin => exact hin
    obtain ⟨used, hused, hlen, hbytes⟩ := h.away c hin hsh hnot
    refine ⟨used, ?_, ?_, ?_⟩
    · rw [hsw.entity]
      dsimp only
      rw [if_neg hev]
      exact hused
    · rw [(hsw.old hin).1]
      exact hlen
    · intro x hx
      have hx' := hsw.saved_iff.mp hx
      rw [(hsw.old hin).1] at hx' ⊢
      rw [(hsw.old hin).2]
      exact hbytes x hx'

/-- **Back on the stack**: a coroutine that goes on finds its bytes. -/
theorem StackInv.switch_back (h : StackInv cfg ex s) (hsw : Handover cfg s t pending sp point target)
    (hgo : target.point ≠ .realRunningFun) (hpsh : cfg.IsShareStack pending = true) {x : Nat}
    (hx : t.Saved ex pending x) : t.mem x = t.left pending x := by
  have hin : s.Suspended pending := ⟨hsw.ne, target, hsw.cst, hgo⟩
  have hx' := hsw.saved_iff.mp hx
  rw [(hsw.old hin).1] at hx'
  rw [(hsw.old hin).2]
  by_cases hco : (s.csm pending).current_co = some pending
  · rw [h.switch_mem hsw (Or.inr hco)]
    exact h.here pending hin hpsh hco x hx'
  · obtain ⟨used, hused, -, hbytes⟩ := h.away pending hin hpsh hco
    obtain ⟨o, ho⟩ := Option.ne_none_iff_exists'.mp (h.claimed pending hin hpsh)
    have hev : s.Evicts pending o := by
      refine ⟨by rw [h.static.share]; exact hpsh, ho, fun heq => hco ?_⟩
      rw [ho, heq]
    rw [hsw.restored o used hev hgo hused]
    exact copy_inside _ _ _ hx'.1 (hbytes x hx')

/-- **A switch keeps the invariant**, and a coroutine that goes on finds its bytes. -/
theorem StackInv.switch (h : StackInv cfg ex s) (hsw : Handover cfg s t pending sp point target)
    (hstarted : pending ≠ mainCo → (s.entity pending).ISstart = true) :
    StackInv cfg ex t ∧ (target.point ≠ .realRunningFun → cfg.IsShareStack pending = true →
      ∀ x, t.Saved ex pending x → t.mem x = t.left pending x) := by
  have hsus : ∀ {c}, t.Suspended c ↔ c ≠ pending ∧ (c = s.running ∨ s.Suspended c) :=
    hsw.suspended_iff
  have hrun : t.running = pending := by rw [hsw.running, hsw.co]
  refine ⟨?_, fun hgo hpsh x hx => h.switch_back hsw hgo hpsh hx⟩
  constructor
  case static => exact h.static.switch hsw.toSwitched
  case started =>
    intro hmain
    rw [hrun] at hmain ⊢
    rw [hsw.entity]
    exact hstarted hmain
  case fresh =>
    intro c hst hmain
    rw [hsw.entity] at hst ⊢
    dsimp only at hst ⊢
    by_cases hc : c = s.running
    · rw [hc] at hst hmain
      rw [h.started hmain] at hst
      cases hst
    · rw [if_neg hc]
      exact h.fresh c hst hmain
  case occupied =>
    intro hsh
    rw [hrun] at hsh ⊢
    rw [h.current_co_eq hsw.toSwitched, if_pos ⟨hsh, rfl⟩]
  case tenant =>
    intro m c hmc
    rw [hsw.member, h.static.share, h.static.csm] at hmc
    -- only the stack of `pending` changes hands
    by_cases hm : cfg.IsShareStack pending = true ∧ m = cfg.Csm pending
    · rw [if_pos hm] at hmc
      have hc : pending = c := Option.some.inj hmc
      rw [← hc, hrun]
      exact ⟨hm.1, hm.2.symm, Or.inl rfl⟩
    · rw [if_neg hm] at hmc
      obtain ⟨hsh, hmem, hwho⟩ := h.tenant m c hmc
      have hc : c ≠ pending := fun heq => hm ⟨heq ▸ hsh, by rw [← heq]; exact hmem.symm⟩
      exact ⟨hsh, hmem, Or.inr (hsus.mpr ⟨hc, hwho⟩)⟩
  case claimed =>
    intro c hc hsh
    rw [h.current_co_eq hsw.toSwitched]
    split
    · simp
    · cases (hsus.mp hc).2 with
      | inl heq =>
          rw [heq] at hsh ⊢
          rw [h.occupied hsh]
          simp
      | inr hin => exact h.claimed c hin hsh
  case bounds =>
    intro c hc hsh
    have hesp : (t.entity c).ESP = s.espAt s.running sp c := by rw [hsw.entity]
    rw [(hsw.stack_eq c).2, hesp]
    exact h.espAt_low hsw (hsus.mp hc).2 hsh
  case here =>
    intro c hc hsh hhas x hx
    obtain ⟨hcp, hwho⟩ := hsus.mp hc
    exact h.switch_here hsw hcp hwho hsh hhas hx
  case away =>
    intro c hc hsh hhas
    obtain ⟨hcp, hwho⟩ := hsus.mp hc
    exact h.switch_away hsw.toSwitched hcp hwho hsh hhas

/-! ## §4. Between two switches. -/

/-- What the invariant reads: the bytes of suspended coroutines in their buffers above all. -/
theorem StackInv.congr (h : StackInv cfg ex s) (hrun : t.running = s.running)
    (hmember : t.member = s.member) (hleft : t.left = s.left)
    (hentity : ∀ c, (t.entity c).IsShareStack = (s.entity c).IsShareStack ∧
      (t.entity c).Csm = (s.entity c).Csm ∧ (t.entity c).ESP = (s.entity c).ESP ∧
      (t.entity c).Used_Stack = (s.entity c).Used_Stack)
    (hstarted : s.running ≠ mainCo → (t.entity s.running).ISstart = true)
    (hfresh : ∀ c, (t.entity c).ISstart = false → c ≠ mainCo → (t.entity c).cst = none)
    (hsus : ∀ c, t.Suspended c ↔ s.Suspended c)
    (hmem : ∀ c x, s.Suspended c → (s.csm c).current_co = some c → (s.csm c).Contains x →
      ¬ (s.csm c).InTop x → ¬ ex x → t.mem x = s.mem x) : StackInv cfg ex t := by
  have hcsm : ∀ c, t.csm c = s.csm c := by
    intro c
    unfold Thread.csm
    rw [hmember, (hentity c).2.1]
  have hesp : ∀ c, (t.entity c).ESP = (s.entity c).ESP := fun c => (hentity c).2.2.1
  -- what is saved of a coroutine depends on its stack and its stack pointer
  have hsaved : ∀ c x, t.Saved ex c x ↔ s.Saved ex c x := by
    intro c x
    unfold Thread.Saved
    rw [hcsm, hesp]
  constructor
  case static =>
    constructor
    case share => exact fun c => (hentity c).1.trans (h.static.share c)
    case csm => exact fun c => (hentity c).2.1.trans (h.static.csm c)
    case size => exact fun m => by rw [hmember]; exact h.static.size m
    case buffer => exact fun m => by rw [hmember]; exact h.static.buffer m
  case started =>
    intro hmain
    rw [hrun] at hmain ⊢
    exact hstarted hmain
  case fresh => exact hfresh
  case occupied =>
    intro hsh
    rw [hrun] at hsh ⊢
    rw [hcsm]
    exact h.occupied hsh
  case tenant =>
    intro m c hco
    rw [hmember] at hco
    rw [hrun, hsus]
    exact h.tenant m c hco
  case claimed =>
    intro c hc hsh
    rw [hcsm]
    exact h.claimed c ((hsus c).mp hc) hsh
  case bounds =>
    intro c hc hsh
    rw [hcsm, hesp]
    exact h.bounds c ((hsus c).mp hc) hsh
  case here =>
    intro c hc hsh hco x hx
    have hc' := (hsus c).mp hc
    rw [hcsm] at hco
    have hx' := (hsaved c x).mp hx
    have hbuffer : (s.csm c).Contains x :=
      ⟨Nat.le_trans (h.bounds c hc' hsh) hx'.1, hx'.2.1⟩
    rw [hmem c x hc' hco hbuffer hx'.2.2.1 hx'.2.2.2, hleft]
    exact h.here c hc' hsh hco x hx'
  case away =>
    intro c hc hsh hco
    rw [hcsm] at hco
    obtain ⟨used, hused, hlen, hbytes⟩ := h.away c ((hsus c).mp hc) hsh hco
    refine ⟨used, (hentity c).2.2.2.trans hused, ?_, ?_⟩
    · rw [hcsm, hesp]
      exact hlen
    · intro x hx
      rw [hesp, hleft]
      exact hbytes x ((hsaved c x).mp hx)

/-- The contexts stay as they are. -/
theorem StackInv.congr_same (h : StackInv cfg ex s) (hrun : t.running = s.running)
    (hmember : t.member = s.member) (hleft : t.left = s.left)
    (hentity : ∀ c, ∃ b, t.entity c = { s.entity c with IsEnd := b })
    (hmem : ∀ c x, s.Suspended c → (s.csm c).current_co = some c → (s.csm c).Contains x →
      ¬ (s.csm c).InTop x → ¬ ex x → t.mem x = s.mem x) : StackInv cfg ex t := by
  apply h.congr hrun hmember hleft _ _ _ _ hmem
  · intro c
    obtain ⟨b, hb⟩ := hentity c
    rw [hb]
    exact ⟨rfl, rfl, rfl, rfl⟩
  · intro hmain
    obtain ⟨b, hb⟩ := hentity s.running
    rw [hb]
    exact h.started hmain
  · intro c
    obtain ⟨b, hb⟩ := hentity c
    rw [hb]
    exact h.fresh c
  · intro c
    obtain ⟨b, hb⟩ := hentity c
    unfold Thread.Suspended
    rw [hrun, hb]

/-- The stack of the running coroutine holds no bytes of another one. -/
theorem StackInv.own_stack (h : StackInv cfg ex s) {c : Co} {x : Nat} (hsus : s.Suspended c)
    (hcur : (s.csm c).current_co = some c) (hx : (s.csm c).Contains x) :
    ¬ (s.csm s.running).Contains x := by
  apply h.static.apart _ hx
  rw [h.static.csm, h.static.csm]
  exact h.buffer_apart hsus hcur

/-- The items are written inside their array. -/
theorem storeItem_outside (m : Mem) {a x : Nat} (item : StPollItem)
    (hx : x < a ∨ a + itemSize ≤ x) : storeItem m a item x = m x := by
  have hx' : x < a ∨ a + 144 ≤ x := hx
  unfold storeItem
  rw [store_outside _ _ (by omega), store_outside _ _ (by omega), store_outside _ _ (by omega),
    store_outside _ _ (by omega), store_outside _ _ (by omega)]

/-- Only the array itself is written to. -/
theorem storeItems_outside {x : Nat} : ∀ (items : List StPollItem) (m : Mem) (a : Nat),
    (x < a ∨ a + items.length * itemSize ≤ x) → storeItems m a items x = m x := by
  intro items
  induction items with
  | nil => exact fun m a _ => rfl
  | cons item items ih =>
      intro m a hx
      have hsize : itemSize = 144 := rfl
      rw [List.length_cons, Nat.succ_mul] at hx
      show storeItems (storeItem m a item) (a + itemSize) items x = m x
      rw [ih _ _ (by omega), storeItem_outside _ _ (by omega)]

/-- What `Co_poll_inner` writes before it yields. -/
theorem poll_writes_outside {p : PollFrame} {m : Mem} {x : Nat} (hx : ¬ p.Contains x) :
    storeItems (copy m p.WillJoinEpoll (List.replicate (p.items.length * itemSize) 0))
      p.WillJoinEpoll p.items x = m x := by
  have hroom : p.items.length * itemSize ≤ p.room * itemSize := by
    apply Nat.mul_le_mul_right
    unfold PollFrame.room ShortItemOptimization
    split <;> omega
  unfold PollFrame.Contains at hx
  rw [storeItems_outside _ _ _ (by omega)]
  exact agreeOn_copy m (a := p.WillJoinEpoll) _ (b := x) (n := 1)
    (by rw [List.length_replicate]; omega) x (Nat.le_refl x) (Nat.lt_succ_self x)

/-- An array in the frame is on the stack of the running coroutine ... -/
theorem Thread.Fits.in_frame {p : PollFrame} (h : s.Fits p) (hin : p.InFrame) {x : Nat}
    (hx : p.Contains x) : (s.csm s.running).Contains x := by
  unfold Thread.Fits at h
  rw [if_pos hin] at h
  unfold PollFrame.Contains at hx
  show (s.csm s.running).stack_buffer ≤ x ∧ x < (s.csm s.running).stack_bp
  omega

/-- ... and any other is a block of its own. -/
theorem Thread.Fits.on_heap {p : PollFrame} (h : s.Fits p) (hin : ¬ p.InFrame) {x : Nat}
    (hx : p.Contains x) : s.Elsewhere x := by
  unfold Thread.Fits at h
  rw [if_neg hin] at h
  exact h x hx

/-- Neither the frame of the running coroutine nor a block of the heap holds such bytes. -/
theorem StackInv.fits_apart (h : StackInv cfg ex s) {p : PollFrame} {c : Co} {x : Nat}
    (hfits : s.Fits p) (hsus : s.Suspended c) (hcur : (s.csm c).current_co = some c)
    (hx : (s.csm c).Contains x) : ¬ p.Contains x := by
  intro hin
  by_cases hframe : p.InFrame
  · exact h.own_stack hsus hcur hx (hfits.in_frame hframe hin)
  · exact (hfits.on_heap hframe hin).1 _ hx

/-- The end of a coroutine is marked in its entity, and nothing else there. -/
theorem Thread.finish_entity (s : Thread) (esp : Nat) (c : Co) :
    ∃ b, (CoSwap.beforeYeild s (.finish esp)).entity c = { s.entity c with IsEnd := b } := by
  show ∃ b, Function.update s.entity s.running _ c = _
  by_cases hc : c = s.running
  · rw [hc, Function.update_self]
    exact ⟨true, rfl⟩
  · rw [Function.update_of_ne hc]
    exact ⟨_, rfl⟩

/-- A write does not reach the stack of a suspended coroutine. -/
theorem StackInv.write_outside (h : StackInv cfg ex s) {x : Nat} {b : BitVec 8}
    (hok : s.Allowed (.write x b)) {c : Co} {y : Nat} (hsus : s.Suspended c)
    (hcur : (s.csm c).current_co = some c) (hy : (s.csm c).Contains y) :
    Function.update s.mem x b y = s.mem y := by
  obtain ⟨-, hstack, hmain⟩ := hok
  apply Function.update_of_ne
  intro hxy
  rw [hxy] at hy
  by_cases hm : s.running = mainCo
  · exact (hmain hm).1 _ hy
  · exact h.own_stack hsus hcur hy (hstack hm)

theorem StackInv.beforeYeild (h : StackInv cfg ex s) (hok : s.Allowed a) (ha : a.yields = true)
    (n : Nat) : StackInv cfg ex { CoSwap.beforeYeild s a with Co_ESP := n } := by
  cases a with
  | yeild esp => exact h.congr_same rfl rfl rfl (fun c => ⟨_, rfl⟩) fun _ _ _ _ _ _ _ => rfl
  | finish esp =>
      exact h.congr_same rfl rfl rfl (s.finish_entity esp) fun _ _ _ _ _ _ _ => rfl
  | poll p esp =>
      refine h.congr_same rfl rfl rfl (fun c => ⟨_, rfl⟩) ?_
      intro c x hsus hcur hx _ _
      exact poll_writes_outside (h.fits_apart hok.2.2.2 hsus hcur hx)
  | _ => cases ha

theorem CallInv.mem_calls_main (h : CallInv s) : mainCo ∈ s.calls :=
  mem_calls.mpr ⟨0, h.pos, h.main⟩

theorem CallInv.mem_calls_running (h : CallInv s) : s.running ∈ s.calls := by
  have hpos := h.pos
  exact mem_calls.mpr ⟨s.Co_ESP - 1, by omega, h.top⟩

/-- A coroutine that starts had no bytes yet. -/
theorem StackInv.prepared_suspended (h : StackInv cfg ex s) {b : Thread} {pfn : Nat}
    (hprep : Prepared s b co pfn) (hmain : co ≠ mainCo) (c : Co) : b.Suspended c ↔ s.Suspended c := by
  unfold Thread.Suspended
  rw [hprep.running]
  by_cases heq : c = co
  · rw [heq, hprep.self]
    cases hst : (s.entity co).ISstart with
    | false =>
        rw [h.fresh co hst hmain]
        simp
    | true => simp
  · rw [hprep.other c heq]

/-- The word that is written at the top of its stack is nobody's. -/
theorem StackInv.beforeResume (h : StackInv cfg ex s) (hc : CallInv s) (hout : co ∉ s.calls)
    (pfn : Nat) : StackInv cfg ex (CoSwap.beforeResume s co pfn) := by
  have hmain : co ≠ mainCo := fun heq => hout (heq ▸ hc.mem_calls_main)
  have hrunning : co ≠ s.running := fun heq => hout (heq ▸ hc.mem_calls_running)
  have hprep := beforeResume_prepared s co pfn
  refine h.congr hprep.running hprep.member hprep.left hprep.same ?_ ?_
    (h.prepared_suspended hprep hmain) ?_
  · intro hne
    rw [hprep.other _ hrunning.symm]
    exact h.started hne
  · intro c hst hne
    by_cases heq : c = co
    · rw [heq, hprep.self] at hst
      cases hst
    · rw [hprep.other c heq] at hst ⊢
      exact h.fresh c hst hne
  · intro c x _ _ hx htop _
    apply hprep.outside
    intro hword
    -- the word is on another stack, or it is the one that is left out
    by_cases hm : (s.entity c).Csm = (s.entity co).Csm
    · apply htop
      unfold Thread.csm at hword ⊢
      rw [hm]
      exact hword
    · exact h.static.apart hm hx (h.static.top_contains hword)

/-! ## §5. Every step. -/

/-- The running code writes to its own memory only; `EventLoop` also links items. -/
def Action.own : Action → Bool
  | .link _ _ _ _ => false
  | _ => true

/-- An allowed step that writes to the running coroutine's own memory. -/
def Thread.OwnStep (s : Thread) (a : Action) (t : Thread) : Prop := s.Step a t ∧ a.own = true

/-- The address of `c` in `co_swap_Co` is on the stack of the running coroutine. -/
theorem esp_bound {esp : Nat} (hesp : s.OnStack esp)
    (hshare : cfg.IsShareStack s.running = true) : (s.csm s.running).stack_buffer ≤ esp := by
  have hne : s.running ≠ mainCo := by
    intro heq
    rw [heq, cfg.main] at hshare
    cases hshare
  exact (hesp hne).1

/-- **The switch of a `Co_resume`.** -/
theorem CallInv.resume_handover (hc : CallInv s) (cfg : Config) {esp pfn : Nat}
    (hok : s.Allowed (.resume co esp pfn)) (hstep : s.step (.resume co esp pfn) = some t) :
    ∃ point', Handover cfg (CoSwap.beforeResume s co pfn) t co esp (.resume s.calls) ⟨co, point'⟩ ∧
      (point' = .realRunningFun ↔ (s.entity co).ISstart = false) := by
  obtain ⟨-, hout, -, hdepth, hesp⟩ := hok
  obtain ⟨t', point', ht, hsw, hcst, hfresh⟩ := resume_spec hc esp pfn hout hdepth
  have heq : t' = t := Option.some.inj (ht.symm.trans hstep)
  have hprep := beforeResume_prepared s co pfn
  rw [heq, ← hprep.running] at hsw
  refine ⟨point', ⟨hsw, ?_, by simp, hcst, rfl, ?_⟩, hfresh⟩
  · rw [hprep.running]
    exact fun heq => hout (heq ▸ hc.mem_calls_running)
  · intro hshare
    rw [hprep.running] at hshare ⊢
    rw [hprep.csm]
    exact esp_bound hesp hshare

/-- **`Co_resume`** brings back what the coroutine left. -/
theorem StackInv.resume (h : StackInv cfg ex s) (hc : CallInv s) {esp pfn : Nat}
    (hok : s.Allowed (.resume co esp pfn)) (hstep : s.step (.resume co esp pfn) = some t) :
    StackInv cfg ex t ∧ t.running = co ∧ ((s.entity co).ISstart = true →
      cfg.IsShareStack co = true → ∀ x, t.Saved ex co x → t.mem x = t.left co x) := by
  obtain ⟨point', hsw, hfresh⟩ := hc.resume_handover cfg hok hstep
  have hstarted : ((CoSwap.beforeResume s co pfn).entity co).ISstart = true := by
    rw [(beforeResume_prepared s co pfn).self]
  obtain ⟨h', hbytes⟩ := (h.beforeResume hc hok.2.1 pfn).switch hsw fun _ => hstarted
  refine ⟨h', hsw.running, fun hran hshare => hbytes ?_ hshare⟩
  intro hpoint
  rw [hfresh.mp hpoint] at hran
  cases hran

theorem onStack_of_yields (hok : s.Allowed a) (ha : a.yields = true) : s.OnStack a.esp := by
  cases a with
  | yeild esp => exact hok.2.2
  | finish esp => exact hok.2.2
  | poll p esp => exact hok.2.2.1
  | _ => cases ha

/-- **The switch of a `Co_yeild`.** -/
theorem StackInv.yields_handover (h : StackInv cfg ex s) (hc : CallInv s) (hok : s.Allowed a)
    (ha : a.yields = true) (hstep : s.step a = some t) :
    Handover cfg { CoSwap.beforeYeild s a with Co_ESP := s.Co_ESP - 1 } t
      (s.Co_CallBack (s.Co_ESP - 2)) a.esp .yeild
      ⟨s.Co_CallBack (s.Co_ESP - 2), .resume ((List.range (s.Co_ESP - 1)).map s.Co_CallBack)⟩ := by
  obtain ⟨t', ht, -, hsw, -, -, -⟩ := hc.yields hok ha
  have heq : t' = t := Option.some.inj (ht.symm.trans hstep)
  rw [heq] at hsw
  obtain ⟨-, -, hrunning, -, hentity⟩ := beforeYeild_same (s := s) ha
  have htwo := hc.two_le (not_main_of_yields hok ha)
  have hidx : s.Co_ESP - 2 + 1 = s.Co_ESP - 1 := by omega
  have htarget := hc.below (s.Co_ESP - 2) (by omega)
  rw [hidx] at htarget
  have hne : s.Co_CallBack (s.Co_ESP - 2) ≠ s.running := by
    intro heq
    rw [← hc.top] at heq
    have := hc.distinct _ _ (by omega) (by omega) heq
    omega
  have hbefore := h.beforeYeild hok ha (s.Co_ESP - 1)
  unfold SwitchedBack at hsw
  rw [← hrunning] at hsw hne
  refine ⟨hsw, hne, by simp, (hentity _).1.trans htarget, rfl, ?_⟩
  intro hshare
  rw [hbefore.static.csm_buffer]
  show cfg.stack_buffer (cfg.Csm (CoSwap.beforeYeild s a).running) ≤ a.esp
  have hshare' : cfg.IsShareStack (CoSwap.beforeYeild s a).running = true := hshare
  rw [hrunning] at hshare' ⊢
  rw [← h.static.csm_buffer]
  exact esp_bound (onStack_of_yields hok ha) hshare'

/-- **`Co_yeild`** brings back what the resumer left. -/
theorem StackInv.yields (h : StackInv cfg ex s) (hc : CallInv s) (hok : s.Allowed a)
    (ha : a.yields = true) (hstep : s.step a = some t) :
    StackInv cfg ex t ∧ (cfg.IsShareStack t.running = true →
      ∀ x, t.Saved ex t.running x → t.mem x = t.left t.running x) := by
  have hsw := h.yields_handover hc hok ha hstep
  have hrun : t.running = s.Co_CallBack (s.Co_ESP - 2) := hsw.running
  have hbefore := h.beforeYeild hok ha (s.Co_ESP - 1)
  -- whoever stands in a `Co_resume` has been started
  have hstarted : s.Co_CallBack (s.Co_ESP - 2) ≠ mainCo →
      ((CoSwap.beforeYeild s a).entity (s.Co_CallBack (s.Co_ESP - 2))).ISstart = true := by
    intro hne
    by_contra hst
    rw [Bool.not_eq_true] at hst
    have hnone := hbefore.fresh _ hst hne
    rw [hsw.cst] at hnone
    cases hnone
  obtain ⟨h', hbytes⟩ := hbefore.switch hsw hstarted
  rw [← hrun] at hbytes
  exact ⟨h', hbytes (by simp)⟩

/-- **Every step keeps the invariant**; one that links an item does when its address is left out. -/
theorem StackInv.step (h : StackInv cfg ex s) (hc : CallInv s) (hstep : s.Step a t)
    (hown : a.own = true ∨ ∀ x, ex x) : StackInv cfg ex t := by
  obtain ⟨hok, hstep⟩ := hstep
  cases hyields : a.yields with
  | true => exact (h.yields hc hok hyields hstep).1
  | false =>
      cases a with
      | resume co esp pfn => exact (h.resume hc hok hstep).1
      | write x b =>
          have heq : { s with mem := Function.update s.mem x b } = t := Option.some.inj hstep
          rw [← heq]
          refine h.congr_same rfl rfl rfl (fun c => ⟨_, rfl⟩) ?_
          intro c y hsus hcur hy _ _
          exact h.write_outside hok hsus hcur hy
      | pollBack =>
          have heq : { s with polls := Function.update s.polls s.running none } = t :=
            Option.some.inj hstep
          rw [← heq]
          exact h.congr_same rfl rfl rfl (fun c => ⟨_, rfl⟩) fun _ _ _ _ _ _ _ => rfl
      | link c i off b =>
          obtain ⟨-, -, -, p, hp, -⟩ := hok
          have heq : { s with mem := Function.update s.mem (p.WillJoinEpoll + i * itemSize + off) b } =
              t := by
            have hmap : (s.polls c).map (fun p => { s with
                mem := Function.update s.mem (p.WillJoinEpoll + i * itemSize + off) b }) = some t :=
              hstep
            rw [Option.mem_def.mp hp] at hmap
            exact Option.some.inj hmap
          rw [← heq]
          refine h.congr_same rfl rfl rfl (fun c => ⟨_, rfl⟩) ?_
          intro c y _ _ _ _ hy
          cases hown with
          | inl hown => cases hown
          | inr hall => exact absurd (hall y) hy
      | yeild esp => cases hyields
      | finish esp => cases hyields
      | poll p esp => cases hyields

theorem StackInv.run_step (hinv : CallInv s ∧ StackInv cfg ex s) (hstep : s.Step a t)
    (hown : a.own = true ∨ ∀ x, ex x) : CallInv t ∧ StackInv cfg ex t := by
  obtain ⟨t', ht', hc'⟩ := hinv.1.step hstep.1
  have heq : t' = t := Option.some.inj (ht'.symm.trans hstep.2)
  rw [heq] at hc'
  exact ⟨hc', hinv.2.step hinv.1 hstep hown⟩

/-- Both invariants, in every run. -/
theorem StackInv.of_run {as : List Action} (hrun : Run Thread.OwnStep cfg.init as s) :
    CallInv s ∧ StackInv cfg ex s := by
  apply Run.invariant (I := fun s => CallInv s ∧ StackInv cfg ex s) _ hrun
    ⟨CallInv.init cfg, StackInv.init cfg⟩
  exact fun s a t hinv hstep => StackInv.run_step hinv hstep.1 (Or.inl hstep.2)

/-! ## §6. The bytes of a coroutine. -/

/-- **A shared stack is given back as it was.**  Whenever a step of a run switches to a coroutine that
was switched out before and runs on a shared stack, each byte from the `ESP` recorded then to the end
of the stack has the value it had then, apart from the word at the top of the buffer. -/
theorem sharedStack_restored {as : List Action} (hrun : Run Thread.OwnStep cfg.init as s)
    (hstep : s.OwnStep a t) (hswitch : t.running ≠ s.running)
    (hran : (s.entity t.running).ISstart = true)
    (hshare : (s.entity t.running).IsShareStack = true) :
    ∀ x, (t.entity t.running).ESP ≤ x → x < (t.csm t.running).stack_bp →
      ¬ (t.csm t.running).InTop x → t.mem x = t.left t.running x := by
  obtain ⟨hc, h⟩ := StackInv.of_run hrun
  rw [h.static.share] at hshare
  have hbytes : ∀ x, t.Saved (fun _ => False) t.running x → t.mem x = t.left t.running x := by
    cases hyields : a.yields with
    | true => exact (h.yields hc hstep.1.1 hyields hstep.1.2).2 hshare
    | false =>
        obtain ⟨⟨hok, hstep⟩, hown⟩ := hstep
        cases a with
        | resume co esp pfn =>
            obtain ⟨-, hco, hbytes⟩ := h.resume hc hok hstep
            rw [hco] at hran hshare ⊢
            exact hbytes hran hshare
        | write x b =>
            have heq : { s with mem := Function.update s.mem x b } = t := Option.some.inj hstep
            rw [← heq] at hswitch
            exact absurd rfl hswitch
        | pollBack =>
            have heq : { s with polls := Function.update s.polls s.running none } = t :=
              Option.some.inj hstep
            rw [← heq] at hswitch
            exact absurd rfl hswitch
        | link c i off b => cases hown
        | yeild esp => cases hyields
        | finish esp => cases hyields
        | poll p esp => cases hyields
  exact fun x hlow hhigh htop => hbytes x ⟨hlow, hhigh, htop, id⟩

theorem Thread.ownStep_of_check (hok : s.check a = true) (hstep : s.step a = some t) :
    s.OwnStep a t := by
  refine ⟨Thread.step_of_check hok hstep, ?_⟩
  cases a with
  | link c i off b => cases hok
  | _ => rfl

/-- Coroutine 2 writes over the byte of coroutine 1, which finds it again. -/
theorem sharedStack_restored_byte : ∃ s t, Run Thread.OwnStep Config.twoOnOne.init
    [.resume 1 0 0, .write 8000 7, .yeild 7900, .resume 2 0 0, .write 8000 9, .yeild 7800] s ∧
    s.mem 8000 = 9 ∧ s.OwnStep (.resume 1 0 0) t ∧ t.mem 8000 = 7 := by
  have hcheck : checkRun Thread.step Thread.check Config.twoOnOne.init
      [.resume 1 0 0, .write 8000 7, .yeild 7900, .resume 2 0 0, .write 8000 9, .yeild 7800]
      (fun s => checkRun Thread.step Thread.check s [.resume 1 0 0] fun t =>
        decide (s.mem 8000 = 9 ∧ s.running = 0 ∧ t.running = 1 ∧ (s.entity 1).ISstart = true ∧
          (s.entity 1).IsShareStack = true ∧ (t.entity 1).ESP = 7900 ∧
          (t.csm 1).stack_bp = 8192 ∧ ¬ (t.csm 1).InTop 8000 ∧ t.left 1 8000 = 7)) = true := by
    decide +kernel
  obtain ⟨s, hrun, hs⟩ := Run.of_check (fun s a t => Thread.ownStep_of_check) hcheck
  obtain ⟨t, hone, ht⟩ := Run.of_check (fun s a t => Thread.ownStep_of_check) hs
  obtain ⟨hmem, hmain, hco, hran, hshare, hesp, hbp, htop, hleft⟩ := of_decide_eq_true ht
  have hbytes := sharedStack_restored hrun hone.single (by rw [hmain, hco]; decide)
    (by rw [hco]; exact hran) (by rw [hco]; exact hshare) 8000
  rw [hco, hesp, hbp] at hbytes
  exact ⟨s, t, hrun, hmem, hone.single, (hbytes (by decide) (by decide) htop).trans hleft⟩

end RocketCo.CoSwap
