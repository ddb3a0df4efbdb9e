/-
  RocketCo.CoRoutine.Stacks — which coroutine gets which stack.

  `CreatAndAlloction` gives a coroutine a stack of its own, of the size asked for within bounds, or one of
  the stacks of a `Co_ShareStack`, which it goes through in turn with `alloc_idx`.

  Main results, of all runs of a thread, also those that run out of memory:
    • `stacks_assigned` — no two coroutines with a stack of their own have the same one, and its size is a
      multiple of 4KB; the `k`-th coroutine on a `Co_ShareStack` runs on its stack `k % count`,
    • `shared_stacks_balanced` — the stacks of a `Co_ShareStack` have the same number of coroutines, up to
      one.
-/
import Mathlib.Data.Int.CardIntervalMod
import Mathlib.Data.Set.Card
import Mathlib.Tactic.IntervalCases
import RocketCo.CoRoutine.ThreadEnv

namespace RocketCo.CoRoutine

open RocketCo.Lib RocketCo.Lib.Alloc

/-! ## §1. The size of a stack. -/

/-- `& ~0xFFF` clears the twelve low bits. -/
theorem and_not_mask (n : BitVec 32) :
    (n &&& ~~~(0xFFF : BitVec 32)).toNat = n.toNat / 4096 * 4096 := by
  have hshift : n &&& ~~~(0xFFF : BitVec 32) = (n >>> 12) <<< 12 := by
    apply BitVec.eq_of_getLsbD_eq
    intro i hi
    rw [BitVec.getLsbD_and, BitVec.getLsbD_shiftLeft, BitVec.getLsbD_ushiftRight]
    by_cases h12 : i < 12
    · have hbit : (~~~(0xFFF : BitVec 32)).getLsbD i = false := by
        interval_cases i <;> rfl
      rw [hbit]
      simp [h12]
    · have hbit : (~~~(0xFFF : BitVec 32)).getLsbD i = true := by
        interval_cases i <;> rfl
      have hadd : 12 + (i - 12) = i := by omega
      rw [hbit]
      simp [h12, hi, hadd]
  have hlt := n.isLt
  rw [hshift, BitVec.toNat_shiftLeft, BitVec.toNat_ushiftRight, Nat.shiftRight_eq_div_pow,
    Nat.shiftLeft_eq]
  omega

/-- Rounding up to 4KB. -/
theorem align_toNat {k : BitVec 32} (hk : k.toNat ≤ 8 * 1024 * 1024) :
    (if k &&& (0xFFF : BitVec 32) ≠ 0 then (k &&& ~~~(0xFFF : BitVec 32)) + 0x1000 else k).toNat =
      (k.toNat + 4095) / 4096 * 4096 := by
  have hmod : (k &&& (0xFFF : BitVec 32)).toNat = k.toNat % 4096 :=
    Nat.and_two_pow_sub_one_eq_mod k.toNat 12
  by_cases hlow : k &&& (0xFFF : BitVec 32) = 0
  · have hzero : k.toNat % 4096 = 0 := by
      rw [← hmod, hlow]
      rfl
    rw [if_neg (not_not.mpr hlow)]
    omega
  · have hpos : k.toNat % 4096 ≠ 0 := by
      intro hzero
      exact hlow (BitVec.eq_of_toNat_eq (hmod.trans hzero))
    rw [if_pos hlow, BitVec.toNat_add, and_not_mask]
    show (k.toNat / 4096 * 4096 + 4096) % 2 ^ 32 = _
    omega

/-- The size that is asked for, within the bounds. -/
def boundedStackSize (n : BitVec 32) : Nat :=
  if n.sle 0 then 128 * 1024 else min n.toNat (8 * 1024 * 1024)

/-- The bounds are those of signed numbers. -/
theorem bounded_toNat (n : BitVec 32) :
    (if n.sle 0 then defaultStackSize
      else if maximumStackSize.slt n then maximumStackSize else n).toNat = boundedStackSize n := by
  unfold boundedStackSize
  by_cases hnone : n.sle 0 = true
  · rw [if_pos hnone, if_pos hnone]
    rfl
  · rw [if_neg hnone, if_neg hnone]
    have hpos : ¬ n.toInt ≤ 0 := fun hle => hnone (BitVec.sle_iff_toInt_le.mpr hle)
    have hint := BitVec.toInt_eq_toNat_cond n
    have hlt := n.isLt
    have hmax : maximumStackSize.toInt = 8 * 1024 * 1024 := rfl
    by_cases hmany : maximumStackSize.slt n = true
    · have hover := BitVec.slt_iff_toInt_lt.mp hmany
      rw [if_pos hmany]
      show 8 * 1024 * 1024 = min n.toNat (8 * 1024 * 1024)
      split at hint
      · omega
      · omega
    · have hwithin : ¬ maximumStackSize.toInt < n.toInt :=
        fun hlt => hmany (BitVec.slt_iff_toInt_lt.mpr hlt)
      rw [if_neg hmany]
      split at hint
      · omega
      · omega

/-- **The size of a stack** is the next multiple of 4KB. -/
theorem alignedStackSize_toNat (n : BitVec 32) :
    (alignedStackSize n).toNat = (boundedStackSize n + 4095) / 4096 * 4096 := by
  have hbounded := bounded_toNat n
  have hmax : boundedStackSize n ≤ 8 * 1024 * 1024 := by
    unfold boundedStackSize
    split
    · decide
    · exact Nat.min_le_right _ _
  rw [← hbounded] at hmax ⊢
  exact align_toNat hmax

/-- A multiple of 4KB, and 8MB at most. -/
def Sized (size : BitVec 32) : Prop :=
  4096 ∣ size.toNat ∧ 4096 ≤ size.toNat ∧ size.toNat ≤ 8 * 1024 * 1024

/-- The size that `CreatAndAlloction` comes to is within bounds. -/
theorem alignedStackSize_sized (n : BitVec 32) : Sized (alignedStackSize n) := by
  have hbounds : 1 ≤ boundedStackSize n ∧ boundedStackSize n ≤ 8 * 1024 * 1024 := by
    unfold boundedStackSize
    by_cases hnone : n.sle 0 = true
    · rw [if_pos hnone]
      decide
    · have hne : n.toNat ≠ 0 := by
        intro hzero
        have hn : n = 0 := BitVec.eq_of_toNat_eq hzero
        exact hnone (by rw [hn]; rfl)
      rw [if_neg hnone]
      omega
  unfold Sized
  rw [alignedStackSize_toNat]
  refine ⟨Nat.dvd_mul_left _ _, ?_, ?_⟩
  · omega
  · omega

/-! ## §2. What every call keeps. -/

/-- Whether the stack of a coroutine is shared, and the stack. -/
def ThreadState.stack (s : ThreadState) (co : Nat) : Option (Bool × Option StackMember) :=
  (s.entity co).map fun x => (x.IsShareStack, x.Csm)

/-- The coroutines on a stack of a `Co_ShareStack`. -/
def ThreadState.OnStack (s : ThreadState) (m : StackMember) (co : Nat) : Prop :=
  s.stack co = some (true, some m)

/-- The coroutines with a stack of their own. -/
def ThreadState.Owns (s : ThreadState) (co : Nat) (m : StackMember) : Prop :=
  s.stack co = some (false, some m)

/-- No stack is in two places of `Co_ShareStack`s. -/
def StacksApart (share : Nat → Option CoShareStack) : Prop :=
  ∀ a b S S' i j, share a = some S → share b = some S' → i < S.count.toNat → j < S'.count.toNat →
    S.stack_array i = S'.stack_array j → a = b ∧ i = j

/-- The stack whose turn it is behind `k` coroutines; `alloc_idx` is an `unsigned`. -/
def CoShareStack.turn (S : CoShareStack) (k : Nat) : Nat :=
  (S.alloc_idx.toNat + k) % 2 ^ 32 % S.count.toNat

/-- **The coroutines of a `Co_ShareStack`**, in the order of their creation. -/
structure Roster (s : ThreadState) (a : Nat) (S : CoShareStack) (roster : List Nat) : Prop where
  sorted : roster.Pairwise (· < ·)
  mem : ∀ co, co ∈ roster ↔ ∃ i < S.count.toNat, s.OnStack (S.stack_array i) co
  turn : ∀ k co, roster[k]? = some co → s.OnStack (S.stack_array (S.turn k)) co
  share : s.share a = some { S with alloc_idx := S.alloc_idx + BitVec.ofNat 32 roster.length }

/-- **The invariant.**  `share` are the `Co_ShareStack`s as they were at the start. -/
structure Stacks (share : Nat → Option CoShareStack) (n : Nat) (s : ThreadState) : Prop where
  fresh : ∀ co, n ≤ co → s.stack co = none
  given : ∀ co b c, s.stack co = some (b, c) → c ≠ none
  own : ∀ co m, s.Owns co m → m.stack_buffer < n ∧ Sized m.stack_size
  apart : ∀ co co' m m', s.Owns co m → s.Owns co' m' → m.stack_buffer = m'.stack_buffer → co = co'
  none : ∀ a, share a = none → s.share a = none
  rosters : ∀ a S, share a = some S → ∃ roster, Roster s a S roster

variable {memory : Nat → Bool} {share : Nat → Option CoShareStack} {n m : Nat} {s t : ThreadState}
  {α : Type}

/-- Requests, and writes to other things. -/
theorem Stacks.same (h : Stacks share n s) (hn : n ≤ m) (hstack : t.stack = s.stack)
    (hshare : t.share = s.share) : Stacks share m t := by
  have hon : ∀ x co, t.OnStack x co ↔ s.OnStack x co := by
    intro x co
    unfold ThreadState.OnStack
    rw [hstack]
  have howns : ∀ co x, t.Owns co x ↔ s.Owns co x := by
    intro co x
    unfold ThreadState.Owns
    rw [hstack]
  refine ⟨?_, ?_, ?_, ?_, ?_, ?_⟩
  · intro co hco
    rw [hstack]
    exact h.fresh co (Nat.le_trans hn hco)
  · intro co b c hco
    rw [hstack] at hco
    exact h.given co b c hco
  · intro co x hco
    obtain ⟨hlt, hsized⟩ := h.own co x ((howns co x).mp hco)
    exact ⟨Nat.lt_of_lt_of_le hlt hn, hsized⟩
  · intro co co' x x' hco hco'
    exact h.apart co co' x x' ((howns co x).mp hco) ((howns co' x').mp hco')
  · intro a ha
    rw [hshare]
    exact h.none a ha
  · intro a S ha
    obtain ⟨roster, hsorted, hmem, hturn, hat⟩ := h.rosters a S ha
    refine ⟨roster, hsorted, ?_, ?_, ?_⟩
    · intro co
      simp only [hon]
      exact hmem co
    · intro k co hk
      rw [hon]
      exact hturn k co hk
    · rw [hshare]
      exact hat

/-- A request does not move any stack. -/
theorem Stacks.later (h : Stacks share n s) : Stacks share (n + 1) s :=
  h.same (Nat.le_succ n) rfl rfl

/-- The fields of a coroutine are written, but not those of its stack. -/
theorem stack_setEntity {co : Nat} {x y : ThreadEntity} (hx : s.entity co = some x)
    (hy : (y.IsShareStack, y.Csm) = (x.IsShareStack, x.Csm)) : (s.setEntity co y).stack = s.stack := by
  funext c
  unfold ThreadState.stack ThreadState.setEntity
  by_cases hc : c = co
  · rw [hc, hx]
    show Option.map _ (Function.update s.entity co (some y) co) = _
    rw [Function.update_self]
    exact congrArg some hy
  · show Option.map _ (Function.update s.entity co (some y) c) = _
    rw [Function.update_of_ne hc]

/-! ## §3. A coroutine is created. -/

/-- What the new coroutine adds. -/
theorem stack_created (co : Nat) (y : ThreadEntity) (c : Nat) :
    (s.setEntity co y).stack c = if c = co then some (y.IsShareStack, y.Csm) else s.stack c := by
  unfold ThreadState.stack ThreadState.setEntity
  show Option.map _ (Function.update s.entity co (some y) c) = _
  by_cases hc : c = co
  · rw [hc, Function.update_self, if_pos rfl]
    rfl
  · rw [Function.update_of_ne hc, if_neg hc]

/-- All coroutines so far are below the new one. -/
def Newest (co n : Nat) (s : ThreadState) : Prop := co < n ∧ ∀ c, s.stack c ≠ none → c < co

/-- The coroutine that is being made has no stack yet. -/
theorem Newest.none {co : Nat} (h : Newest co n s) : s.stack co = none := by
  by_contra hne
  exact absurd (h.2 co hne) (Nat.lt_irrefl co)

/-- **With a stack of its own**, whose buffer is the last thing that was requested. -/
theorem Stacks.createOwn {co : Nat} {y : ThreadEntity} {x : StackMember} (h : Stacks share n s)
    (hco : Newest co n s) (hy : y.IsShareStack = false) (hx : y.Csm = some x)
    (hbuffer : x.stack_buffer = n) (hsized : Sized x.stack_size) :
    Stacks share (n + 1) (s.setEntity co y) := by
  have hstack : ∀ c, c ≠ co → (s.setEntity co y).stack c = s.stack c := by
    intro c hc
    rw [stack_created, if_neg hc]
  have hnew : (s.setEntity co y).stack co = some (false, some x) := by
    rw [stack_created, if_pos rfl, hy, hx]
  -- the stacks of the others are not changed, and nothing is on a shared stack that was not
  have hon : ∀ z c, (s.setEntity co y).OnStack z c ↔ s.OnStack z c := by
    intro z c
    unfold ThreadState.OnStack
    by_cases hc : c = co
    · rw [hc, hnew, hco.none]
      simp
    · rw [hstack c hc]
  have howns : ∀ c z, (s.setEntity co y).Owns c z → s.Owns c z ∨ c = co ∧ z = x := by
    intro c z hz
    unfold ThreadState.Owns at hz ⊢
    by_cases hc : c = co
    · rw [hc, hnew] at hz
      exact Or.inr ⟨hc, (Option.some.inj (Prod.mk.inj (Option.some.inj hz)).2).symm⟩
    · rw [hstack c hc] at hz
      exact Or.inl hz
  refine ⟨?_, ?_, ?_, ?_, h.none, ?_⟩
  · intro c hc
    have hlt := hco.1
    rw [hstack c (by omega)]
    exact h.fresh c (by omega)
  · intro c b z hz
    by_cases hc : c = co
    · rw [hc, hnew] at hz
      rw [← (Prod.mk.inj (Option.some.inj hz)).2]
      exact Option.some_ne_none x
    · rw [hstack c hc] at hz
      exact h.given c b z hz
  · intro c z hz
    rcases howns c z hz with hold | ⟨-, heq⟩
    · obtain ⟨hlt, hok⟩ := h.own c z hold
      exact ⟨by omega, hok⟩
    · rw [heq, hbuffer]
      exact ⟨Nat.lt_succ_self n, hsized⟩
  · intro c c' z z' hz hz' heq
    rcases howns c z hz with hold | ⟨hc, hzx⟩
    · rcases howns c' z' hz' with hold' | ⟨-, hzx'⟩
      · exact h.apart c c' z z' hold hold' heq
      · have hlt := (h.own c z hold).1
        rw [hzx', hbuffer] at heq
        omega
    · rcases howns c' z' hz' with hold' | ⟨hc', -⟩
      · have hlt := (h.own c' z' hold').1
        rw [hzx, hbuffer] at heq
        omega
      · rw [hc, hc']
  · intro a S ha
    obtain ⟨roster, hsorted, hmem, hturn, hat⟩ := h.rosters a S ha
    refine ⟨roster, hsorted, ?_, ?_, hat⟩
    · intro c
      simp only [hon]
      exact hmem c
    · intro k c hk
      rw [hon]
      exact hturn k c hk

/-- `alloc_idx % count`, behind `k` coroutines. -/
theorem turn_index (S : CoShareStack) (k : Nat) :
    ((S.alloc_idx + BitVec.ofNat 32 k).umod S.count).toNat = S.turn k := by
  unfold CoShareStack.turn
  rw [BitVec.umod_eq, BitVec.toNat_umod, BitVec.toNat_add, BitVec.toNat_ofNat, Nat.add_mod_mod]

/-- The turn is one of the stacks. -/
theorem turn_lt {S : CoShareStack} (h : S.count ≠ 0) (k : Nat) : S.turn k < S.count.toNat := by
  refine Nat.mod_lt _ (Nat.pos_of_ne_zero ?_)
  intro hzero
  exact h (BitVec.eq_of_toNat_eq hzero)

/-- The next coroutine in turn. -/
theorem Roster.snoc {co a : Nat} {S : CoShareStack} {roster : List Nat} (h : Roster s a S roster)
    (hcount : S.count ≠ 0) (hnewest : ∀ c ∈ roster, c < co)
    (hon : ∀ z c, t.OnStack z c ↔ s.OnStack z c ∨ c = co ∧ z = S.stack_array (S.turn roster.length))
    (hshare : t.share a =
      some { S with alloc_idx := S.alloc_idx + BitVec.ofNat 32 roster.length + 1 }) :
    Roster t a S (roster ++ [co]) := by
  refine ⟨?_, ?_, ?_, ?_⟩
  · rw [List.pairwise_append]
    refine ⟨h.sorted, List.pairwise_singleton _ _, ?_⟩
    intro c hc c' hc'
    rw [List.mem_singleton.mp hc']
    exact hnewest c hc
  · intro c
    rw [List.mem_append, List.mem_singleton, h.mem]
    constructor
    · rintro (⟨i, hi, hold⟩ | hc)
      · exact ⟨i, hi, (hon _ c).mpr (Or.inl hold)⟩
      · exact ⟨S.turn roster.length, turn_lt hcount _, (hon _ c).mpr (Or.inr ⟨hc, rfl⟩)⟩
    · rintro ⟨i, hi, hnow⟩
      rcases (hon _ c).mp hnow with hold | ⟨hc, -⟩
      · exact Or.inl ⟨i, hi, hold⟩
      · exact Or.inr hc
  · intro k c hk
    by_cases hlast : k < roster.length
    · rw [List.getElem?_append_left hlast] at hk
      exact (hon _ c).mpr (Or.inl (h.turn k c hk))
    · rw [List.getElem?_append_right (Nat.le_of_not_lt hlast)] at hk
      have hzero : k - roster.length = 0 := by
        by_contra hne
        rw [List.getElem?_eq_none (by show 1 ≤ _; omega)] at hk
        cases hk
      rw [hzero] at hk
      have hlen : k = roster.length := by omega
      have hc : co = c := Option.some.inj hk
      rw [hlen, ← hc]
      exact (hon _ co).mpr (Or.inr ⟨rfl, rfl⟩)
  · rw [hshare, List.length_append]
    show some { S with alloc_idx := S.alloc_idx + BitVec.ofNat 32 roster.length + 1 } =
      some { S with alloc_idx := S.alloc_idx + BitVec.ofNat 32 (roster.length + 1) }
    rw [BitVec.ofNat_add, ← BitVec.add_assoc]
    rfl

/-- A coroutine on another stack. -/
theorem Roster.other {co b : Nat} {S : CoShareStack} {z₀ : StackMember} {roster : List Nat}
    (h : Roster s b S roster)
    (hon : ∀ z c, t.OnStack z c ↔ s.OnStack z c ∨ c = co ∧ z = z₀)
    (hapart : ∀ i < S.count.toNat, S.stack_array i ≠ z₀) (hshare : t.share b = s.share b) :
    Roster t b S roster := by
  refine ⟨h.sorted, ?_, ?_, ?_⟩
  · intro c
    rw [h.mem]
    constructor
    · rintro ⟨i, hi, hold⟩
      exact ⟨i, hi, (hon _ c).mpr (Or.inl hold)⟩
    · rintro ⟨i, hi, hnow⟩
      rcases (hon _ c).mp hnow with hold | ⟨-, heq⟩
      · exact ⟨i, hi, hold⟩
      · exact absurd heq (hapart i hi)
  · intro k c hk
    exact (hon _ c).mpr (Or.inl (h.turn k c hk))
  · rw [hshare]
    exact h.share

/-- **On a shared stack**: the next one in turn. -/
theorem Stacks.createShared {co a : Nat} {y : ThreadEntity} {cur : CoShareStack}
    (hdistinct : StacksApart share) (h : Stacks share n s) (hco : Newest co n s)
    (hcur : s.share a = some cur) (hcount : cur.count ≠ 0) (hy : y.IsShareStack = true)
    (hx : y.Csm = some (cur.stack_array (cur.alloc_idx.umod cur.count).toNat)) :
    Stacks share n ((s.setShare a { cur with alloc_idx := cur.alloc_idx + 1 }).setEntity co y) := by
  obtain ⟨S, hS⟩ : ∃ S, share a = some S := by
    cases hS : share a with
    | none =>
        rw [h.none a hS] at hcur
        cases hcur
    | some S => exact ⟨S, rfl⟩
  obtain ⟨roster, hroster⟩ := h.rosters a S hS
  rw [hroster.share] at hcur
  have hcur' := (Option.some.inj hcur).symm
  rw [hcur'] at hcount hx ⊢
  have hcount' : S.count ≠ 0 := hcount
  have hturn := turn_index S roster.length
  have hx' : y.Csm = some (S.stack_array (S.turn roster.length)) := by
    rw [hx, ← hturn]
  have hlt := turn_lt hcount' roster.length
  -- `u` is the state behind the creation; only `co` and the counter of `a` are new in it
  generalize hu : (s.setShare a { S with
    alloc_idx := S.alloc_idx + BitVec.ofNat 32 roster.length + 1 }).setEntity co y = u
  have hstack : ∀ c, c ≠ co → u.stack c = s.stack c := by
    intro c hc
    rw [← hu, stack_created, if_neg hc]
    rfl
  have hnew : u.stack co = some (true, some (S.stack_array (S.turn roster.length))) := by
    rw [← hu, stack_created, if_pos rfl, hy, hx']
  have hon : ∀ z c, u.OnStack z c ↔
      s.OnStack z c ∨ c = co ∧ z = S.stack_array (S.turn roster.length) := by
    intro z c
    unfold ThreadState.OnStack
    by_cases hc : c = co
    · rw [hc, hnew, hco.none]
      simp [eq_comm]
    · rw [hstack c hc]
      simp [hc]
  have howns : ∀ c z, u.Owns c z → s.Owns c z := by
    intro c z hz
    unfold ThreadState.Owns at hz ⊢
    by_cases hc : c = co
    · rw [hc, hnew] at hz
      cases hz
    · rw [hstack c hc] at hz
      exact hz
  have hshare : ∀ b, b ≠ a → u.share b = s.share b := by
    intro b hb
    rw [← hu]
    exact Function.update_of_ne hb _ _
  have hat : u.share a =
      some { S with alloc_idx := S.alloc_idx + BitVec.ofNat 32 roster.length + 1 } := by
    rw [← hu]
    exact Function.update_self _ _ _
  refine ⟨?_, ?_, ?_, ?_, ?_, ?_⟩
  · intro c hc
    have hbelow := hco.1
    rw [hstack c (by omega)]
    exact h.fresh c hc
  · intro c b z hz
    by_cases hc : c = co
    · rw [hc, hnew] at hz
      rw [← (Prod.mk.inj (Option.some.inj hz)).2]
      exact Option.some_ne_none _
    · rw [hstack c hc] at hz
      exact h.given c b z hz
  · intro c z hz
    exact h.own c z (howns c z hz)
  · intro c c' z z' hz hz'
    exact h.apart c c' z z' (howns c z hz) (howns c' z' hz')
  · intro b hb
    have hne : b ≠ a := by
      intro heq
      rw [heq, hS] at hb
      cases hb
    rw [hshare b hne]
    exact h.none b hb
  -- the roster of `a` grows by `co`; another one has no stack in common with `a`
  · intro b S' hS'
    by_cases hb : b = a
    · rw [hb, hS] at hS'
      rw [hb, ← Option.some.inj hS']
      refine ⟨roster ++ [co], hroster.snoc hcount' ?_ hon hat⟩
      intro c hc
      obtain ⟨i, -, hi⟩ := (hroster.mem c).mp hc
      refine hco.2 c ?_
      rw [show s.stack c = _ from hi]
      exact Option.some_ne_none _
    · obtain ⟨roster', hroster'⟩ := h.rosters b S' hS'
      refine ⟨roster', hroster'.other hon ?_ (hshare b hb)⟩
      intro i hi heq
      exact hb (hdistinct b a S' S i _ hS' hS hi hlt heq).1

/-! ## §4. The functions. -/

/-- No stack is moved by an assignment to the environment, ... -/
theorem updateEnv_keeps (e : Option Nat) (f : CoRountinueEnv → CoRountinueEnv) :
    Keeps (Stacks share) (updateEnv e f) := by
  refine .bind Keeps.load fun x => .change ?_
  intro n s h
  exact h.same (Nat.le_refl n) rfl rfl

/-- ... to its `Co_Epoll`, ... -/
theorem updateEpoll_keeps (e : Option Nat) (f : CoEpoll → CoEpoll) :
    Keeps (Stacks share) (updateEpoll e f) :=
  .bind Keeps.load fun _ => updateEnv_keeps e _

/-- ... or to a field of an entity other than those two. -/
theorem updateEntity_keeps (co : Nat) {f : ThreadEntity → ThreadEntity}
    (hf : ∀ x, ((f x).IsShareStack, (f x).Csm) = (x.IsShareStack, x.Csm)) :
    Keeps (Stacks share) (updateEntity co f) := by
  refine .bind (Q := fun x n s => Stacks share n s ∧ s.entity co = some x)
    (.load fun _ _ _ h hx => ⟨h, hx⟩) fun x => .change ?_
  intro n s ⟨h, hx⟩
  exact h.same (Nat.le_refl n) (stack_setEntity hx (hf x)) rfl

/-- The deleter leaves the entities where they are. -/
theorem freeCoRountinueEnv_keeps (e : Option Nat) :
    Keeps (Stacks share) (freeCoRountinueEnv e) := by
  cases e with
  | none => exact .pure fun _ _ h => h
  | some e =>
      refine .bind Keeps.load fun _ =>
        .bind Keeps.load fun _ => .change ?_
      intro n s h
      exact h.same (Nat.le_refl n) rfl rfl

theorem resetDelete_keeps (e : Option Nat) : Keeps (Stacks share) (resetDelete e) := by
  refine .bind Keeps.load fun old =>
    .bind (Q := fun _ => Stacks share) (.change ?_) fun _ => freeCoRountinueEnv_keeps old
  intro n s h
  exact h.same (Nat.le_refl n) rfl rfl

theorem new_keeps : Keeps (Stacks share) (Alloc.new memory) :=
  .new (fun _ _ h => h.later) fun _ _ h => h.later

theorem news_keeps (count : Nat) : Keeps (Stacks share) (Alloc.news memory count) :=
  Keeps.news (fun _ _ h => h.later) (fun _ _ h => h) count

/-- The state in which the entity is to be written. -/
def Creating (share : Nat → Option CoShareStack) (shared : Bool) (co : Nat) (csm : StackMember)
    (n : Nat) (s : ThreadState) : Prop :=
  ∀ y : ThreadEntity, y.IsShareStack = shared → y.Csm = some csm → Stacks share n (s.setEntity co y)

/-- **A stack is chosen.** -/
theorem chooseStack_yields (hdistinct : StacksApart share) (attr : CoAttribute) (co : Nat) :
    Yields (fun n s => Stacks share n s ∧ Newest co n s) (chooseStack memory attr)
      (Creating share attr.shareStack.isSome co) (Stacks share) := by
  unfold chooseStack
  cases attr.shareStack with
  | none =>
      refine .bind (Q := fun _ n s => Stacks share n s ∧ Newest co n s) (.new ?_ ?_) fun _ =>
        .bind (Q := fun buffer n s => n = buffer + 1 ∧ Stacks share buffer s ∧ Newest co buffer s)
          (.new ?_ ?_) fun buffer => .pure ?_
      · rintro n s ⟨h, hco⟩
        exact ⟨h.later, Nat.lt_succ_of_lt hco.1, hco.2⟩
      · intro n s h
        exact h.1.later
      · intro n s h
        exact ⟨rfl, h⟩
      · intro n s h
        exact h.1.later
      · rintro n s ⟨rfl, h, hco⟩ y hy hx
        exact h.createOwn hco hy hx rfl (alignedStackSize_sized _)
  | some a =>
      refine .bind (Q := fun cur n s => (Stacks share n s ∧ Newest co n s) ∧ s.share a = some cur)
        (.load fun _ _ _ h hcur => ⟨h, hcur⟩) fun cur =>
        .bind (Q := fun index n s => ((Stacks share n s ∧ Newest co n s) ∧ s.share a = some cur) ∧
          cur.count ≠ 0 ∧ index = cur.alloc_idx.umod cur.count) (.load ?_) fun index =>
        .bind (Q := fun _ => Creating share true co (cur.stack_array index.toNat)) (.change ?_)
          fun _ => .pure fun _ _ h => h
      · intro n s index h hindex
        by_cases hcount : cur.count = 0
        · rw [if_pos hcount] at hindex
          cases hindex
        · rw [if_neg hcount] at hindex
          exact ⟨h, hcount, (Option.some.inj hindex).symm⟩
      · rintro n s ⟨⟨⟨h, hco⟩, hcur⟩, hcount, rfl⟩ y hy hx
        exact h.createShared hdistinct hco hcur hcount hy hx

/-- **A coroutine is created.** -/
theorem creatAndAlloction_keeps (hdistinct : StacksApart share) (env : Option Nat)
    (attr : Option CoAttribute) (fn : CoRealFun) :
    Keeps (Stacks share) (creatAndAlloction memory env attr fn) := by
  refine .bind (Q := fun co n s => Stacks share n s ∧ Newest co n s) (.new ?_ ?_) fun co =>
    .bind (Q := fun _ n s => Stacks share n s ∧ Newest co n s) (Keeps.news ?_ ?_ _) fun _ =>
    .bind (chooseStack_yields hdistinct _ co) fun csm =>
    .bind (Q := fun _ => Stacks share) (.change ?_) fun _ => .pure fun _ _ h => h
  · intro n s h
    refine ⟨h.later, Nat.lt_succ_self n, ?_⟩
    intro c hc
    by_contra hge
    exact hc (h.fresh c (by omega))
  · intro n s h
    exact h.later
  · rintro n s ⟨h, hco⟩
    exact ⟨h.later, Nat.lt_succ_of_lt hco.1, hco.2⟩
  · intro n s h
    exact h.1
  · intro n s h
    exact h _ rfl rfl

/-- The main coroutine gets a stack of its own ... -/
theorem fillEnv_keeps (hdistinct : StacksApart share) (temp : Option Nat) :
    Keeps (Stacks share) (fillEnv memory temp) := by
  have hepoll : Keeps (Stacks share) (newCoEpoll memory) :=
    .bind new_keeps fun _ => .bind new_keeps fun _ => .bind (news_keeps _) fun _ =>
      .pure fun _ _ h => h
  exact .bind (creatAndAlloction_keeps hdistinct temp none .null) fun main =>
    .bind (updateEntity_keeps main fun _ => rfl) fun _ => .bind (updateEnv_keeps temp _) fun _ =>
    .bind (updateEntity_keeps main fun _ => rfl) fun _ => .bind (updateEnv_keeps temp _) fun _ =>
    .bind hepoll fun _ => .bind (updateEnv_keeps temp _) fun _ =>
    .bind new_keeps fun _ => .bind (updateEpoll_keeps temp _) fun _ =>
    .bind new_keeps fun _ => .bind (updateEpoll_keeps temp _) fun _ =>
    .bind new_keeps fun _ => updateEpoll_keeps temp _

/-- ... and is the only one that `init_thisThread_Env` makes. -/
theorem initThisThreadEnv_keeps (hdistinct : StacksApart share) :
    Keeps (Stacks share) (initThisThreadEnv memory) := by
  refine .bind (resetDelete_keeps none) fun _ => .bind new_keeps fun e =>
    .bind (Q := fun _ => Stacks share) (.change ?_) fun _ => .bind (resetDelete_keeps _) fun _ =>
    .bind (updateEnv_keeps _ _) fun _ => fillEnv_keeps hdistinct (some e)
  intro n s h
  exact h.same (Nat.le_refl n) rfl rfl

/-- Whether or not there is an environment already. -/
theorem ensureEnv_keeps (hdistinct : StacksApart share) :
    Keeps (Stacks share) (ensureEnv memory) := by
  refine .bind Keeps.load fun e => ?_
  by_cases he : e = none
  · rw [if_pos he]
    exact .bind (initThisThreadEnv_keeps hdistinct) fun _ => Keeps.load
  · rw [if_neg he]
    exact Keeps.load

/-- A switch gives nobody another stack. -/
theorem threadResume_keeps (co : Nat) : Keeps (Stacks share) (threadResume co) := by
  refine .bind Keeps.load fun x => .bind Keeps.load fun env => .bind Keeps.load fun current => ?_
  refine .bind (updateEntity_keeps co fun _ => rfl) ?_
  intro _
  generalize env.slot env.Co_ESP = slot
  exact .bind Keeps.load fun _ => .bind (updateEnv_keeps x.env _) fun _ =>
    .bind Keeps.load fun _ => .pure fun _ _ h => h

theorem threadYeild_keeps : Keeps (Stacks share) threadYeild :=
  .bind Keeps.load fun _ => .bind Keeps.load fun _ => .bind Keeps.load fun _ =>
    .bind Keeps.load fun _ => .bind (updateEnv_keeps _ _) fun _ => .bind Keeps.load fun _ =>
    .bind Keeps.load fun _ => .pure fun _ _ h => h

/-- **One call.** -/
theorem ThreadCall.keeps (hdistinct : StacksApart share) (a : ThreadCall) :
    Keeps (Stacks share) (a.run memory) := by
  cases a with
  | Co_Create attr fn =>
      have hbody : Keeps (Stacks share) (coCreate memory attr fn) :=
        .catching (.bind (ensureEnv_keeps hdistinct) fun env => .bind (news_keeps _) fun _ =>
          .bind (creatAndAlloction_keeps hdistinct env attr fn) fun _ => .pure fun _ _ h => h)
      exact .bind hbody fun _ => .pure fun _ _ h => h
  | GetCurrentCoEpoll =>
      have hbody : Keeps (Stacks share) (getCurrentCoEpoll memory) :=
        .bind (ensureEnv_keeps hdistinct) fun _ => .bind Keeps.load fun _ => .pure fun _ _ h => h
      exact .bind hbody fun _ => .pure fun _ _ h => h
  | GetCurrentCoEntity =>
      have hbody : Keeps (Stacks share) getCurrentCoEntity := by
        refine .bind Keeps.load fun e => ?_
        by_cases he : e = none
        · rw [if_pos he]
          exact .pure fun _ _ h => h
        · rw [if_neg he]
          exact .bind Keeps.load fun _ => Keeps.load
      exact .bind hbody fun _ => .pure fun _ _ h => h
  | Co_resume co => exact threadResume_keeps co
  | Co_yeild => exact threadYeild_keeps

/-! ## §5. Runs. -/

open ThreadState

/-- At the start there are no coroutines. -/
theorem Stacks.start (share : Nat → Option CoShareStack) :
    Stacks share (ThreadState.start share).1 (ThreadState.start share).2 := by
  refine ⟨fun _ _ => rfl, ?_, ?_, ?_, fun _ ha => ha, ?_⟩
  · intro co b c h
    cases h
  · intro co m h
    cases h
  · intro co co' m m' h
    cases h
  · intro a S ha
    refine ⟨[], List.Pairwise.nil, ?_, ?_, ?_⟩
    · intro co
      constructor
      · intro hco
        cases hco
      · rintro ⟨i, -, h⟩
        cases h
    · intro k co hk
      cases hk
    · have hzero : S.alloc_idx + BitVec.ofNat 32 0 = S.alloc_idx := BitVec.add_zero _
      show share a = some { S with alloc_idx := S.alloc_idx + BitVec.ofNat 32 0 }
      rw [ha, hzero]

/-- The invariant, in every run. -/
theorem Stacks.of_run {u : Nat × ThreadState} {as : List ThreadCall} (hdistinct : StacksApart share)
    (h : Run (Step memory) (ThreadState.start share) as u) : Stacks share u.1 u.2 := by
  refine h.invariant (I := fun s => Stacks share s.1 s.2) ?_ (.start share)
  intro s a t hs ha
  exact (a.keeps hdistinct).ends ha.2 hs

/-- **The stacks of the coroutines**, in every run of a thread.  One of its own has 4KB, or a multiple of
them up to 8MB, and no other coroutine with a stack of its own has it.  On a `Co_ShareStack` the `k`-th
coroutine that is created runs on the stack `k % count`, from the first `alloc_idx` on. -/
theorem stacks_assigned {u : Nat × ThreadState} {as : List ThreadCall} (hdistinct : StacksApart share)
    (h : Run (Step memory) (ThreadState.start share) as u) :
    (∀ co x, u.2.entity co = some x → x.IsShareStack = false →
      ∃ m, x.Csm = some m ∧ Sized m.stack_size ∧
        ∀ co' m', u.2.Owns co' m' → m'.stack_buffer = m.stack_buffer → co' = co) ∧
    ∀ a S, share a = some S → ∃ roster : List Nat, roster.Pairwise (· < ·) ∧
      (∀ co, co ∈ roster ↔ ∃ i < S.count.toNat, u.2.OnStack (S.stack_array i) co) ∧
      ∀ k co, roster[k]? = some co → u.2.OnStack (S.stack_array (S.turn k)) co := by
  have hinv := Stacks.of_run hdistinct h
  refine ⟨?_, ?_⟩
  · intro co x hx hown
    have hstack : u.2.stack co = some (false, x.Csm) := by
      unfold ThreadState.stack
      rw [hx, ← hown]
      rfl
    obtain ⟨m, hm⟩ := Option.ne_none_iff_exists'.mp (hinv.given co false x.Csm hstack)
    have howns : u.2.Owns co m := by
      rw [hm] at hstack
      exact hstack
    refine ⟨m, hm, (hinv.own co m howns).2, ?_⟩
    intro co' m' howns' heq
    exact hinv.apart co' co m' m howns' howns heq
  · intro a S ha
    obtain ⟨roster, hroster⟩ := hinv.rosters a S ha
    exact ⟨roster, hroster.sorted, hroster.mem, hroster.turn⟩

/-! ### Two coroutines on two stacks. -/

/-- A `Co_ShareStack` at address 7. -/
def twoStacks (a : Nat) : Option CoShareStack :=
  if a = 7 then some ⟨0, 4096, 2, fun i => ⟨none, 4096, i⟩⟩ else none

theorem twoStacks_apart : StacksApart twoStacks := by
  intro a b S S' i j ha hb _ _ heq
  unfold twoStacks at ha hb
  by_cases ha7 : a = 7
  · by_cases hb7 : b = 7
    · rw [if_pos ha7] at ha
      rw [if_pos hb7] at hb
      rw [← Option.some.inj ha, ← Option.some.inj hb] at heq
      exact ⟨ha7.trans hb7.symm, congrArg StackMember.stack_buffer heq⟩
    · rw [if_neg hb7] at hb
      cases hb
  · rw [if_neg ha7] at ha
    cases ha

/-- The main coroutine gets no memory; the next two are the first ones on the `Co_ShareStack`. -/
def twoCreated : List ThreadCall :=
  [.Co_Create none .null, .Co_Create (some ⟨0, some 7⟩) .null, .Co_Create (some ⟨0, some 7⟩) .null]

/-- Two coroutines with stacks of a `Co_ShareStack`, and a request that is refused in between. -/
theorem twoCreated_run : ∃ u : Nat × ThreadState,
    Run (Step fun k => k != 1) (ThreadState.start twoStacks) twoCreated u ∧ u.1 ≤ 2 ^ 32 := by
  have hmain : (ThreadState.start twoStacks).2.Legal (.Co_Create none .null) := by
    intro m hm
    cases hm
  refine ⟨_, .cons ⟨hmain, rfl⟩ (.cons ⟨?_, rfl⟩ (.cons ⟨?_, rfl⟩ (.nil _))), ?_⟩
  · intro m hm
    rw [← Option.some.inj hm]
    exact ⟨_, rfl, by decide⟩
  · intro m hm
    rw [← Option.some.inj hm]
    exact ⟨_, rfl, by decide⟩
  · decide

/-- They are on its two stacks. -/
theorem stacks_assigned_two : ∃ (u : Nat × ThreadState) (S : CoShareStack) (roster : List Nat),
    Run (Step fun k => k != 1) (ThreadState.start twoStacks) twoCreated u ∧
    twoStacks 7 = some S ∧ roster.Pairwise (· < ·) ∧
    (∀ co, co ∈ roster ↔ ∃ i < S.count.toNat, u.2.OnStack (S.stack_array i) co) ∧
    ∀ k co, roster[k]? = some co → u.2.OnStack (S.stack_array (S.turn k)) co := by
  obtain ⟨u, hrun, -⟩ := twoCreated_run
  obtain ⟨roster, hroster⟩ := (stacks_assigned twoStacks_apart hrun).2 7 _ rfl
  exact ⟨u, _, roster, hrun, rfl, hroster⟩

/-! ## §6. The stacks of a `Co_ShareStack` are used evenly. -/

section Even

variable {S : CoShareStack} {a : Nat} {roster : List Nat}

theorem Roster.nodup (h : Roster s a S roster) : roster.Nodup :=
  h.sorted.imp fun hlt => Nat.ne_of_lt hlt

/-- Each of them made a request for memory. -/
theorem Roster.length_le (h : Roster s a S roster) (hinv : Stacks share n s) : roster.length ≤ n := by
  have hsub : roster.toFinset ⊆ Finset.range n := by
    intro co hco
    obtain ⟨i, -, hi⟩ := (h.mem co).mp (List.mem_toFinset.mp hco)
    rw [Finset.mem_range]
    by_contra hge
    have hnone := hinv.fresh co (Nat.le_of_not_lt hge)
    rw [show s.stack co = _ from hi] at hnone
    cases hnone
  have hcard := Finset.card_le_card hsub
  rw [List.toFinset_card_of_nodup h.nodup, Finset.card_range] at hcard
  exact hcard

/-- From the first stack on, and before `alloc_idx` wraps around. -/
theorem turn_eq (hfirst : S.alloc_idx = 0) {k : Nat} (hk : k < 2 ^ 32) :
    S.turn k = k % S.count.toNat := by
  unfold CoShareStack.turn
  rw [hfirst]
  show (0 + k) % 2 ^ 32 % S.count.toNat = _
  rw [Nat.zero_add, Nat.mod_eq_of_lt hk]

/-- **The coroutines on one of the stacks** are those whose place in the order leaves its remainder. -/
theorem Roster.onStack_iff (h : Roster s a S roster) (hdistinct : StacksApart share)
    (ha : share a = some S) (hcount : S.count ≠ 0) (hfirst : S.alloc_idx = 0)
    (hlen : roster.length ≤ 2 ^ 32) {i : Nat} (hi : i < S.count.toNat) (co : Nat) :
    s.OnStack (S.stack_array i) co ↔
      ∃ k, roster[k]? = some co ∧ k < roster.length ∧ k ≡ i [MOD S.count.toNat] := by
  constructor
  · intro hon
    obtain ⟨k, hk⟩ := List.mem_iff_getElem?.mp ((h.mem co).mpr ⟨i, hi, hon⟩)
    obtain ⟨hlt, -⟩ := List.getElem?_eq_some_iff.mp hk
    have hturn : some (true, some (S.stack_array (S.turn k))) = some (true, some (S.stack_array i)) :=
      (h.turn k co hk).symm.trans hon
    have hsame : S.stack_array (S.turn k) = S.stack_array i :=
      Option.some.inj (Prod.mk.inj (Option.some.inj hturn)).2
    have heq := (hdistinct a a S S _ i ha ha (turn_lt hcount k) hi hsame).2
    rw [turn_eq hfirst (by omega)] at heq
    refine ⟨k, hk, hlt, ?_⟩
    show k % S.count.toNat = i % S.count.toNat
    rw [heq, Nat.mod_eq_of_lt hi]
  · rintro ⟨k, hk, hlt, hmod⟩
    have hon := h.turn k co hk
    rw [turn_eq hfirst (by omega), show k % S.count.toNat = i % S.count.toNat from hmod,
      Nat.mod_eq_of_lt hi] at hon
    exact hon

/-- **How many coroutines are on a stack**: as many as the roster has places with its turn. -/
theorem Roster.ncard (h : Roster s a S roster) (hdistinct : StacksApart share)
    (ha : share a = some S) (hcount : S.count ≠ 0) (hfirst : S.alloc_idx = 0)
    (hlen : roster.length ≤ 2 ^ 32) {i : Nat} (hi : i < S.count.toNat) :
    {co | s.OnStack (S.stack_array i) co}.ncard = roster.length.count (· ≡ i [MOD S.count.toNat]) := by
  have hget : ∀ k (hk : k < roster.length), roster.getD k 0 = roster[k] := by
    intro k hk
    rw [List.getD_eq_getElem?_getD, List.getElem?_eq_getElem hk]
    rfl
  have himage : {co | s.OnStack (S.stack_array i) co} =
      (fun k => roster.getD k 0) '' {k | k < roster.length ∧ k ≡ i [MOD S.count.toNat]} := by
    ext co
    show s.OnStack (S.stack_array i) co ↔ _
    rw [h.onStack_iff hdistinct ha hcount hfirst hlen hi]
    constructor
    · rintro ⟨k, hk, hplace⟩
      refine ⟨k, hplace, ?_⟩
      show roster.getD k 0 = co
      rw [List.getD_eq_getElem?_getD, hk]
      rfl
    · rintro ⟨k, hplace, hk⟩
      refine ⟨k, ?_, hplace⟩
      rw [← hk, List.getElem?_eq_getElem hplace.1]
      exact congrArg some (hget k hplace.1).symm
  have hinj : Set.InjOn (fun k => roster.getD k 0)
      {k | k < roster.length ∧ k ≡ i [MOD S.count.toNat]} := by
    intro k hk l hl heq
    have heq' : roster.getD k 0 = roster.getD l 0 := heq
    rw [hget k hk.1, hget l hl.1] at heq'
    exact (h.nodup.getElem_inj_iff).mp heq'
  rw [himage, hinj.ncard_image, Nat.count_eq_card_filter_range,
    ← Set.ncard_coe_finset]
  congr 1
  ext k
  simp

end Even

/-- **The stacks of a `Co_ShareStack` are used evenly**: in every run of a thread that has made no more
than `2 ^ 32` requests for memory, the numbers of coroutines on two of them differ by one at most. -/
theorem shared_stacks_balanced {u : Nat × ThreadState} {as : List ThreadCall}
    (hdistinct : StacksApart share) (h : Run (Step memory) (ThreadState.start share) as u)
    (hmany : u.1 ≤ 2 ^ 32) {a : Nat} {S : CoShareStack} (ha : share a = some S)
    (hfirst : S.alloc_idx = 0) {i j : Nat} (hi : i < S.count.toNat) (hj : j < S.count.toNat) :
    {co | u.2.OnStack (S.stack_array i) co}.ncard ≤
      {co | u.2.OnStack (S.stack_array j) co}.ncard + 1 := by
  have hinv := Stacks.of_run hdistinct h
  obtain ⟨roster, hroster⟩ := hinv.rosters a S ha
  have hcount : S.count ≠ 0 := by
    intro hzero
    rw [hzero] at hi
    exact absurd hi (Nat.not_lt_zero i)
  have hlen := Nat.le_trans (hroster.length_le hinv) hmany
  have hpos : 0 < S.count.toNat := by omega
  rw [hroster.ncard hdistinct ha hcount hfirst hlen hi,
    hroster.ncard hdistinct ha hcount hfirst hlen hj, Nat.count_modEq_card _ hpos,
    Nat.count_modEq_card _ hpos]
  -- the same whole turns, and one coroutine more or less
  split
  · omega
  · omega

/-- Two coroutines on two stacks. -/
theorem shared_stacks_balanced_two : ∃ (u : Nat × ThreadState) (S : CoShareStack),
    Run (Step fun k => k != 1) (ThreadState.start twoStacks) twoCreated u ∧
    twoStacks 7 = some S ∧
    {co | u.2.OnStack (S.stack_array 0) co}.ncard ≤
      {co | u.2.OnStack (S.stack_array 1) co}.ncard + 1 := by
  obtain ⟨u, hrun, hmany⟩ := twoCreated_run
  have hstacks : twoStacks 7 = some ⟨0, 4096, 2, fun i => ⟨none, 4096, i⟩⟩ := rfl
  exact ⟨u, _, hrun, hstacks,
    shared_stacks_balanced twoStacks_apart hrun hmany hstacks rfl (by decide) (by decide)⟩

end RocketCo.CoRoutine
