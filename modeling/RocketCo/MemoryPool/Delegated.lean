/-
  RocketCo.MemoryPool.Delegated — the blocks `RocketCoMalloc` takes from the system's `malloc`.

  A request above `ThirdSlot` is delegated to `malloc`, and `RocketCoFree` is meant to hand such a
  pointer to `free`: when `lower_bound` finds no interval for it.  But the constructor puts the pair
  `(LONG_MAX, LONG_MAX)` into the set, no operation removes a pair, and no address lies above it.  So
  `lower_bound` always finds something, `free` is never called, and the pointer is treated as a block
  of the pool.

  Main results:
    • `Traces.sentinel` — the pair stays in the set, whatever the program does,
    • `delegated_not_freed` — no delegated pointer ever reaches `free`.
-/
import Mathlib.Data.List.TakeWhile
import RocketCo.MemoryPool.Region

namespace RocketCo.MemoryPool

open RocketCo.Lib

/-! ## §1. The calls of `free`. -/

/-- `RocketCoFree` with the pointers it passes to the system's `free`: it does so in its first
branch, where `lower_bound` is `end()`, and nowhere else. -/
def rocketCoFreeCalls (st : RocketCoAlloctor) (ptr len : Nat) :
    Option (RocketCoAlloctor × List Nat) :=
  match findInterval st.pointerEffectiveInterval ptr with
  | none => some (st, [ptr])
  | some _ =>
      match rocketCoFree st ptr len with
      | none => none
      | some st => some (st, [])

/-- The pool is the one `RocketCoFree` leaves. -/
theorem rocketCoFreeCalls_fst (st : RocketCoAlloctor) (ptr len : Nat) :
    (rocketCoFreeCalls st ptr len).map Prod.fst = rocketCoFree st ptr len := by
  unfold rocketCoFreeCalls
  cases hfind : findInterval st.pointerEffectiveInterval ptr with
  | none =>
      unfold rocketCoFree
      simp only [hfind, Option.map_some]
  | some item =>
      cases hfree : rocketCoFree st ptr len with
      | none => rfl
      | some st' => rfl

/-- A delegated pointer goes to `free` exactly once, and the pool stays as it is. -/
def GoesToFree (st : RocketCoAlloctor) (ptr len : Nat) : Prop :=
  ∃ st', rocketCoFreeCalls st ptr len = some (st', [ptr]) ∧ st'.freeList = st.freeList ∧
    st'.markAllocatedBlock = st.markAllocatedBlock ∧
    ∀ iv, IsChunk st.pointerEffectiveInterval iv → ∀ x, iv.1 ≤ x → x < iv.2 → st'.mem x = st.mem x

/-! ## §2. No pair leaves the set. -/

section Pairs

variable {st st' : RocketCoAlloctor}

theorem useLeftover_pairs {remaining : Nat} (h : useLeftover st remaining = some st') :
    st'.pointerEffectiveInterval = st.pointerEffectiveInterval := by
  unfold useLeftover at h
  simp only at h
  split at h
  · cases h
  · next st₁ hfirst =>
      rw [← (useRemainingSpace_edited hfirst).pairs]
      split at h
      · rw [← Option.some.inj h]
      · exact (useRemainingSpace_edited h).pairs

/-- **`ChunkAlloc` only adds pairs**, at every level of its recursion. -/
theorem chunkAlloc_pairs : ∀ {fuel : Nat} {malloc : Nat → Option Nat} {st st' : RocketCoAlloctor}
    {length number chunk k : Nat}, chunkAlloc fuel malloc st length number = some (st', chunk, k) →
    st.pointerEffectiveInterval ⊆ st'.pointerEffectiveInterval := by
  intro fuel
  -- each level emplaces at most one pair and hands its set to the next
  induction fuel with
  | zero =>
      intro malloc st st' length number chunk k h
      cases h
  | succ fuel ih =>
      intro malloc st st' length number chunk k h
      unfold chunkAlloc at h
      simp only at h
      split at h
      · rw [← (Prod.mk.inj (Option.some.inj h)).1]
        exact List.Subset.refl _
      split at h
      · rw [← (Prod.mk.inj (Option.some.inj h)).1]
        exact List.Subset.refl _
      split at h
      · cases h
      next st₁ hleft =>
        have hrest : st₁.pointerEffectiveInterval = st.pointerEffectiveInterval := by
          split at hleft
          · exact useLeftover_pairs hleft
          · rw [← Option.some.inj hleft]
        -- the pair of the new chunk is emplaced beside the others
        have hadd : ∀ iv, st.pointerEffectiveInterval ⊆ emplace iv st₁.pointerEffectiveInterval := by
          intro iv x hx
          rw [mem_emplace, hrest]
          exact Or.inr hx
        split at h
        · split at h
          · split at h
            · cases h
            · exact List.Subset.trans (hadd _) (ih h)
          · rw [← (Prod.mk.inj (Option.some.inj h)).1]
            exact hadd _
        · exact List.Subset.trans (hadd _) (ih h)

theorem refill_pairs {malloc : Nat → Option Nat} {length : Nat} {r : MallocResult}
    (h : refill malloc st length = some (st', r)) :
    st.pointerEffectiveInterval ⊆ st'.pointerEffectiveInterval := by
  unfold refill at h
  split at h
  · cases h
  next hchunk =>
    have hsub := chunkAlloc_pairs hchunk
    split at h
    · rw [← (Prod.mk.inj (Option.some.inj h)).1]
      exact hsub
    split at h
    · rw [← (Prod.mk.inj (Option.some.inj h)).1]
      exact hsub
    simp only at h
    split at h
    · cases h
    · rw [← (Prod.mk.inj (Option.some.inj h)).1]
      exact hsub

/-- **`RocketCoMalloc` only adds pairs.** -/
theorem rocketCoMalloc_pairs {malloc : Nat → Option Nat} {n : Nat} {r : MallocResult}
    (h : rocketCoMalloc malloc st n = some (st', r)) :
    st.pointerEffectiveInterval ⊆ st'.pointerEffectiveInterval := by
  unfold rocketCoMalloc at h
  split at h
  · rw [← (Prod.mk.inj (Option.some.inj h)).1]
    exact List.Subset.refl _
  simp only at h
  split at h
  · cases h
  split at h
  · exact refill_pairs h
  · rw [← (Prod.mk.inj (Option.some.inj h)).1]
    exact List.Subset.refl _

end Pairs

/-! ## §3. Whole runs. -/

/-- `malloc` answers with a null pointer or with an address a `long` can hold. -/
def Addressable : Action → Prop
  | .malloc _ answer => ∀ a ∈ answer, a ≤ longMax
  | _ => True

theorem addressable_none (n : Nat) : Addressable (.malloc n none) := by
  intro a ha
  cases ha

theorem addressable_some (n a : Nat) : a ≤ longMax ↔ Addressable (.malloc n (some a)) := by
  constructor
  · intro hle b hb
    rw [← Option.some.inj hb]
    exact hle
  · exact fun haddr => haddr a rfl

instance : ∀ a, Decidable (Addressable a)
  | .malloc n none => .isTrue (addressable_none n)
  | .malloc n (some a) => decidable_of_iff (a ≤ longMax) (addressable_some n a)
  | .free _ _ => .isTrue trivial
  | .write _ _ => .isTrue trivial

/-- One step of a program that allocates blocks of any size, and returns and writes what it likes. -/
def Traces (c : Client) (a : Action) (c' : Client) : Prop := Addressable a ∧ c.step a = some c'

/-- The pair of the constructor is in the set, and every delegated block lies below it. -/
structure SentinelInv (c : Client) : Prop where
  sentinel : (longMax, longMax) ∈ c.pool.pointerEffectiveInterval
  below : ∀ b ∈ c.out, thirdSlot < b.2 → b.1 ≤ longMax

theorem SentinelInv.start (m : Mem) : SentinelInv (Client.start m) :=
  ⟨List.mem_singleton.mpr rfl, fun b hb => by cases hb⟩

/-- A delegated request is answered by `malloc`. -/
theorem rocketCoMalloc_delegated {malloc : Nat → Option Nat} {st st' : RocketCoAlloctor} {n p : Nat}
    (hn : thirdSlot < n) (h : rocketCoMalloc malloc st n = some (st', .ret p)) :
    p = (malloc 0).getD 0 := by
  unfold rocketCoMalloc at h
  rw [if_pos hn] at h
  exact (MallocResult.ret.inj (Prod.mk.inj (Option.some.inj h)).2).symm

theorem SentinelInv.step {c c' : Client} {a : Action} (h : SentinelInv c) (ha : Traces c a c') :
    SentinelInv c' := by
  obtain ⟨haddr, hstep⟩ := ha
  cases Client.stepped hstep with
  | @malloc n answer st p hres =>
      -- a block from the pool is not large, and one from `malloc` is addressable
      refine ⟨rocketCoMalloc_pairs hres h.sentinel, ?_⟩
      intro b hb hlarge
      rcases List.mem_cons.mp hb with hnew | hold
      · rw [hnew] at hlarge ⊢
        show p ≤ longMax
        rw [rocketCoMalloc_delegated hlarge hres]
        cases answer with
        | none => exact Nat.zero_le _
        | some a => exact haddr a rfl
      · exact h.below b hold hlarge
  | badAlloc hres => exact ⟨rocketCoMalloc_pairs hres h.sentinel, h.below⟩
  | @free p n st hres =>
      refine ⟨?_, fun b hb => h.below b (List.mem_of_mem_erase hb)⟩
      show (longMax, longMax) ∈ st.pointerEffectiveInterval
      rw [rocketCoFree_pairs hres]
      exact h.sentinel
  | write x v => exact ⟨h.sentinel, h.below⟩

/-- **The pair of the constructor stays in the set.** -/
theorem Traces.sentinel {m : Mem} {as : List Action} {c : Client}
    (h : Run Traces (Client.start m) as c) : SentinelInv c := by
  refine h.invariant (I := SentinelInv) ?_ (SentinelInv.start m)
  intro c a c' hc ha
  exact hc.step ha

/-- `lower_bound` finds an interval for every address a `long` can hold. -/
theorem findInterval_ne_none {ivs : List (Nat × Nat)} {p : Nat} (hs : (longMax, longMax) ∈ ivs)
    (hp : p ≤ longMax) : findInterval ivs p ≠ none := by
  -- the pair of the constructor is not below the key, so `lower_bound` stops there at the latest
  have hkeep : ivs.dropWhile (pairLt · (p, longMax)) ≠ [] := by
    intro hempty
    have hall := List.dropWhile_eq_nil_iff.mp hempty _ hs
    unfold pairLt at hall
    simp only [decide_eq_true_eq] at hall
    omega
  unfold findInterval
  split
  · next hempty => exact absurd hempty hkeep
  · split <;> simp

/-- **`free` is never called** for such an address. -/
theorem rocketCoFreeCalls_nil {st st' : RocketCoAlloctor} {p n : Nat} {calls : List Nat}
    (hs : (longMax, longMax) ∈ st.pointerEffectiveInterval) (hp : p ≤ longMax)
    (h : rocketCoFreeCalls st p n = some (st', calls)) : calls = [] := by
  unfold rocketCoFreeCalls at h
  split at h
  · next hnone => exact absurd hnone (findInterval_ne_none hs hp)
  · split at h
    · cases h
    · exact (Prod.mk.inj (Option.some.inj h)).2.symm

/-- **No delegated pointer reaches `free`**, in any run and wherever it lies. -/
theorem delegated_not_freed {m : Mem} {as : List Action} {c : Client}
    (h : Run Traces (Client.start m) as c) {p n : Nat} (hp : (p, n) ∈ c.out) (hn : thirdSlot < n) :
    ¬ GoesToFree c.pool p n := by
  have hinv := Traces.sentinel h
  intro ⟨st', hcalls, _⟩
  -- it would have been called once
  have hnil := rocketCoFreeCalls_nil hinv.sentinel (hinv.below _ hp hn) hcalls
  exact absurd hnil (List.cons_ne_nil p [])

/-- A run found by evaluation. -/
theorem traces_of_check {c : Client} {as : List Action} {p : Client → Bool}
    (h : checkRun Client.step (fun _ a => decide (Addressable a)) c as p = true) :
    ∃ d, Run Traces c as d ∧ p d = true := by
  refine Run.of_check ?_ h
  intro c a d hok hstep
  exact ⟨of_decide_eq_true hok, hstep⟩

/-- A block above the only chunk, after an allocation from the pool. -/
theorem delegated_not_freed_above : ∃ c, Run Traces (Client.start fun _ => 0)
    [.malloc 512 (some 4096), .malloc 131073 (some 65536)] c ∧
      ¬ GoesToFree c.pool 65536 131073 := by
  have htest : checkRun Client.step (fun _ a => decide (Addressable a)) (Client.start fun _ => 0)
      [.malloc 512 (some 4096), .malloc 131073 (some 65536)]
      (fun c => decide ((65536, 131073) ∈ c.out)) = true := by decide +kernel
  obtain ⟨c, hrun, hcheck⟩ := traces_of_check htest
  exact ⟨c, hrun, delegated_not_freed hrun (of_decide_eq_true hcheck) (by decide)⟩

/-- The pool is empty, a block of 131073 bytes comes from `malloc`; returning it reads a list far
behind the last one and calls no `free`. -/
theorem not_goesToFree : ∃ c, Run Traces (Client.start fun _ => 0) [.malloc 131073 (some 65536)] c ∧
    (65536, 131073) ∈ c.out ∧ thirdSlot < 131073 ∧
    rocketCoFreeCalls c.pool 65536 131073 = none ∧ ¬ GoesToFree c.pool 65536 131073 := by
  have htest : checkRun Client.step (fun _ a => decide (Addressable a)) (Client.start fun _ => 0)
      [.malloc 131073 (some 65536)] (fun c => decide ((65536, 131073) ∈ c.out) &&
        (rocketCoFreeCalls c.pool 65536 131073).isNone) = true := by decide +kernel
  obtain ⟨c, hrun, hcheck⟩ := traces_of_check htest
  rw [Bool.and_eq_true, decide_eq_true_eq, Option.isNone_iff_eq_none] at hcheck
  refine ⟨c, hrun, hcheck.1, by decide, hcheck.2, ?_⟩
  intro ⟨st', hcalls, _⟩
  rw [hcheck.2] at hcalls
  cases hcalls

end RocketCo.MemoryPool
