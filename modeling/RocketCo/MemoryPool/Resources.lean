/-
  RocketCo.MemoryPool.Resources — what the pool gives back when it goes away.

  `ChunkAlloc` writes every answer of `malloc` down in `resource_pointers`, null pointers too, and the
  destructor frees what is written there.  Here the pool runs beside a ledger of the system's `malloc`,
  in which `free` of anything but a live pointer is a fault, a second `free` too.

  Main result: `destructor_exact` — the destructor runs without a fault, and what is live behind it are the
  blocks above `ThirdSlot`, which `RocketCoMalloc` took from `malloc` past the pool.
-/
import RocketCo.MemoryPool.Delegated

namespace RocketCo.MemoryPool

open RocketCo.Lib

/-! ## §1. The ledger. -/

/-- The system's `free`: nothing for a null pointer, and a fault for what is not live. -/
def sysFree (live : List Nat) (p : Nat) : Option (List Nat) :=
  if p = 0 then some live else if p ∈ live then some (live.erase p) else none

/-- One `free` after the other. -/
def sysFrees (live ps : List Nat) : Option (List Nat) := ps.foldlM sysFree live

/-- `~RocketCoAlloctor` -/
def RocketCoAlloctor.destructor (st : RocketCoAlloctor) (live : List Nat) : Option (List Nat) :=
  sysFrees live st.resourcePointers

/-- The pool with its clients, and what the system's `malloc` has given and not got back. -/
structure Process where
  client : Client
  live : List Nat

/-- `RocketCoMalloc` asks the system's `malloc`: for a block above `ThirdSlot`, or when the list of the
block is empty and the region too small. -/
def AsksSystem (st : RocketCoAlloctor) (n : Nat) : Prop :=
  thirdSlot < n ∨
    st.freeList (findFreeListIndex (dataAlignment n)) = 0 ∧
      ¬ dataAlignment n < st.endfree - st.startfree

instance (st : RocketCoAlloctor) (n : Nat) : Decidable (AsksSystem st n) :=
  inferInstanceAs (Decidable (_ ∨ _))

/-- One step.  `malloc` answers with a pointer that is not live, or with a null pointer; blocks of any size
are returned, also such that were never handed out, and anything is written. -/
inductive Process.Step : Process → Action → Process → Prop
  | malloc {p : Process} {c : Client} {n : Nat} {answer : Option Nat} (hn : 1 ≤ n)
      (hanswer : ∀ a ∈ answer, 0 < a ∧ a ≤ longMax ∧ a ∉ p.live)
      (hstep : p.client.step (.malloc n answer) = some c) :
      Step p (.malloc n answer)
        ⟨c, if AsksSystem p.client.pool n then answer.toList ++ p.live else p.live⟩
  | free {p : Process} {c : Client} {st : RocketCoAlloctor} {q n : Nat} {calls live : List Nat}
      (hq : q ≤ longMax) (hstep : p.client.step (.free q n) = some c)
      (hcalls : rocketCoFreeCalls p.client.pool q n = some (st, calls))
      (hlive : sysFrees p.live calls = some live) : Step p (.free q n) ⟨c, live⟩
  | write {p : Process} {c : Client} {a : Nat} {v : BitVec 8}
      (hstep : p.client.step (.write a v) = some c) : Step p (.write a v) ⟨c, p.live⟩

/-- Before the first call. -/
def Process.start (m : Mem) : Process := ⟨Client.start m, []⟩

/-- A block above `ThirdSlot` that `malloc` gave. -/
def delegatedBy : Action → List Nat
  | .malloc n answer => if thirdSlot < n then answer.toList else []
  | _ => []

/-- All of them, the last one in front. -/
def delegated (as : List Action) : List Nat := as.reverse.flatMap delegatedBy

/-! ## §2. What is freed. -/

theorem sysFrees_cons (live : List Nat) (p : Nat) (ps : List Nat) :
    sysFrees live (p :: ps) = (sysFree live p).bind fun live => sysFrees live ps := rfl

/-- **Live pointers are freed**, and the others stay. -/
theorem sysFrees_perm : ∀ {ps live rest : List Nat}, live.Perm (ps.filter (· ≠ 0) ++ rest) →
    ∃ out, sysFrees live ps = some out ∧ out.Perm rest := by
  intro ps
  induction ps with
  | nil =>
      intro live rest h
      exact ⟨live, rfl, h⟩
  | cons p ps ih =>
      intro live rest h
      rw [sysFrees_cons]
      by_cases hp : p = 0
      · rw [List.filter_cons_of_neg (by simpa using hp)] at h
        obtain ⟨out, hout, hperm⟩ := ih h
        refine ⟨out, ?_, hperm⟩
        unfold sysFree
        rw [if_pos hp]
        exact hout
      · rw [List.filter_cons_of_pos (by simpa using hp), List.cons_append] at h
        have hmem : p ∈ live := h.mem_iff.mpr List.mem_cons_self
        have hrest := h.erase p
        rw [List.erase_cons_head] at hrest
        obtain ⟨out, hout, hperm⟩ := ih hrest
        refine ⟨out, ?_, hperm⟩
        unfold sysFree
        rw [if_neg hp, if_pos hmem]
        exact hout

/-! ## §3. What is written down. -/

variable {st st' st₁ : RocketCoAlloctor} {L n : Nat} {answer : Option Nat}

/-- What works on the free lists asks the system for nothing. -/
theorem Edited.resources (h : Edited st st') : st'.resourcePointers = st.resourcePointers := by
  obtain ⟨_, _, heq⟩ := h
  subst heq
  rfl

/-- Nor does what the leftover is cut into. -/
theorem recycled_resources (h : recycled st = some st₁) :
    st₁.resourcePointers = st.resourcePointers := by
  unfold recycled useLeftover at h
  split at h
  · simp only at h
    split at h
    · cases h
    · next st₂ hfirst =>
        have hres := (useRemainingSpace_edited hfirst).resources
        rw [← hres]
        split at h
        · rw [← Option.some.inj h]
        · exact (useRemainingSpace_edited h).resources
  · rw [← Option.some.inj h]

/-- A call that has room asks nobody. -/
theorem chunkAlloc_room_resources {malloc : Nat → Option Nat} {fuel number chunk k : Nat}
    (hroom : L < st.endfree - st.startfree)
    (h : chunkAlloc (fuel + 1) malloc st L number = some (st', chunk, k)) :
    st'.resourcePointers = st.resourcePointers := by
  unfold chunkAlloc at h
  by_cases hall : L * number < st.endfree - st.startfree
  · simp only [hall, if_true] at h
    rw [← (Prod.mk.inj (Option.some.inj h)).1]
  · simp only [hall, hroom, if_true, if_false] at h
    rw [← (Prod.mk.inj (Option.some.inj h)).1]

/-- **The inner call** starts behind one question. -/
theorem nestedCall_resources {number : Nat} (h : nestedCall answer st L number = some st₁) :
    ¬ L < st.endfree - st.startfree ∧
      st₁.resourcePointers = st.resourcePointers ++ [answer.getD 0] := by
  unfold nestedCall at h
  split at h
  · cases h
  · next hroom =>
      refine ⟨fun hone => hroom (Or.inr hone), ?_⟩
      split at h
      · cases h
      · next st₂ hrec =>
          rw [← recycled_resources hrec]
          simp only at h
          split at h
          · split at h
            · split at h
              · cases h
              · rw [← Option.some.inj h]
                rfl
            · cases h
          · rw [← Option.some.inj h]
            rfl

/-- **A call of one level.** -/
theorem chunkAlloc_one_resources {malloc : Nat → Option Nat} {number chunk k : Nat}
    (hnumber : 0 < number) (h : chunkAlloc 1 malloc st L number = some (st', chunk, k)) :
    st'.resourcePointers = st.resourcePointers ++
      if L < st.endfree - st.startfree then [] else [(malloc 0).getD 0] := by
  by_cases hroom : L < st.endfree - st.startfree
  · rw [if_pos hroom, List.append_nil]
    exact chunkAlloc_room_resources hroom h
  · have hall : ¬ L * number < st.endfree - st.startfree := by
      have hle := Nat.le_mul_of_pos_right L hnumber
      omega
    rw [if_neg hroom]
    unfold chunkAlloc at h
    simp only [hall, hroom, if_false] at h
    split at h
    · cases h
    · next st₁ hrec =>
        have hsame : st₁.resourcePointers = st.resourcePointers := recycled_resources hrec
        rw [← hsame]
        split at h
        · split at h
          · split at h
            · cases h
            · cases h
          · rw [← (Prod.mk.inj (Option.some.inj h)).1]
        · cases h

/-- **`ChunkAlloc`** asks once, unless it has room. -/
theorem chunkAlloc_resources {fuel chunk k : Nat} (hs : SlotSized L) (hle : L ≤ thirdSlot)
    (h : chunkAlloc (fuel + 2) (fun _ => answer) st L refillNumber = some (st', chunk, k)) :
    st'.resourcePointers = st.resourcePointers ++
      if L < st.endfree - st.startfree then [] else [answer.getD 0] := by
  cases hcall : nestedCall answer st L refillNumber with
  | none =>
      rw [chunkAlloc_not_nested hcall] at h
      exact chunkAlloc_one_resources (by decide) h
  | some s =>
      obtain ⟨hroom, hasked⟩ := nestedCall_resources hcall
      rw [chunkAlloc_nested hcall] at h
      rw [chunkAlloc_room_resources (nestedCall_region hs hle hcall).2 h, if_neg hroom]
      exact hasked

/-- `Refill` notes down one answer of `malloc` when the unused region has no room. -/
theorem refill_resources {r : MallocResult} (hs : SlotSized L) (hle : L ≤ thirdSlot)
    (h : refill (fun _ => answer) st L = some (st', r)) :
    st'.resourcePointers = st.resourcePointers ++
      if L < st.endfree - st.startfree then [] else [answer.getD 0] := by
  unfold refill at h
  split at h
  · cases h
  · next st₁ chunk number hchunk =>
      rw [← chunkAlloc_resources hs hle hchunk]
      split at h
      · rw [← (Prod.mk.inj (Option.some.inj h)).1]
      · split at h
        · rw [← (Prod.mk.inj (Option.some.inj h)).1]
        · simp only at h
          split at h
          · cases h
          · rw [← (Prod.mk.inj (Option.some.inj h)).1]
            rfl

/-- **`RocketCoMalloc`** writes down what it was answered, unless it is a block above `ThirdSlot`. -/
theorem rocketCoMalloc_resources {r : MallocResult} (hn : 1 ≤ n)
    (h : rocketCoMalloc (fun _ => answer) st n = some (st', r)) :
    st'.resourcePointers = st.resourcePointers ++
      if n ≤ thirdSlot ∧ AsksSystem st n then [answer.getD 0] else [] := by
  unfold rocketCoMalloc at h
  by_cases hlarge : thirdSlot < n
  · rw [if_pos hlarge] at h
    rw [if_neg fun hand => Nat.not_lt.mpr hand.1 hlarge, List.append_nil,
      ← (Prod.mk.inj (Option.some.inj h)).1]
  · have hle := Nat.le_of_not_lt hlarge
    have hasks : AsksSystem st n ↔ st.freeList (findFreeListIndex (dataAlignment n)) = 0 ∧
        ¬ dataAlignment n < st.endfree - st.startfree := or_iff_right hlarge
    rw [if_neg hlarge] at h
    simp only at h
    split at h
    · cases h
    · split at h
      · next hempty =>
          rw [refill_resources (dataAlignment_slotSized hn hle) (dataAlignment_le hle) h]
          by_cases hroom : dataAlignment n < st.endfree - st.startfree
          · rw [if_pos hroom, if_neg fun hand => (hasks.mp hand.2).2 hroom]
          · rw [if_neg hroom, if_pos ⟨hle, hasks.mpr ⟨hempty, hroom⟩⟩]
      · next hlist =>
          rw [if_neg fun hand => hlist (hasks.mp hand.2).1, List.append_nil,
            ← (Prod.mk.inj (Option.some.inj h)).1]
          rfl

/-- `RocketCoFree` gives nothing back to the system. -/
theorem rocketCoFree_resources {ptr len : Nat} (h : rocketCoFree st ptr len = some st') :
    st'.resourcePointers = st.resourcePointers := by
  rcases rocketCoFree_edited h with ⟨_, heq⟩ | hedit
  · rw [heq]
  · exact hedit.resources

/-! ## §4. Whole runs. -/

/-- **The invariant**: what is live is what was written down, and the blocks above `ThirdSlot`. -/
structure LedgerInv (p : Process) (as : List Action) : Prop where
  live : p.live.Perm (p.client.pool.resourcePointers.filter (· ≠ 0) ++ delegated as)
  sentinel : (longMax, longMax) ∈ p.client.pool.pointerEffectiveInterval

/-- At the start nothing is live and nothing is noted down. -/
theorem LedgerInv.start (m : Mem) : LedgerInv (Process.start m) [] :=
  ⟨List.Perm.refl _, List.mem_singleton.mpr rfl⟩

theorem delegated_snoc (as : List Action) (a : Action) :
    delegated (as ++ [a]) = delegatedBy a ++ delegated as := by
  unfold delegated
  rw [List.reverse_append]
  rfl

/-- An answer of `malloc`, as it is written down. -/
theorem filter_answer (h : ∀ a ∈ answer, 0 < a) :
    [answer.getD 0].filter (· ≠ 0) = answer.toList := by
  cases answer with
  | none => rfl
  | some a =>
      have hpos : a ≠ 0 := Nat.pos_iff_ne_zero.mp (h a rfl)
      simp [hpos]

/-- The answer of one call, in the ledger and in the pool. -/
theorem ledger_malloc {live del : List Nat} (as : List Action) (hn : 1 ≤ n)
    (hanswer : ∀ a ∈ answer, 0 < a) {r : MallocResult}
    (hres : rocketCoMalloc (fun _ => answer) st n = some (st', r))
    (hdel : del = delegated as)
    (h : live.Perm (st.resourcePointers.filter (· ≠ 0) ++ del)) :
    (if AsksSystem st n then answer.toList ++ live else live).Perm
      (st'.resourcePointers.filter (· ≠ 0) ++ delegated (as ++ [.malloc n answer])) := by
  have hby : delegatedBy (.malloc n answer) = if thirdSlot < n then answer.toList else [] := rfl
  rw [delegated_snoc, rocketCoMalloc_resources hn hres, List.filter_append, ← hdel, hby]
  by_cases hlarge : thirdSlot < n
  · -- a block above `ThirdSlot` is nobody's but the client's
    have hasks : AsksSystem st n := Or.inl hlarge
    rw [if_pos hasks, if_neg fun hand => Nat.not_lt.mpr hand.1 hlarge, if_pos hlarge]
    simp only [List.filter_nil, List.append_nil]
    refine (h.append_left answer.toList).trans ?_
    rw [← List.append_assoc, ← List.append_assoc]
    exact List.perm_append_comm.append_right del
  · have hle := Nat.le_of_not_lt hlarge
    rw [if_neg hlarge, List.nil_append]
    by_cases hasks : AsksSystem st n
    · rw [if_pos hasks, if_pos ⟨hle, hasks⟩, filter_answer hanswer]
      refine (h.append_left answer.toList).trans ?_
      rw [← List.append_assoc]
      exact List.perm_append_comm.append_right del
    · rw [if_neg hasks, if_neg fun hand => hasks hand.2]
      simp only [List.filter_nil, List.append_nil]
      exact h

/-- **A call** notes down what it got from the system, or delegates it. -/
theorem LedgerInv.step {p p' : Process} {as : List Action} {a : Action} (h : LedgerInv p as)
    (hstep : p.Step a p') : LedgerInv p' (as ++ [a]) := by
  obtain ⟨hlive, hsentinel⟩ := h
  cases hstep with
  | @malloc c n answer hn hanswer hstep =>
      have hpos : ∀ a ∈ answer, 0 < a := fun a ha => (hanswer a ha).1
      cases Client.stepped hstep with
      | malloc hres =>
          exact ⟨ledger_malloc as hn hpos hres rfl hlive, rocketCoMalloc_pairs hres hsentinel⟩
      | badAlloc hres =>
          exact ⟨ledger_malloc as hn hpos hres rfl hlive, rocketCoMalloc_pairs hres hsentinel⟩
  | @free c st q n calls live hq hstep hcalls hfrees =>
      -- the pool frees nothing before it goes away
      have hnil := rocketCoFreeCalls_nil hsentinel hq hcalls
      rw [hnil] at hfrees
      have hsame : p.live = live := Option.some.inj hfrees
      have hdel : delegated (as ++ [.free q n]) = delegated as := delegated_snoc as _
      cases Client.stepped hstep with
      | free hres =>
          refine ⟨?_, ?_⟩
          · show live.Perm (_ ++ delegated (as ++ [.free q n]))
            rw [hdel, ← hsame]
            show p.live.Perm ((_ : RocketCoAlloctor).resourcePointers.filter (· ≠ 0) ++ _)
            rw [rocketCoFree_resources hres]
            exact hlive
          · show (longMax, longMax) ∈ (_ : RocketCoAlloctor).pointerEffectiveInterval
            rw [rocketCoFree_pairs hres]
            exact hsentinel
  | @write c x v hstep =>
      have hdel : delegated (as ++ [.write x v]) = delegated as := delegated_snoc as _
      cases Client.stepped hstep with
      | write =>
          refine ⟨?_, hsentinel⟩
          show p.live.Perm (_ ++ delegated (as ++ [.write x v]))
          rw [hdel]
          exact hlive

/-- The invariant, in every run. -/
theorem LedgerInv.of_run {m : Mem} {as : List Action} {p : Process}
    (h : Run Process.Step (Process.start m) as p) : LedgerInv p as := by
  generalize hstart : Process.start m = start at h
  induction h with
  | nil =>
      rw [← hstart]
      exact .start m
  | snoc _ hstep ih => exact ih.step hstep

/-- **The destructor gives back what the pool has got**, each pointer once, and no other: in every run,
also one that has broken the lists, it ends without a fault, and behind it exactly the blocks above
`ThirdSlot` are live. -/
theorem destructor_exact {m : Mem} {as : List Action} {p : Process}
    (h : Run Process.Step (Process.start m) as p) :
    ∃ live, p.client.pool.destructor p.live = some live ∧ live.Perm (delegated as) :=
  sysFrees_perm (LedgerInv.of_run h).live

/-! ### A failed `malloc`, a chunk, and a block above `ThirdSlot`. -/

/-- The step, evaluated. -/
def Process.next (p : Process) (a : Action) : Option Process :=
  (p.client.step a).bind fun c =>
    match a with
    | .malloc n answer =>
        some ⟨c, if AsksSystem p.client.pool n then answer.toList ++ p.live else p.live⟩
    | .free q n =>
        (rocketCoFreeCalls p.client.pool q n).bind fun r =>
          (sysFrees p.live r.2).map fun live => ⟨c, live⟩
    | .write _ _ => some ⟨c, p.live⟩

/-- Its guard. -/
def Process.check (p : Process) : Action → Bool
  | .malloc n answer => decide (1 ≤ n ∧ ∀ a ∈ answer, 0 < a ∧ a ≤ longMax ∧ a ∉ p.live)
  | .free q _ => decide (q ≤ longMax)
  | .write _ _ => true

theorem Process.step_of_check {p p' : Process} {a : Action} (hok : p.check a = true)
    (h : p.next a = some p') : p.Step a p' := by
  obtain ⟨c, hstep, hrest⟩ := Option.bind_eq_some_iff.mp h
  cases a with
  | malloc n answer =>
      obtain ⟨hn, hanswer⟩ := of_decide_eq_true hok
      rw [← Option.some.inj hrest]
      exact .malloc hn hanswer hstep
  | free q n =>
      obtain ⟨r, hcalls, hmap⟩ := Option.bind_eq_some_iff.mp hrest
      obtain ⟨live, hlive, heq⟩ := Option.map_eq_some_iff.mp hmap
      rw [← heq]
      exact .free (of_decide_eq_true hok) hstep hcalls hlive
  | write x v =>
      rw [← Option.some.inj hrest]
      exact .write hstep

/-- One chunk, and one block above `ThirdSlot` that is left. -/
theorem destructor_exact_three : ∃ (p : Process) (live : List Nat),
    Run Process.Step (Process.start fun _ => 0)
      [.malloc 512 none, .malloc 512 (some 4096), .malloc 131073 (some 65536), .free 4096 512] p ∧
    p.live = [65536, 4096] ∧ p.client.pool.resourcePointers = [0, 4096] ∧
    p.client.pool.destructor p.live = some live ∧ live.Perm [65536] := by
  have hcheck : checkRun Process.next Process.check (Process.start fun _ => 0)
      [.malloc 512 none, .malloc 512 (some 4096), .malloc 131073 (some 65536), .free 4096 512]
      (fun p => decide (p.live = [65536, 4096] ∧ p.client.pool.resourcePointers = [0, 4096])) =
        true := by
    decide +kernel
  obtain ⟨p, hrun, hp⟩ := Run.of_check (fun _ _ _ => Process.step_of_check) hcheck
  obtain ⟨hlive, hresources⟩ := of_decide_eq_true hp
  obtain ⟨live, hdestructor, hperm⟩ := destructor_exact hrun
  exact ⟨p, live, hrun, hlive, hresources, hdestructor, hperm⟩

end RocketCo.MemoryPool
