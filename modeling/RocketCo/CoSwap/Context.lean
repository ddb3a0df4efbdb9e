/-
  RocketCo.CoSwap.Context — `coctx_swap` and `co_swap_make` over the registers and the memory.

  `coctx_swap(curr, pending)` stores the registers of the caller into `curr->regs` and loads those of
  `pending`.  The offsets are written out by hand in the assembly, and the slots again in the `enum` that
  `co_swap_make` uses.

  The code of `coctx_swap` is cut at the `xorq`: `saveCode` in front of it, `loadCode` behind it, each with
  its spec lemma.  `Content` says what a context holds; that is carried along the runs of a program that
  swaps between any number of contexts and does what it likes in between.

  Main result: `swap_continues`.
-/
import RocketCo.Lib.Run
import RocketCo.Lib.X86
import Mathlib.Tactic.IntervalCases

namespace RocketCo.CoContext

open RocketCo.Lib RocketCo.Lib.X86

/-! ## §1. The code. -/

def kRDI : Nat := 7

def kRSI : Nat := 8

def kRETAddr : Nat := 9

def kRSP : Nat := 13

/-- `sizeof(co_swap_t)`: fourteen registers, `ss_size` and `ss_sp`. -/
def contextSize : Nat := 128

/-- `sizeof(regs)` -/
def regsSize : Nat := 112

/-- The first half of `coctx_swap`: the registers go to `curr->regs`. -/
def saveCode : List Instr :=
  [ .leaq 0 .rsp .rax,
    .store .rax 104 .rdi,
    .store .rbx 96 .rdi,
    .store .rcx 88 .rdi,
    .store .rdx 80 .rdi,
    .load 0 .rax .rax,
    .store .rax 72 .rdi,
    .store .rsi 64 .rdi,
    .store .rdi 56 .rdi,
    .store .rbp 48 .rdi,
    .store .r8 40 .rdi,
    .store .r9 32 .rdi,
    .store .r12 24 .rdi,
    .store .r13 16 .rdi,
    .store .r14 8 .rdi,
    .store .r15 0 .rdi,
    .xorq .rax .rax ]

/-- The second half: the registers come from `pending->regs`, `rsi` last. -/
def loadCode : List Instr :=
  [ .load 48 .rsi .rbp,
    .load 104 .rsi .rsp,
    .load 0 .rsi .r15,
    .load 8 .rsi .r14,
    .load 16 .rsi .r13,
    .load 24 .rsi .r12,
    .load 32 .rsi .r9,
    .load 40 .rsi .r8,
    .load 56 .rsi .rdi,
    .load 80 .rsi .rdx,
    .load 88 .rsi .rcx,
    .load 96 .rsi .rbx,
    .leaq 8 .rsp .rsp,
    .pushq 72 .rsi,
    .load 64 .rsi .rsi,
    .ret ]

def coctxSwap : List Instr := saveCode ++ loadCode

def ssSize (mem : Mem) (cst : Nat) : Word := field mem cst 14

def ssSp (mem : Mem) (cst : Nat) : Word := field mem cst 15

/-- `(ss_sp + ss_size - sizeof(void*)) & -16LL` -/
def makeSp (ss_sp ss_size : Word) : Word := (ss_sp + ss_size - 8) &&& (-16 : Word)

/-- The assignments to `regs[kRSP]`, `regs[kRETAddr]`, `regs[kRDI]` and `regs[kRSI]`. -/
def madeFields (sp pfn s s1 : Word) : List (Nat × Word) :=
  [(kRSP, sp), (kRETAddr, pfn), (kRDI, s), (kRSI, s1)]

def coSwapMake (mem : Mem) (cst : Nat) (pfn s s1 : Word) : Mem :=
  let sp := makeSp (ssSp mem cst) (ssSize mem cst)
  let zeroed := store mem cst regsSize 0
  writeFields (writeWord zeroed sp.toNat pfn) cst (madeFields sp pfn s s1)

theorem madeFields_nodup (sp pfn s s1 : Word) :
    ((madeFields sp pfn s s1).map Prod.fst).Nodup := by
  show [kRSP, kRETAddr, kRDI, kRSI].Nodup
  decide

theorem madeFields_lt (sp pfn s s1 : Word) : ∀ p ∈ madeFields sp pfn s s1, p.1 < 14 := by
  intro p hp
  have hfst : p.1 ∈ (madeFields sp pfn s s1).map Prod.fst := List.mem_map_of_mem hp
  have hall : ∀ i ∈ [kRSP, kRETAddr, kRDI, kRSI], i < 14 := by decide
  exact hall p.1 hfst

/-! ## §2. The two halves of `coctx_swap`. -/

section Halves

variable {m : Machine} {curr pending : Nat}

/-- Where the call that led to `coctx_swap` will return to. -/
def returnAddress (m : Machine) : Word := readWord m.mem (m.gpr .rsp).toNat

/-- What `saveCode` puts into the registers of `curr`, in its order. -/
def savedFields (m : Machine) : List (Nat × Word) :=
  [ (13, m.gpr .rsp), (12, m.gpr .rbx), (11, m.gpr .rcx), (10, m.gpr .rdx),
    (9, returnAddress m), (8, m.gpr .rsi), (7, m.gpr .rdi), (6, m.gpr .rbp),
    (5, m.gpr .r8), (4, m.gpr .r9), (3, m.gpr .r12), (2, m.gpr .r13),
    (1, m.gpr .r14), (0, m.gpr .r15) ]

theorem savedFields_nodup (m : Machine) : ((savedFields m).map Prod.fst).Nodup := by
  show [13, 12, 11, 10, 9, 8, 7, 6, 5, 4, 3, 2, 1, 0].Nodup
  decide

theorem savedFields_lt (m : Machine) : ∀ p ∈ savedFields m, p.1 < 14 := by
  intro p hp
  have hfst : p.1 ∈ (savedFields m).map Prod.fst := List.mem_map_of_mem hp
  have hall : ∀ i ∈ [13, 12, 11, 10, 9, 8, 7, 6, 5, 4, 3, 2, 1, 0], i < 14 := by decide
  exact hall p.1 hfst

/-- **The registers of the caller are saved**: the return address is read before any of the stores could
meet it, and only `rax` changes. -/
theorem save_spec (hrdi : m.gpr .rdi = BitVec.ofNat 64 curr) (hfits : curr + regsSize ≤ 2 ^ 64)
    (hsp : (m.gpr .rsp).toNat + 8 ≤ curr ∨ curr + regsSize ≤ (m.gpr .rsp).toNat) :
    m.exec saveCode = { m.set .rax 0 with mem := writeFields m.mem curr (savedFields m) } := by
  unfold regsSize at hfits hsp
  have hcode : saveCode =
      [.leaq 0 .rsp .rax] ++
        (stores .rdi [(13, .rax), (12, .rbx), (11, .rcx), (10, .rdx)] ++
          ([.load 0 .rax .rax] ++
            (stores .rdi [(9, .rax), (8, .rsi), (7, .rdi), (6, .rbp), (5, .r8), (4, .r9),
                (3, .r12), (2, .r13), (1, .r14), (0, .r15)] ++ [.xorq .rax .rax]))) := rfl
  let early : List (Nat × Word) :=
    [(13, m.gpr .rsp), (12, m.gpr .rbx), (11, m.gpr .rcx), (10, m.gpr .rdx)]
  let m₁ : Machine := m.set .rax (m.gpr .rsp)
  let m₂ : Machine := { m₁ with mem := writeFields m.mem curr early }
  let m₃ : Machine := m₂.set .rax (returnAddress m)
  let m₄ : Machine := { m₃ with mem := writeFields m.mem curr (savedFields m) }
  have hlea : m.exec [.leaq 0 .rsp .rax] = m₁ := by
    show m.set .rax (m.gpr .rsp + 0#64) = m₁
    rw [BitVec.add_zero]
  have hearly : m₁.exec (stores .rdi [(13, .rax), (12, .rbx), (11, .rcx), (10, .rdx)]) = m₂ := by
    rw [exec_stores (a := curr) (n := 14) (by exact hrdi) (by omega) _ (by decide)]
    rfl
  -- the stores so far leave the return address alone
  have hret : m₂.exec [.load 0 .rax .rax] = m₃ := by
    show m₂.set .rax (readWord m₂.mem (m.gpr .rsp + 0#64).toNat) = m₃
    rw [BitVec.add_zero]
    have hread : readWord m₂.mem (m.gpr .rsp).toNat = returnAddress m := by
      apply readWord_congr
      intro x hlow hhigh
      apply writeFields_outside curr 14 early m.mem _ (by omega)
      intro p hp
      exact savedFields_lt m p (List.mem_append_left _ hp : p ∈ early ++ (savedFields m).drop 4)
    rw [hread]
  have hlate : m₃.exec (stores .rdi [(9, .rax), (8, .rsi), (7, .rdi), (6, .rbp), (5, .r8),
      (4, .r9), (3, .r12), (2, .r13), (1, .r14), (0, .r15)]) = m₄ := by
    rw [exec_stores (a := curr) (n := 14) (by exact hrdi) (by omega) _ (by decide)]
    show { m₃ with mem := writeFields (writeFields m.mem curr early) curr _ } = m₄
    rw [← writeFields_append]
    rfl
  have hxor : m₄.exec [.xorq .rax .rax] =
      { m.set .rax 0 with mem := writeFields m.mem curr (savedFields m) } := by
    show m₄.set .rax (returnAddress m ^^^ returnAddress m) = _
    rw [BitVec.xor_self]
    show Machine.mk (Function.update (Function.update (Function.update m.gpr .rax _) .rax _) .rax 0)
      (writeFields m.mem curr (savedFields m)) m.rip = _
    rw [Function.update_idem, Function.update_idem]
    rfl
  rw [hcode, Machine.exec_append, hlea, Machine.exec_append, hearly, Machine.exec_append, hret,
    Machine.exec_append, hlate, hxor]

/-- The registers that `loadCode` loads in one block, and their slots. -/
def loadedRegs : List (Nat × Reg) :=
  [ (6, .rbp), (13, .rsp), (0, .r15), (1, .r14), (2, .r13), (3, .r12), (4, .r9), (5, .r8),
    (7, .rdi), (10, .rdx), (11, .rcx), (12, .rbx) ]

/-- What `loadCode` leaves: the registers of `pending`, and its return address on its stack. -/
structure Loaded (m t : Machine) (pending : Nat) : Prop where
  rip : t.rip = field m.mem pending kRETAddr
  rsp : t.gpr .rsp = field m.mem pending kRSP + 8
  rdi : t.gpr .rdi = field m.mem pending kRDI
  rsi : t.gpr .rsi = field m.mem pending kRSI
  regs : ∀ p ∈ [(6, .rbp), (0, Reg.r15), (1, .r14), (2, .r13), (3, .r12), (12, .rbx)],
    t.gpr p.2 = field m.mem pending p.1
  mem : t.mem = writeWord m.mem (field m.mem pending kRSP).toNat (field m.mem pending kRETAddr)

/-- The end of `loadCode`: the return address of `pending` is pushed and returned to. -/
theorem enter_spec {sp : Word} (hrsp : m.gpr .rsp = sp)
    (hrsi : m.gpr .rsi = BitVec.ofNat 64 pending) (hfits : pending + regsSize ≤ 2 ^ 64)
    (hsp : sp.toNat + 8 ≤ pending ∨ pending + regsSize ≤ sp.toNat) :
    m.exec [.leaq 8 .rsp .rsp, .pushq 72 .rsi, .load 64 .rsi .rsi, .ret] =
      { gpr := ((m.set .rsi (field m.mem pending kRSI)).set .rsp (sp + 8)).gpr
        mem := writeWord m.mem sp.toNat (field m.mem pending kRETAddr)
        rip := field m.mem pending kRETAddr } := by
  unfold regsSize at hfits hsp
  let m₁ : Machine := m.set .rsp (sp + 8)
  let m₂ : Machine :=
    { m₁.set .rsp sp with mem := writeWord m.mem sp.toNat (readWord m.mem (pending + 72)) }
  let m₃ : Machine := m₂.set .rsi (readWord m₂.mem (pending + 64))
  have hrsi₁ : m₁.gpr .rsi = BitVec.ofNat 64 pending := by
    rw [m.set_gpr_ne _ (by decide), hrsi]
  have hrsi₂ : m₂.gpr .rsi = BitVec.ofNat 64 pending := by
    show (m₁.set .rsp sp).gpr .rsi = _
    rw [m₁.set_gpr_ne _ (by decide), hrsi₁]
  have hrsp₃ : m₃.gpr .rsp = sp := by
    rw [m₂.set_gpr_ne _ (by decide)]
    show (m₁.set .rsp sp).gpr .rsp = sp
    exact m₁.set_gpr_same _ _
  have hlea : Instr.run m (.leaq 8 .rsp .rsp) = m₁ := run_leaq hrsp
  have hpush : Instr.run m₁ (.pushq 72 .rsi) = m₂ :=
    run_pushq (m.set_gpr_same .rsp (sp + 8)) hrsi₁ (by omega)
  have hload : Instr.run m₂ (.load 64 .rsi .rsi) = m₃ := run_load hrsi₂ (by omega)
  rw [Machine.exec_cons, hlea, Machine.exec_cons, hpush, Machine.exec_cons, hload,
    Machine.exec_cons, run_ret hrsp₃, Machine.exec_nil]
  -- the word just pushed is not in the registers of `pending`
  have hother : readWord m₂.mem (pending + 64) = field m.mem pending kRSI :=
    readWord_disjoint m.mem _ (by omega)
  have hpushed : readWord m₃.mem sp.toNat = field m.mem pending kRETAddr :=
    readWord_same m.mem _ _
  have hgpr : (m₃.set .rsp (sp + 8)).gpr =
      ((m.set .rsi (field m.mem pending kRSI)).set .rsp (sp + 8)).gpr := by
    show Function.update (Function.update (Function.update (Function.update m.gpr .rsp _) .rsp _)
      .rsi (readWord m₂.mem (pending + 64))) .rsp _ = Function.update (Function.update m.gpr .rsi _)
      .rsp _
    rw [hother, Function.update_idem, Function.update_comm (by decide), Function.update_idem]
    exact Function.update_comm (by decide) _ _ _
  show Machine.mk (m₃.set .rsp (sp + 8)).gpr m₂.mem (readWord m₃.mem sp.toNat) = _
  rw [hgpr, hpushed]
  rfl

/-- The block of loads in front of it. -/
theorem loads_spec (hrsi : m.gpr .rsi = BitVec.ofNat 64 pending)
    (hfits : pending + regsSize ≤ 2 ^ 64) :
    ∃ m₁ : Machine, m.exec (loads .rsi loadedRegs) = m₁ ∧ m₁.mem = m.mem ∧
      m₁.gpr .rsi = BitVec.ofNat 64 pending ∧
      ∀ p ∈ loadedRegs, m₁.gpr p.2 = field m.mem pending p.1 := by
  unfold regsSize at hfits
  refine ⟨_, exec_loads (n := 14) hrsi (by omega) loadedRegs (by decide) (by decide), ?_, ?_, ?_⟩
  · exact m.loadFields_mem pending loadedRegs
  · rw [m.loadFields_other pending loadedRegs (by decide), hrsi]
  · intro p hp
    exact m.loadFields_gpr pending loadedRegs (by decide) hp

/-- **The registers of `pending` are loaded.**  `rsi` is the base of every load, so it comes last; the
`pushq` goes to the stack that `pending` had, which is not in its own registers. -/
theorem load_spec (hrsi : m.gpr .rsi = BitVec.ofNat 64 pending)
    (hfits : pending + regsSize ≤ 2 ^ 64)
    (hsp : (field m.mem pending kRSP).toNat + 8 ≤ pending ∨
      pending + regsSize ≤ (field m.mem pending kRSP).toNat) :
    Loaded m (m.exec loadCode) pending := by
  have hcode : loadCode = loads .rsi loadedRegs ++
      [.leaq 8 .rsp .rsp, .pushq 72 .rsi, .load 64 .rsi .rsi, .ret] := rfl
  obtain ⟨m₁, hloads, hmem, hbase, hgpr⟩ := loads_spec hrsi hfits
  have hrsp : m₁.gpr .rsp = field m.mem pending kRSP := hgpr (13, .rsp) (by decide)
  rw [hcode, Machine.exec_append, hloads, enter_spec hrsp hbase hfits hsp, hmem]
  have hloaded : ∀ p ∈ loadedRegs, p.2 ≠ .rsp →
      ((m₁.set .rsi (field m.mem pending kRSI)).set .rsp (field m.mem pending kRSP + 8)).gpr p.2 =
        field m.mem pending p.1 := by
    intro p hp hne
    have hrsi : ∀ p ∈ loadedRegs, p.2 ≠ .rsi := by decide
    rw [Machine.set_gpr_ne _ _ hne, m₁.set_gpr_ne _ (hrsi p hp), hgpr p hp]
  have hrsp' : ((m₁.set .rsi (field m.mem pending kRSI)).set .rsp
      (field m.mem pending kRSP + 8)).gpr .rsp = field m.mem pending kRSP + 8 := by
    rw [Machine.set_gpr_same]
  have hrsi' : ((m₁.set .rsi (field m.mem pending kRSI)).set .rsp
      (field m.mem pending kRSP + 8)).gpr .rsi = field m.mem pending kRSI := by
    rw [Machine.set_gpr_ne _ _ (by decide), Machine.set_gpr_same]
  constructor
  case rip => rfl
  case rsp => exact hrsp'
  case rdi => exact hloaded (7, .rdi) (by decide) (by decide)
  case rsi => exact hrsi'
  case regs =>
    intro p hp
    have hin : ∀ q ∈ [(6, .rbp), (0, Reg.r15), (1, .r14), (2, .r13), (3, .r12), (12, .rbx)],
        q ∈ loadedRegs ∧ q.2 ≠ .rsp := by decide
    exact hloaded p (hin p hp).1 (hin p hp).2
  case mem => dsimp only

end Halves

/-! ## §3. Programs that swap. -/

/-- The `co_swap_t` objects of a program, and where they are. -/
structure Contexts (ι : Type*) where
  addr : ι → Nat
  fits : ∀ c, addr c + contextSize ≤ 2 ^ 64
  apart : ∀ c d, c ≠ d → addr c + contextSize ≤ addr d ∨ addr d + contextSize ≤ addr c

variable {ι : Type*} [DecidableEq ι] {C : Contexts ι}

/-- No context is in `[a, a + n)`. -/
def Contexts.Clear (C : Contexts ι) (a n : Nat) : Prop :=
  a + n ≤ 2 ^ 64 ∧ ∀ c, a + n ≤ C.addr c ∨ C.addr c + contextSize ≤ a

/-- The arguments of a `co_swap_make`, and the stack it found in the context. -/
structure Made where
  pfn : Word
  s : Word
  s1 : Word
  ss_sp : Word
  ss_size : Word

/-- What a context was last written by: a `coctx_swap` that the machine entered, or a `co_swap_make`. -/
inductive Content where
  | saved (m : Machine)
  | made (k : Made)

structure System (ι : Type*) where
  cpu : Machine
  /-- Nothing is known of a context that the program never filled, or wrote over itself. -/
  content : ι → Option Content

inductive Action (ι : Type*) where
  /-- The program computes: registers and memory are arbitrary afterwards. -/
  | user (m : Machine)
  | co_swap_make (cst : ι) (pfn s s1 : Word)
  | coctx_swap (curr pending : ι)

/-- The bytes of `regs` are the same in both memories. -/
def RegsKept (mem mem' : Mem) (cst : Nat) : Prop :=
  ∀ i < regsSize, mem' (cst + i) = mem (cst + i)

instance (mem mem' : Mem) (cst : Nat) : Decidable (RegsKept mem mem' cst) :=
  inferInstanceAs (Decidable (∀ i < regsSize, mem' (cst + i) = mem (cst + i)))

def System.computed (C : Contexts ι) (s : System ι) (m : Machine) : System ι :=
  { cpu := m
    content := fun c => if RegsKept s.cpu.mem m.mem (C.addr c) then s.content c else none }

def System.made (C : Contexts ι) (s : System ι) (cst : ι) (pfn p1 p2 : Word) : System ι :=
  { cpu := { s.cpu with mem := coSwapMake s.cpu.mem (C.addr cst) pfn p1 p2 }
    content := Function.update s.content cst (some (.made
      ⟨pfn, p1, p2, ssSp s.cpu.mem (C.addr cst), ssSize s.cpu.mem (C.addr cst)⟩)) }

def System.swapped (s : System ι) (curr : ι) : System ι :=
  { cpu := s.cpu.exec coctxSwap
    content := Function.update s.content curr (some (.saved s.cpu)) }

theorem System.swapped_content_self (s : System ι) (curr : ι) :
    (s.swapped curr).content curr = some (.saved s.cpu) := Function.update_self _ _ _

theorem System.swapped_content_ne (s : System ι) {c curr : ι} (h : c ≠ curr) :
    (s.swapped curr).content c = s.content c := Function.update_of_ne h _ _

omit [DecidableEq ι] in
/-- A context whose registers were not written to holds what it held. -/
theorem System.computed_content {s : System ι} {m : Machine} {c : ι}
    (h : RegsKept s.cpu.mem m.mem (C.addr c)) : (s.computed C m).content c = s.content c :=
  if_pos h

/-- One action.  A stack is never inside of a context. -/
inductive Step (C : Contexts ι) : System ι → Action ι → System ι → Prop
  | user (s : System ι) (m : Machine) : Step C s (.user m) (s.computed C m)
  | make (s : System ι) (cst : ι) (pfn p1 p2 : Word)
      (hsize : 32 ≤ (ssSize s.cpu.mem (C.addr cst)).toNat)
      (hstack : C.Clear (ssSp s.cpu.mem (C.addr cst)).toNat
        (ssSize s.cpu.mem (C.addr cst)).toNat) :
      Step C s (.co_swap_make cst pfn p1 p2) (s.made C cst pfn p1 p2)
  | swap (s : System ι) (curr pending : ι)
      (hrdi : s.cpu.gpr .rdi = BitVec.ofNat 64 (C.addr curr))
      (hrsi : s.cpu.gpr .rsi = BitVec.ofNat 64 (C.addr pending))
      (hstack : C.Clear (s.cpu.gpr .rsp).toNat 8)
      (hpending : (s.swapped curr).content pending ≠ none) :
      Step C s (.coctx_swap curr pending) (s.swapped curr)

/-! ## §4. What a context holds. -/

/-- The registers of the context at `cst` are those of its last `coctx_swap` or `co_swap_make`. -/
def Content.At (C : Contexts ι) (mem : Mem) (cst : Nat) : Content → Prop
  | .saved m => (∀ p ∈ savedFields m, field mem cst p.1 = p.2) ∧ C.Clear (m.gpr .rsp).toNat 8
  | .made k =>
      (∀ p ∈ madeFields (makeSp k.ss_sp k.ss_size) k.pfn k.s k.s1, field mem cst p.1 = p.2) ∧
      32 ≤ k.ss_size.toNat ∧ C.Clear k.ss_sp.toNat k.ss_size.toNat

/-- **The invariant**: every context holds its content. -/
def System.Held (C : Contexts ι) (s : System ι) : Prop :=
  ∀ c k, s.content c = some k → k.At C s.cpu.mem (C.addr c)

section Held

variable {mem mem' : Mem} {cst : Nat} {k : Content}

omit [DecidableEq ι] in
/-- A part of a clear range is clear. -/
theorem Contexts.Clear.mono {a n b j : Nat} (h : C.Clear a n) (hlow : a ≤ b)
    (hhigh : b + j ≤ a + n) : C.Clear b j := by
  obtain ⟨hfits, happart⟩ := h
  refine ⟨by omega, fun c => ?_⟩
  have := happart c
  omega

/-- `& -16` clears the four low bits. -/
theorem and_neg_sixteen (x : Word) : (x &&& (-16 : Word)).toNat = x.toNat / 16 * 16 := by
  have hshift : x &&& (-16 : Word) = (x >>> 4) <<< 4 := by
    apply BitVec.eq_of_getLsbD_eq
    intro i hi
    rw [BitVec.getLsbD_and, BitVec.getLsbD_shiftLeft, BitVec.getLsbD_ushiftRight]
    by_cases h4 : i < 4
    · have hbit : (-16 : Word).getLsbD i = false := by
        interval_cases i <;> rfl
      rw [hbit]
      simp [h4]
    · have hbit : (-16 : Word).getLsbD i = true := by
        interval_cases i <;> rfl
      have hadd : 4 + (i - 4) = i := by omega
      rw [hbit]
      simp [h4, hi, hadd]
  have hlt := x.isLt
  rw [hshift, BitVec.toNat_shiftLeft, BitVec.toNat_ushiftRight, Nat.shiftRight_eq_div_pow,
    Nat.shiftLeft_eq]
  omega

/-- The stack pointer of a fresh context is aligned, with room for a word on its stack. -/
theorem makeSp_spec {sp size : Word} (hsize : 32 ≤ size.toNat)
    (hfits : sp.toNat + size.toNat ≤ 2 ^ 64) :
    (makeSp sp size).toNat % 16 = 0 ∧ sp.toNat ≤ (makeSp sp size).toNat ∧
      (makeSp sp size).toNat + 8 ≤ sp.toNat + size.toNat := by
  have htop : (sp + size - 8).toNat = sp.toNat + size.toNat - 8 := by bv_omega
  unfold makeSp
  rw [and_neg_sixteen, htop]
  omega

/-- A slot of `regs` is read from the bytes of `regs`. -/
theorem field_kept (h : RegsKept mem mem' cst) {i : Nat} (hi : i < 14) :
    field mem' cst i = field mem cst i := by
  apply readWord_congr
  intro x hlow hhigh
  have hx : x = cst + (x - cst) := by omega
  rw [hx]
  apply h
  unfold regsSize
  omega

omit [DecidableEq ι] in
/-- What a context holds depends on its registers only. -/
theorem Content.At.kept (h : k.At C mem cst) (hkept : RegsKept mem mem' cst) :
    k.At C mem' cst := by
  cases k with
  | saved m =>
      refine ⟨fun p hp => ?_, h.2⟩
      rw [field_kept hkept (savedFields_lt m p hp)]
      exact h.1 p hp
  | made k =>
      refine ⟨fun p hp => ?_, h.2⟩
      rw [field_kept hkept (madeFields_lt _ _ _ _ p hp)]
      exact h.1 p hp

omit [DecidableEq ι] in
/-- The stack pointer that a context holds is outside of all contexts. -/
theorem Content.At.stack (h : k.At C mem cst) : C.Clear (field mem cst kRSP).toNat 8 := by
  cases k with
  | saved m =>
      have hrsp : field mem cst kRSP = m.gpr .rsp := h.1 (13, m.gpr .rsp) List.mem_cons_self
      rw [hrsp]
      exact h.2
  | made k =>
      have hrsp : field mem cst kRSP = makeSp k.ss_sp k.ss_size :=
        h.1 (kRSP, _) List.mem_cons_self
      obtain ⟨_, hsize, hclear⟩ := h
      obtain ⟨_, hlow, hhigh⟩ := makeSp_spec hsize hclear.1
      rw [hrsp]
      exact hclear.mono hlow hhigh

omit [DecidableEq ι] in
/-- What is written outside of the contexts leaves their registers alone. -/
theorem regsKept_writeWord {a : Nat} (h : C.Clear a 8) (mem : Mem) (v : Word) (c : ι) :
    RegsKept mem (writeWord mem a v) (C.addr c) := by
  intro i hi
  have := h.2 c
  unfold contextSize at this
  unfold regsSize at hi
  exact store_outside mem _ (by omega)

omit [DecidableEq ι] in
/-- What is written to the registers of one context leaves those of the others alone. -/
theorem regsKept_other {c d : ι} (hne : c ≠ d)
    (h : ∀ x, x < C.addr d ∨ C.addr d + regsSize ≤ x → mem' x = mem x) :
    RegsKept mem mem' (C.addr c) := by
  intro i hi
  have := C.apart c d hne
  unfold contextSize at this
  unfold regsSize at hi h
  exact h _ (by omega)

end Held

/-! ## §5. The steps keep the invariant. -/

variable {s t u : System ι} {as : List (Action ι)} {curr pending : ι}

omit [DecidableEq ι] in
/-- A user's own steps keep the invariant: a context that is written to holds nothing any more. -/
theorem System.Held.computed (h : s.Held C) (m : Machine) : (s.computed C m).Held C := by
  intro c k hk
  show k.At C m.mem (C.addr c)
  change (if RegsKept s.cpu.mem m.mem (C.addr c) then s.content c else none) = some k at hk
  by_cases hkept : RegsKept s.cpu.mem m.mem (C.addr c)
  · rw [if_pos hkept] at hk
    exact (h c k hk).kept hkept
  · rw [if_neg hkept] at hk
    cases hk

/-- **`co_swap_make` writes to its context and to its stack only.** -/
theorem coSwapMake_outside {mem : Mem} {cst : Nat} (pfn p1 p2 : Word)
    (hsize : 32 ≤ (ssSize mem cst).toNat)
    (hfits : (ssSp mem cst).toNat + (ssSize mem cst).toNat ≤ 2 ^ 64) {x : Nat}
    (hregs : x < cst ∨ cst + regsSize ≤ x)
    (hstack : x < (ssSp mem cst).toNat ∨ (ssSp mem cst).toNat + (ssSize mem cst).toNat ≤ x) :
    coSwapMake mem cst pfn p1 p2 x = mem x := by
  obtain ⟨_, hlow, hhigh⟩ := makeSp_spec hsize hfits
  unfold coSwapMake
  rw [writeFields_outside cst 14 _ _ (madeFields_lt _ _ _ _) (by unfold regsSize at hregs; omega)]
  unfold writeWord
  rw [store_outside _ _ (by omega), store_outside _ _ hregs]

/-- **`co_swap_make`** keeps the invariant. -/
theorem System.Held.made (h : s.Held C) (cst : ι) (pfn p1 p2 : Word)
    (hsize : 32 ≤ (ssSize s.cpu.mem (C.addr cst)).toNat)
    (hstack : C.Clear (ssSp s.cpu.mem (C.addr cst)).toNat (ssSize s.cpu.mem (C.addr cst)).toNat) :
    (s.made C cst pfn p1 p2).Held C := by
  intro c k hk
  show k.At C (coSwapMake s.cpu.mem (C.addr cst) pfn p1 p2) (C.addr c)
  change Function.update s.content cst _ c = some k at hk
  by_cases hc : c = cst
  · rw [hc] at hk ⊢
    rw [Function.update_self, Option.some.injEq] at hk
    rw [← hk]
    refine ⟨fun p hp => ?_, hsize, hstack⟩
    exact field_writeFields _ _ _ (madeFields_nodup _ _ _ _) hp
  · rw [Function.update_of_ne hc] at hk
    apply (h c k hk).kept
    intro i hi
    have hapart := C.apart c cst hc
    have hclear := hstack.2 c
    unfold contextSize at hapart hclear
    unfold regsSize at hi
    apply coSwapMake_outside pfn p1 p2 hsize hstack.1
    · unfold regsSize
      omega
    · omega

/-- The state between the halves of `coctx_swap`. -/
def System.saved (s : System ι) (curr : ι) : System ι :=
  { cpu := s.cpu.exec saveCode
    content := Function.update s.content curr (some (.saved s.cpu)) }

/-- What the first half of `coctx_swap` leaves. -/
structure Saves (C : Contexts ι) (s : System ι) (curr : ι) : Prop where
  held : (s.saved curr).Held C
  rsi : (s.cpu.exec saveCode).gpr .rsi = s.cpu.gpr .rsi
  outside : ∀ x, x < C.addr curr ∨ C.addr curr + regsSize ≤ x →
    (s.cpu.exec saveCode).mem x = s.cpu.mem x

/-- **The first half of a swap** stores the caller's registers in its context and touches no other. -/
theorem System.Held.saves (h : s.Held C) (hrdi : s.cpu.gpr .rdi = BitVec.ofNat 64 (C.addr curr))
    (hstack : C.Clear (s.cpu.gpr .rsp).toNat 8) : Saves C s curr := by
  have hfits := C.fits curr
  have hclear := hstack.2 curr
  unfold contextSize at hfits hclear
  have hspec := save_spec hrdi (by unfold regsSize; omega) (by unfold regsSize; omega)
  have houtside : ∀ x, x < C.addr curr ∨ C.addr curr + regsSize ≤ x →
      (s.cpu.exec saveCode).mem x = s.cpu.mem x := by
    intro x hx
    rw [hspec]
    exact writeFields_outside (C.addr curr) 14 _ _ (savedFields_lt _) hx
  constructor
  case outside => exact houtside
  case rsi =>
    rw [hspec]
    show (s.cpu.set .rax 0).gpr .rsi = s.cpu.gpr .rsi
    rw [s.cpu.set_gpr_ne _ (by decide)]
  case held =>
    intro c k hk
    show k.At C (s.cpu.exec saveCode).mem (C.addr c)
    change Function.update s.content curr _ c = some k at hk
    by_cases hc : c = curr
    · rw [hc] at hk ⊢
      rw [Function.update_self, Option.some.injEq] at hk
      rw [← hk, hspec]
      refine ⟨fun p hp => ?_, hstack⟩
      exact field_writeFields _ _ _ (savedFields_nodup _) hp
    · rw [Function.update_of_ne hc] at hk
      exact (h c k hk).kept (regsKept_other hc houtside)

/-- **A swap is the two halves**: the second one reads what `pending` holds behind the first. -/
theorem System.Held.loads (h : s.Held C) {k : Content}
    (hrdi : s.cpu.gpr .rdi = BitVec.ofNat 64 (C.addr curr))
    (hrsi : s.cpu.gpr .rsi = BitVec.ofNat 64 (C.addr pending))
    (hstack : C.Clear (s.cpu.gpr .rsp).toNat 8)
    (hk : (s.swapped curr).content pending = some k) :
    k.At C (s.cpu.exec saveCode).mem (C.addr pending) ∧
      Loaded (s.cpu.exec saveCode) (s.cpu.exec coctxSwap) (C.addr pending) := by
  have hsaves := h.saves hrdi hstack
  have hAt : k.At C (s.cpu.exec saveCode).mem (C.addr pending) := hsaves.held pending k hk
  have hfits := C.fits pending
  have hclear := hAt.stack.2 pending
  unfold contextSize at hfits hclear
  have hcode : s.cpu.exec coctxSwap = (s.cpu.exec saveCode).exec loadCode :=
    Machine.exec_append _ _ _
  refine ⟨hAt, ?_⟩
  rw [hcode]
  apply load_spec
  · rw [hsaves.rsi, hrsi]
  · unfold regsSize
    omega
  · unfold regsSize
    omega

/-- **`coctx_swap`** keeps the invariant: its second half writes to the stack of `pending` only. -/
theorem System.Held.swapped (h : s.Held C)
    (hrdi : s.cpu.gpr .rdi = BitVec.ofNat 64 (C.addr curr))
    (hrsi : s.cpu.gpr .rsi = BitVec.ofNat 64 (C.addr pending))
    (hstack : C.Clear (s.cpu.gpr .rsp).toNat 8)
    (hpending : (s.swapped curr).content pending ≠ none) : (s.swapped curr).Held C := by
  obtain ⟨k, hk⟩ := Option.ne_none_iff_exists'.mp hpending
  obtain ⟨hAt, hloaded⟩ := h.loads hrdi hrsi hstack hk
  intro c j hj
  have hsaved : j.At C (s.cpu.exec saveCode).mem (C.addr c) :=
    (h.saves hrdi hstack).held c j hj
  show j.At C (s.cpu.exec coctxSwap).mem (C.addr c)
  rw [hloaded.mem]
  exact hsaved.kept (regsKept_writeWord hAt.stack _ _ c)

/-- The three actions. -/
theorem System.Held.step (h : s.Held C) {a : Action ι} (ha : Step C s a t) : t.Held C := by
  cases ha with
  | user m => exact h.computed m
  | make cst pfn p1 p2 hsize hstack => exact h.made cst pfn p1 p2 hsize hstack
  | swap curr pending hrdi hrsi hstack hpending => exact h.swapped hrdi hrsi hstack hpending

/-- A program starts with contexts that hold nothing. -/
def System.Fresh (s : System ι) : Prop := ∀ c, s.content c = none

/-- The invariant, in every run. -/
theorem held_of_run (hs : s.Fresh) (h : Run (Step C) s as t) : t.Held C := by
  apply h.invariant (fun _ _ _ hheld ha => System.Held.step hheld ha)
  intro c k hk
  rw [hs c] at hk
  cases hk

/-! ## §6. What a swap continues with. -/

/-- The registers that a called function leaves as they were. -/
def calleeSaved : List Reg := [.rbx, .rbp, .r12, .r13, .r14, .r15]

/-- `coctx_swap`, entered at `m`, has returned like any function. -/
def Returned (m m' : Machine) : Prop :=
  m'.rip = (Instr.run m .ret).rip ∧
    ∀ r ∈ .rsp :: calleeSaved, m'.gpr r = (Instr.run m .ret).gpr r

/-- `pfn(s, s1)` is entered, on the stack of its context. -/
def Entered (k : Made) (m' : Machine) : Prop :=
  m'.rip = k.pfn ∧ m'.gpr .rdi = k.s ∧ m'.gpr .rsi = k.s1 ∧
    (m'.gpr .rsp).toNat % 16 = 8 ∧
    k.ss_sp.toNat ≤ (m'.gpr .rsp).toNat ∧
    (m'.gpr .rsp).toNat ≤ k.ss_sp.toNat + k.ss_size.toNat

/-- Only the registers of the context at `cst`, and the stack, are written. -/
def WritesOnly (cst : Nat) (ss_sp ss_size : Word) (mem mem' : Mem) : Prop :=
  ∀ x, (x < cst ∨ cst + regsSize ≤ x) →
    (x < ss_sp.toNat ∨ ss_sp.toNat + ss_size.toNat ≤ x) → mem' x = mem x

/-- A context that was saved continues behind its own `coctx_swap`. -/
theorem System.Held.returned (h : t.Held C) (ha : Step C t (.coctx_swap curr pending) u)
    {m : Machine} (hm : u.content pending = some (.saved m)) : Returned m u.cpu := by
  cases ha with
  | swap _ _ hrdi hrsi hstack _ =>
      obtain ⟨hAt, hloaded⟩ := h.loads hrdi hrsi hstack hm
      have hslot : ∀ {i : Nat} {v : Word}, (i, v) ∈ savedFields m →
          field (t.cpu.exec saveCode).mem (C.addr pending) i = v := fun hin => hAt.1 (_, _) hin
      constructor
      · show (t.cpu.exec coctxSwap).rip = returnAddress m
        rw [hloaded.rip]
        exact hslot (i := 9) (by simp [savedFields])
      · intro r hr
        show (t.cpu.exec coctxSwap).gpr r = (m.set .rsp (m.gpr .rsp + 8)).gpr r
        cases List.mem_cons.mp hr with
        | inl hrsp =>
            rw [hrsp, m.set_gpr_same, hloaded.rsp]
            have hslot' : field (t.cpu.exec saveCode).mem (C.addr pending) kRSP = m.gpr .rsp :=
              hslot (i := 13) (by simp [savedFields])
            rw [hslot']
        | inr hcallee =>
            have hne : ∀ r ∈ calleeSaved, r ≠ .rsp := by decide
            rw [m.set_gpr_ne _ (hne r hcallee)]
            have hmem : ∀ r ∈ calleeSaved, ∃ i, (i, r) ∈ [(6, .rbp), (0, Reg.r15), (1, .r14),
                (2, .r13), (3, .r12), (12, .rbx)] ∧ (i, m.gpr r) ∈ savedFields m := by
              intro r hr
              simp only [calleeSaved, List.mem_cons, List.not_mem_nil, or_false] at hr
              rcases hr with rfl | rfl | rfl | rfl | rfl | rfl
              · exact ⟨12, by decide, by simp [savedFields]⟩
              · exact ⟨6, by decide, by simp [savedFields]⟩
              · exact ⟨3, by decide, by simp [savedFields]⟩
              · exact ⟨2, by decide, by simp [savedFields]⟩
              · exact ⟨1, by decide, by simp [savedFields]⟩
              · exact ⟨0, by decide, by simp [savedFields]⟩
            obtain ⟨i, hin, hsaved⟩ := hmem r hcallee
            rw [hloaded.regs (i, r) hin]
            exact hslot hsaved

/-- A context that was made starts its function on its own stack. -/
theorem System.Held.entered (h : t.Held C) (ha : Step C t (.coctx_swap curr pending) u) {k : Made}
    (hk : u.content pending = some (.made k)) :
    Entered k u.cpu ∧ WritesOnly (C.addr curr) k.ss_sp k.ss_size t.cpu.mem u.cpu.mem := by
  cases ha with
  | swap _ _ hrdi hrsi hstack _ =>
      obtain ⟨hAt, hloaded⟩ := h.loads hrdi hrsi hstack hk
      obtain ⟨hslots, hsize, hclear⟩ := hAt
      obtain ⟨halign, hlow, hhigh⟩ := makeSp_spec hsize hclear.1
      have hslot : ∀ {i : Nat} {v : Word},
          (i, v) ∈ madeFields (makeSp k.ss_sp k.ss_size) k.pfn k.s k.s1 →
          field (t.cpu.exec saveCode).mem (C.addr pending) i = v := fun hin => hslots (_, _) hin
      have hkRSP : field (t.cpu.exec saveCode).mem (C.addr pending) kRSP =
          makeSp k.ss_sp k.ss_size := hslot (by simp [madeFields])
      have hrsp : ((t.cpu.exec coctxSwap).gpr .rsp).toNat = (makeSp k.ss_sp k.ss_size).toNat + 8 := by
        rw [hloaded.rsp, hkRSP]
        have hfits := hclear.1
        bv_omega
      constructor
      · show Entered k (t.cpu.exec coctxSwap)
        unfold Entered
        rw [hrsp, hloaded.rip, hloaded.rdi, hloaded.rsi]
        refine ⟨hslot (by simp [madeFields]), hslot (by simp [madeFields]),
          hslot (by simp [madeFields]), ?_, ?_, ?_⟩
        all_goals omega
      · intro x hregs hout
        show (t.cpu.exec coctxSwap).mem x = t.cpu.mem x
        rw [hloaded.mem, hkRSP]
        unfold writeWord
        rw [store_outside _ _ (by omega)]
        exact (h.saves hrdi hstack).outside x hregs

/-! ## §7. Runs. -/

/-- The action fills no registers of `c`, nor writes over them. -/
def Action.Leaves (C : Contexts ι) (c : ι) (s : System ι) : Action ι → Prop
  | .user m => RegsKept s.cpu.mem m.mem (C.addr c)
  | .co_swap_make cst _ _ _ => cst ≠ c
  | .coctx_swap curr _ => curr ≠ c

/-- A context that nobody fills holds what it held. -/
theorem content_kept {c : ι} {k : Content}
    (h : Run (fun s a t => Step C s a t ∧ a.Leaves C c s) s as t)
    (hk : s.content c = some k) : t.content c = some k := by
  apply h.invariant (I := fun s => s.content c = some k) _ hk
  intro s a t hk ⟨ha, hleaves⟩
  cases ha with
  | user m =>
      rw [System.computed_content hleaves, hk]
  | make cst pfn p1 p2 _ _ =>
      show Function.update s.content cst _ c = some k
      rw [Function.update_of_ne (Ne.symm hleaves), hk]
  | swap curr pending _ _ _ _ =>
      rw [s.swapped_content_ne (Ne.symm hleaves), hk]

/-- **A swap continues where the context was left.**  After any run, a context that was saved by
`coctx_swap` and not filled again returns from that call when it is swapped in, and one that was prepared by
`co_swap_make` enters its function on its own stack. -/
theorem swap_continues (hs : s.Fresh) (h : Run (Step C) s as t) :
    (∀ c d bs v r e u, Step C t (.coctx_swap c d) v →
      Run (fun s a t => Step C s a t ∧ a.Leaves C c s) v bs r → e ≠ c →
      Step C r (.coctx_swap e c) u → Returned t.cpu u.cpu) ∧
    (∀ c u, Step C t (.coctx_swap c c) u → Returned t.cpu u.cpu) ∧
    (∀ c pfn p1 p2 v, Step C t (.co_swap_make c pfn p1 p2) v →
      WritesOnly (C.addr c) (ssSp t.cpu.mem (C.addr c)) (ssSize t.cpu.mem (C.addr c))
        t.cpu.mem v.cpu.mem ∧
      ∀ bs r e u, Run (fun s a t => Step C s a t ∧ a.Leaves C c s) v bs r → e ≠ c →
        Step C r (.coctx_swap e c) u →
        Entered ⟨pfn, p1, p2, ssSp t.cpu.mem (C.addr c), ssSize t.cpu.mem (C.addr c)⟩ u.cpu ∧
        WritesOnly (C.addr e) (ssSp t.cpu.mem (C.addr c)) (ssSize t.cpu.mem (C.addr c))
          r.cpu.mem u.cpu.mem) := by
  have hheld := held_of_run hs h
  have hrun : ∀ {c bs v r}, v.Held C →
      Run (fun s a t => Step C s a t ∧ Action.Leaves C c s a) v bs r → r.Held C :=
    fun hv hbs => hbs.invariant (fun _ _ _ hheld ha => System.Held.step hheld ha.1) hv
  refine ⟨?_, ?_, ?_⟩
  · intro c d bs v r e u hv hbs hne hu
    have hsaved : v.content c = some (.saved t.cpu) := by
      cases hv with
      | swap _ _ _ _ _ _ => exact t.swapped_content_self c
    have hcontent := content_kept hbs hsaved
    apply (hrun (hheld.step hv) hbs).returned hu
    cases hu with
    | swap _ _ _ _ _ _ =>
        rw [r.swapped_content_ne hne.symm, hcontent]
  · intro c u hu
    apply hheld.returned hu
    cases hu with
    | swap _ _ _ _ _ _ => exact t.swapped_content_self c
  · intro c pfn p1 p2 v hv
    have hmade := hheld.step hv
    cases hv with
    | make _ _ _ _ hsize hstack =>
        refine ⟨fun x hregs hout => coSwapMake_outside pfn p1 p2 hsize hstack.1 hregs hout, ?_⟩
        intro bs r e u hbs hne hu
        have hcontent := content_kept hbs (Function.update_self c _ t.content)
        apply (hrun hmade hbs).entered hu
        cases hu with
        | swap _ _ _ _ _ _ =>
            rw [r.swapped_content_ne hne.symm, hcontent]

/-! ### Two contexts. -/

def twoContexts : Contexts Bool where
  addr c := if c then 0x2000 else 0x1000
  fits := by decide
  apart := by decide

/-- `coctx_swap(curr, pending)` is being called with the stack pointer `sp`. -/
def callingSwap (curr pending : Bool) (sp : Word) (mem : Mem) : Machine where
  gpr
    | .rdi => BitVec.ofNat 64 (twoContexts.addr curr)
    | .rsi => BitVec.ofNat 64 (twoContexts.addr pending)
    | .rsp => sp
    | _ => 7
  mem := mem
  rip := 0

/-- `ss_sp` and `ss_size` of the second context are set. -/
def twoStart : System Bool where
  cpu := callingSwap false true 0x9000
    (writeFields (fun _ => 0) 0x2000 [(14, 0x1000), (15, 0x3000)])
  content _ := none

/-- The second context is prepared and entered, overwrites the stack of the first, and swaps back. -/
theorem swap_continues_back :
    ∃ t v r u : System Bool,
      Run (Step twoContexts) twoStart [.co_swap_make true 0x401000 1 2] t ∧
      Step twoContexts t (.coctx_swap false true) v ∧
      Entered ⟨0x401000, 1, 2, 0x3000, 0x1000⟩ v.cpu ∧
      Run (Step twoContexts) v [.user (callingSwap true false 0x3500 (store v.cpu.mem 0x9000 8 0))] r ∧
      Step twoContexts r (.coctx_swap true false) u ∧ Returned t.cpu u.cpu := by
  have hfresh : twoStart.Fresh := fun _ => rfl
  let t := twoStart.made twoContexts true 0x401000 1 2
  let v := t.swapped false
  let m := callingSwap true false 0x3500 (store v.cpu.mem 0x9000 8 0)
  let r := v.computed twoContexts m
  have hmake : Step twoContexts twoStart (.co_swap_make true 0x401000 1 2) t :=
    .make _ _ _ _ _ (by decide +kernel) ⟨by decide +kernel, by decide +kernel⟩
  have hout : Step twoContexts t (.coctx_swap false true) v :=
    .swap _ _ _ rfl rfl ⟨by decide +kernel, by decide +kernel⟩ (Option.some_ne_none _)
  have hkept : RegsKept v.cpu.mem m.mem (twoContexts.addr false) := by
    intro i hi
    unfold regsSize at hi
    exact store_outside v.cpu.mem 0 (by show 0x1000 + i < 0x9000 ∨ _; omega)
  have huser : Step twoContexts v (.user m) r := .user v m
  have hback : Step twoContexts r (.coctx_swap true false) (r.swapped true) := by
    have hsaved : v.content false = some (.saved t.cpu) := t.swapped_content_self false
    have hcomputed : r.content false = v.content false := System.computed_content hkept
    refine .swap _ _ _ rfl rfl ⟨by decide +kernel, by decide +kernel⟩ ?_
    rw [r.swapped_content_ne (by decide), hcomputed, hsaved]
    exact Option.some_ne_none _
  have hnone : Run (Step twoContexts) twoStart [] twoStart := .nil _
  have hone : Run (Step twoContexts) twoStart [.co_swap_make true 0x401000 1 2] t := .snoc hnone hmake
  have hentered := ((swap_continues hfresh hnone).2.2 true 0x401000 1 2 t hmake).2 [] t false v
    (.nil _) (by decide) hout
  have hsize : ssSize twoStart.cpu.mem (twoContexts.addr true) = 0x1000 := by decide +kernel
  have hsp : ssSp twoStart.cpu.mem (twoContexts.addr true) = 0x3000 := by decide +kernel
  rw [hsize, hsp] at hentered
  refine ⟨t, v, r, r.swapped true, hone, hout, hentered.1, .snoc (.nil _) huser, hback, ?_⟩
  exact (swap_continues hfresh hone).1 false true [.user m] v r true _ hout
    (.snoc (.nil _) ⟨huser, hkept⟩) (by decide) hback

end RocketCo.CoContext
