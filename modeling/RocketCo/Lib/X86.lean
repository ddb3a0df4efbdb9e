/-
  RocketCo.Lib.X86 — the few 64-bit instructions that move words between registers and memory.

  A machine is its general registers, a byte-addressed memory and the instruction pointer.  Code is a
  list of instructions that runs from its first to its last; only `ret` says where to go on.

  A structure of words at address `a` is read with `field`, and `writeFields` stores some of its fields
  one after the other:

    • `field_writeFields` — each field stored is read back,
    • `writeFields_outside` — nothing else changes,
    • `exec_stores`, `exec_loads` — registers stored into a structure, and loaded from it.
-/
import RocketCo.Lib.Bytes
import Mathlib.Logic.Function.Basic
import Mathlib.Data.List.Nodup

namespace RocketCo.Lib.X86

/-! ## §1. Machines. -/

/-- The contents of a 64-bit register. -/
abbrev Word := BitVec 64

/-- The general registers. -/
inductive Reg where
  | rax | rbx | rcx | rdx | rsi | rdi | rbp | rsp
  | r8 | r9 | r10 | r11 | r12 | r13 | r14 | r15
  deriving DecidableEq

/-- Registers, memory and instruction pointer; flags and vector registers are left out. -/
structure Machine where
  gpr : Reg → Word
  mem : Mem
  rip : Word

/-- The eight bytes at `a`, the lowest one first. -/
def readWord (mem : Mem) (a : Nat) : Word := BitVec.ofNat 64 (load mem a 8)

/-- The word is stored at `a`, the lowest byte first. -/
def writeWord (mem : Mem) (a : Nat) (v : Word) : Mem := store mem a 8 v.toNat

namespace Machine

/-- A register gets a new value. -/
def set (m : Machine) (r : Reg) (v : Word) : Machine :=
  { m with gpr := Function.update m.gpr r v }

/-- The effective address `disp(base)`. -/
def ea (m : Machine) (disp : Nat) (base : Reg) : Nat := (m.gpr base + BitVec.ofNat 64 disp).toNat

@[simp] theorem set_gpr_same (m : Machine) (r : Reg) (v : Word) : (m.set r v).gpr r = v :=
  Function.update_self _ _ _

@[simp] theorem set_gpr_ne (m : Machine) {r r' : Reg} (v : Word) (h : r' ≠ r) :
    (m.set r v).gpr r' = m.gpr r' := Function.update_of_ne h _ _

end Machine

/-! ## §2. Instructions. -/

/-- The instructions, in AT&T order of operands. -/
inductive Instr where
  /-- `leaq disp(base), dst` -/
  | leaq (disp : Nat) (base dst : Reg)
  /-- `movq src, disp(base)` -/
  | store (src : Reg) (disp : Nat) (base : Reg)
  /-- `movq disp(base), dst` -/
  | load (disp : Nat) (base dst : Reg)
  /-- `xorq src, dst` -/
  | xorq (src dst : Reg)
  /-- `pushq disp(base)` -/
  | pushq (disp : Nat) (base : Reg)
  | ret

/-- One instruction.  Only `ret` looks at the instruction pointer. -/
def Instr.run (m : Machine) : Instr → Machine
  | .leaq disp base dst => m.set dst (m.gpr base + BitVec.ofNat 64 disp)
  | .store src disp base => { m with mem := writeWord m.mem (m.ea disp base) (m.gpr src) }
  | .load disp base dst => m.set dst (readWord m.mem (m.ea disp base))
  | .xorq src dst => m.set dst (m.gpr dst ^^^ m.gpr src)
  | .pushq disp base =>
      let v := readWord m.mem (m.ea disp base)
      let sp := m.gpr .rsp - 8
      { m.set .rsp sp with mem := writeWord m.mem sp.toNat v }
  | .ret =>
      { m.set .rsp (m.gpr .rsp + 8) with rip := readWord m.mem (m.gpr .rsp).toNat }

/-- The machine behind the last instruction. -/
def Machine.exec (m : Machine) : List Instr → Machine
  | [] => m
  | i :: code => (i.run m).exec code

/-- Code runs one part behind the other. -/
theorem Machine.exec_append (m : Machine) (code code' : List Instr) :
    m.exec (code ++ code') = (m.exec code).exec code' := by
  induction code generalizing m with
  | nil => rfl
  | cons i code ih =>
      show (i.run m).exec (code ++ code') = _
      rw [ih]
      rfl

@[simp] theorem Machine.exec_nil (m : Machine) : m.exec [] = m := rfl

@[simp] theorem Machine.exec_cons (m : Machine) (i : Instr) (code : List Instr) :
    m.exec (i :: code) = (i.run m).exec code := rfl

section Steps

variable {m : Machine} {base dst : Reg} {disp a : Nat} {v sp : Word}

/-- A displacement into a structure does not wrap around. -/
theorem Machine.ea_fits (hbase : m.gpr base = BitVec.ofNat 64 a) (hfits : a + disp < 2 ^ 64) :
    m.ea disp base = a + disp := by
  unfold Machine.ea
  rw [hbase, ← BitVec.ofNat_add, BitVec.toNat_ofNat, Nat.mod_eq_of_lt hfits]

/-- An address is computed from the base, without a look at memory. -/
theorem run_leaq (h : m.gpr base = v) :
    Instr.run m (.leaq disp base dst) = m.set dst (v + BitVec.ofNat 64 disp) := by
  show m.set dst (m.gpr base + BitVec.ofNat 64 disp) = _
  rw [h]

/-- A word is loaded from a structure that lies below `2 ^ 64`. -/
theorem run_load (hbase : m.gpr base = BitVec.ofNat 64 a) (hfits : a + disp < 2 ^ 64) :
    Instr.run m (.load disp base dst) = m.set dst (readWord m.mem (a + disp)) := by
  show m.set dst (readWord m.mem (m.ea disp base)) = _
  rw [Machine.ea_fits hbase hfits]

/-- A word of a structure is pushed on the stack. -/
theorem run_pushq (hsp : m.gpr .rsp = sp + 8) (hbase : m.gpr base = BitVec.ofNat 64 a)
    (hfits : a + disp < 2 ^ 64) :
    Instr.run m (.pushq disp base) =
      { m.set .rsp sp with mem := writeWord m.mem sp.toNat (readWord m.mem (a + disp)) } := by
  show { m.set .rsp (m.gpr .rsp - 8) with
    mem := writeWord m.mem (m.gpr .rsp - 8).toNat (readWord m.mem (m.ea disp base)) } = _
  rw [Machine.ea_fits hbase hfits, hsp, BitVec.add_sub_cancel]

/-- The return address is popped and jumped to. -/
theorem run_ret (hsp : m.gpr .rsp = sp) :
    Instr.run m .ret = { m.set .rsp (sp + 8) with rip := readWord m.mem sp.toNat } := by
  show { m.set .rsp (m.gpr .rsp + 8) with rip := readWord m.mem (m.gpr .rsp).toNat } = _
  rw [hsp]

end Steps

/-! ## §3. Words in memory. -/

/-- A word that was written is read back, ... -/
theorem readWord_same (mem : Mem) (a : Nat) (v : Word) : readWord (writeWord mem a v) a = v := by
  have hlt : v.toNat < 256 ^ 8 := v.isLt
  unfold readWord writeWord
  rw [load_store_fits _ _ _ hlt, BitVec.ofNat_toNat, BitVec.setWidth_eq]

/-- ... and one that does not overlap with it stays. -/
theorem readWord_disjoint (mem : Mem) {a b : Nat} (v : Word) (h : b + 8 ≤ a ∨ a + 8 ≤ b) :
    readWord (writeWord mem a v) b = readWord mem b := by
  unfold readWord writeWord
  rw [load_store_disjoint mem v.toNat h]

/-- A word depends on its eight bytes only. -/
theorem readWord_congr {mem mem' : Mem} {a : Nat} (h : AgreeOn mem mem' a 8) :
    readWord mem' a = readWord mem a := by
  unfold readWord
  rw [load_congr h]

/-- Word `i` of the structure at `a`. -/
def field (mem : Mem) (a i : Nat) : Word := readWord mem (a + 8 * i)

/-- Fields of the structure at `a` are stored, first to last. -/
def writeFields (mem : Mem) (a : Nat) : List (Nat × Word) → Mem
  | [] => mem
  | p :: ps => writeFields (writeWord mem (a + 8 * p.1) p.2) a ps

/-- Fields are stored one part behind the other. -/
theorem writeFields_append (mem : Mem) (a : Nat) (ps qs : List (Nat × Word)) :
    writeFields mem a (ps ++ qs) = writeFields (writeFields mem a ps) a qs := by
  induction ps generalizing mem with
  | nil => rfl
  | cons p ps ih =>
      show writeFields (writeWord mem (a + 8 * p.1) p.2) a (ps ++ qs) = _
      rw [ih]
      rfl

/-- A store to another field does not touch this one. -/
theorem field_other (mem : Mem) (a : Nat) {i j : Nat} (v : Word) (h : i ≠ j) :
    field (writeWord mem (a + 8 * j) v) a i = field mem a i := by
  apply readWord_disjoint
  omega

/-- A field that is not among those stored stays. -/
theorem field_writeFields_other (a : Nat) {i : Nat} (ps : List (Nat × Word)) (mem : Mem)
    (h : i ∉ ps.map Prod.fst) : field (writeFields mem a ps) a i = field mem a i := by
  induction ps generalizing mem with
  | nil => rfl
  | cons p ps ih =>
      simp only [List.map_cons, List.mem_cons, not_or] at h
      show field (writeFields (writeWord mem (a + 8 * p.1) p.2) a ps) a i = _
      rw [ih _ h.2, field_other mem a p.2 h.1]

/-- **A field that was stored is read back.** -/
theorem field_writeFields (a : Nat) {i : Nat} {v : Word} (ps : List (Nat × Word)) (mem : Mem)
    (hnd : (ps.map Prod.fst).Nodup) (h : (i, v) ∈ ps) :
    field (writeFields mem a ps) a i = v := by
  induction ps generalizing mem with
  | nil => cases h
  | cons p ps ih =>
      rw [List.map_cons, List.nodup_cons] at hnd
      show field (writeFields (writeWord mem (a + 8 * p.1) p.2) a ps) a i = v
      cases List.mem_cons.mp h with
      | inl heq =>
          rw [← heq] at hnd ⊢
          rw [field_writeFields_other a ps _ hnd.1]
          exact readWord_same _ _ _
      | inr hin => exact ih _ hnd.2 hin

/-- **Bytes outside of the structure stay.** -/
theorem writeFields_outside (a n : Nat) (ps : List (Nat × Word)) (mem : Mem)
    (hn : ∀ p ∈ ps, p.1 < n) {x : Nat} (hx : x < a ∨ a + 8 * n ≤ x) :
    writeFields mem a ps x = mem x := by
  induction ps generalizing mem with
  | nil => rfl
  | cons p ps ih =>
      have hp := hn p List.mem_cons_self
      show writeFields (writeWord mem (a + 8 * p.1) p.2) a ps x = mem x
      rw [ih _ fun q hq => hn q (List.mem_cons_of_mem _ hq)]
      exact store_outside mem _ (by omega)

/-! ## §4. Registers into a structure and out of it. -/

/-- Fields of the structure at `a` are loaded into registers, first to last. -/
def Machine.loadFields (m : Machine) (a : Nat) : List (Nat × Reg) → Machine
  | [] => m
  | p :: rs => (m.set p.2 (field m.mem a p.1)).loadFields a rs

/-- Loads do not write to memory. -/
@[simp] theorem Machine.loadFields_mem (m : Machine) (a : Nat) (rs : List (Nat × Reg)) :
    (m.loadFields a rs).mem = m.mem := by
  induction rs generalizing m with
  | nil => rfl
  | cons p rs ih => exact ih _

/-- A register that is not loaded stays. -/
theorem Machine.loadFields_other (m : Machine) (a : Nat) {r : Reg} (rs : List (Nat × Reg))
    (h : r ∉ rs.map Prod.snd) : (m.loadFields a rs).gpr r = m.gpr r := by
  induction rs generalizing m with
  | nil => rfl
  | cons p rs ih =>
      simp only [List.map_cons, List.mem_cons, not_or] at h
      show ((m.set p.2 (field m.mem a p.1)).loadFields a rs).gpr r = _
      rw [ih _ h.2, m.set_gpr_ne _ h.1]

/-- **A register that was loaded holds its field.** -/
theorem Machine.loadFields_gpr (m : Machine) (a : Nat) {i : Nat} {r : Reg}
    (rs : List (Nat × Reg)) (hnd : (rs.map Prod.snd).Nodup) (h : (i, r) ∈ rs) :
    (m.loadFields a rs).gpr r = field m.mem a i := by
  induction rs generalizing m with
  | nil => cases h
  | cons p rs ih =>
      rw [List.map_cons, List.nodup_cons] at hnd
      show ((m.set p.2 (field m.mem a p.1)).loadFields a rs).gpr r = _
      cases List.mem_cons.mp h with
      | inl heq =>
          rw [← heq] at hnd ⊢
          rw [Machine.loadFields_other _ a rs hnd.1]
          exact m.set_gpr_same _ _
      | inr hin => exact ih _ hnd.2 hin

section Blocks

variable {m : Machine} {base : Reg} {a n : Nat}

/-- Each register is stored into its field of the structure at `base`. -/
def stores (base : Reg) (rs : List (Nat × Reg)) : List Instr :=
  rs.map fun p => .store p.2 (8 * p.1) base

/-- Each register is loaded from its field of the structure at `base`. -/
def loads (base : Reg) (rs : List (Nat × Reg)) : List Instr :=
  rs.map fun p => .load (8 * p.1) base p.2

/-- **A block of stores.** -/
theorem exec_stores (hbase : m.gpr base = BitVec.ofNat 64 a) (hfits : a + 8 * n ≤ 2 ^ 64)
    (rs : List (Nat × Reg)) (hn : ∀ p ∈ rs, p.1 < n) :
    m.exec (stores base rs) =
      { m with mem := writeFields m.mem a (rs.map fun p => (p.1, m.gpr p.2)) } := by
  induction rs generalizing m with
  | nil => rfl
  | cons p rs ih =>
      have hp := hn p List.mem_cons_self
      show Machine.exec { m with mem := writeWord m.mem (m.ea (8 * p.1) base) (m.gpr p.2) }
        (stores base rs) = _
      rw [ih (by exact hbase) fun q hq => hn q (List.mem_cons_of_mem _ hq)]
      rw [Machine.ea_fits hbase (by omega)]
      rfl

/-- **A block of loads**, none of them over the base register. -/
theorem exec_loads (hbase : m.gpr base = BitVec.ofNat 64 a) (hfits : a + 8 * n ≤ 2 ^ 64)
    (rs : List (Nat × Reg)) (hn : ∀ p ∈ rs, p.1 < n) (hover : ∀ p ∈ rs, p.2 ≠ base) :
    m.exec (loads base rs) = m.loadFields a rs := by
  induction rs generalizing m with
  | nil => rfl
  | cons p rs ih =>
      have hp := hn p List.mem_cons_self
      have hne := hover p List.mem_cons_self
      show Machine.exec (m.set p.2 (readWord m.mem (m.ea (8 * p.1) base))) (loads base rs) = _
      rw [Machine.ea_fits hbase (by omega)]
      rw [ih]
      · rfl
      · rw [m.set_gpr_ne _ hne.symm]
        exact hbase
      · exact fun q hq => hn q (List.mem_cons_of_mem _ hq)
      · exact fun q hq => hover q (List.mem_cons_of_mem _ hq)

end Blocks

end RocketCo.Lib.X86
