import Src32.Cpu.Supervisor
import Src32.Machine.Bytes

namespace Src32.Backend

open Cpu
open BitVec (ofNat toNat_ofNat)

/-!
# The trap stub

`emit_ctx_stub` of the backend: the assembly that saves the trapped context,
calls `kernel_trap` and resumes the frame it returns.  The listing is cut at its
branches and labels; `stub` puts the pieces together, and the numbers in the
branches are the distances between them.
-/

/-- The addresses that the listing refers to. -/
structure Labels where
  /-- `__llvm_src32_ctx_entry`. -/
  entry : Word
  /-- `cpt32_ctx_current`. -/
  current : Word
  /-- `cpt32_trap_depth`. -/
  depth : Word
  stackTop : Word
  /-- `kernel_trap`. -/
  trap : Word
  /-- `kernel_panic`. -/
  panic : Word

/-! ## Instructions -/

/-- `imm`: a register gets a constant. -/
def imm (reg : Nat) (value : Word) : List Instruction :=
  [.ldih (ofNat 5 reg) ((value >>> 16).setWidth 16), .ldil (ofNat 5 reg) (value.setWidth 16)]

def addi (rd rs1 : Nat) (value : BitVec 16) : Instruction := .addi (ofNat 5 rd) (ofNat 5 rs1) value

def add (rd rs1 rs2 : Nat) : Instruction := .add (ofNat 5 rd) (ofNat 5 rs1) (ofNat 5 rs2)

def and_ (rd rs1 rs2 : Nat) : Instruction := .and (ofNat 5 rd) (ofNat 5 rs1) (ofNat 5 rs2)

def st (rd base : Nat) (offset : BitVec 16) : Instruction := .st (ofNat 5 rd) (ofNat 5 base) offset

def ld (rd base : Nat) (offset : BitVec 16) : Instruction := .ld (ofNat 5 rd) (ofNat 5 base) offset

def mfsr (rd sr : Nat) : Instruction := .mfsr (ofNat 5 rd) (ofNat 16 sr)

def mtsr (sr rs : Nat) : Instruction := .mtsr (ofNat 5 rs) (ofNat 16 sr)

/-- The offset of word `i` of a frame. -/
def slot (i : Nat) : BitVec 16 := ofNat 16 (4 * i)

/-- A forward branch past `n` instructions. -/
def ahead (n : Nat) : BitVec 16 := ofNat 16 (4 * n)

/-! ## Frames -/

/-- Words of a frame: CAUSE, R1 to R31, `_CTX_EPC` and `_CTX_STATUS`. -/
def ctxCause : Nat := 0
def ctxEpc : Nat := 32
def ctxStatus : Nat := 33
def frameWords : Nat := 34

/-- `_STATUS_RESTORED`: PIE, PU and PSM. -/
def statusRestored : BitVec 16 := 0x1A

def srUfp : Nat := 0x09

/-- The registers saved by one store each: R3 to R27 and R31. -/
def savedRegisters : List Nat := List.range' 3 25 ++ [31]

/-- The registers loaded likewise: R2 to R27 and R31. -/
def loadedRegisters : List Nat := List.range' 2 26 ++ [31]

def storeRegisters (list : List Nat) : List Instruction := list.map fun r => st r 1 (slot r)

def loadRegisters (list : List Nat) : List Instruction := list.map fun r => ld r 1 (slot r)

/-! ## Saving -/

/-- Two words below the stack are scratch; then the depth is looked at. -/
def Labels.opening (k : Labels) : List Instruction :=
  [addi 28 28 (-8), st 1 28 0, st 2 28 (slot 1)] ++ imm 1 k.depth ++ [ld 2 1 0]

/-- The frame is the current one. -/
def Labels.choosing (k : Labels) : List Instruction := imm 1 k.current ++ [ld 1 1 0]

/-- R1 and R2 come from the scratch words. -/
def savingScratch : List Instruction :=
  [ld 2 28 0, st 2 1 (slot 1), ld 2 28 (slot 1), st 2 1 (slot 2), addi 28 28 8]

/-- CAUSE, EPC and STATUS, and the PU bit in R3. -/
def savingState : List Instruction :=
  [mfsr 2 srCause, st 2 1 (slot ctxCause), mfsr 2 srEpc, st 2 1 (slot ctxEpc), mfsr 2 srStatus,
    st 2 1 (slot ctxStatus), addi 3 0 8, and_ 3 2 3]

/-- A trap from user mode: the banked registers are system registers. -/
def savingUser : List Instruction :=
  [mfsr 2 srUsp, st 2 1 (slot 28), mfsr 2 srUfp, st 2 1 (slot 29), mfsr 2 srUgp, st 2 1 (slot 30)]

/-- A trap from supervisor code. -/
def savingSupervisor : List Instruction := storeRegisters [28, 29, 30]

/-! ## Calling -/

/-- The depth is 1 and the frame the argument of `kernel_trap`, on a fresh stack. -/
def Labels.calling (k : Labels) : List Instruction :=
  imm 2 k.depth ++ [addi 3 0 1, st 3 2 0] ++ imm 28 k.stackTop ++ [add 29 0 0, addi 28 28 (-8), st 1 28 0] ++
    imm 12 k.trap

/-- The frame returned is current and the depth 0. -/
def Labels.returning (k : Labels) : List Instruction := imm 2 k.current ++ [st 1 2 0] ++ imm 2 k.depth ++ [st 0 2 0]

/-! ## Restoring -/

/-- EPC and the bits of STATUS, and the PU bit in R3. -/
def restoringState : List Instruction :=
  [ld 2 1 (slot ctxEpc), mtsr srEpc 2, ld 2 1 (slot ctxStatus), addi 3 0 statusRestored, and_ 2 2 3,
    mtsr srStatus 2, addi 3 0 8, and_ 3 2 3]

def Labels.restoringUser (k : Labels) : List Instruction :=
  [ld 2 1 (slot 28), mtsr srUsp 2, ld 2 1 (slot 29), mtsr srUfp 2, ld 2 1 (slot 30), mtsr srUgp 2] ++
    imm 28 k.stackTop

/-- Supervisor code keeps the address of the stub in R30. -/
def restoringSupervisor : List Instruction := loadRegisters [28, 29]

/-- R1 holds the frame, so it comes last. -/
def loading : List Instruction := loadRegisters loadedRegisters ++ [ld 1 1 (slot 1)]

/-- A trap while the kernel runs. -/
def Labels.panicking (k : Labels) : List Instruction :=
  [mfsr 1 srCause, mfsr 2 srEpc, addi 28 28 (-8), st 1 28 0, st 2 28 (slot 1)] ++ imm 12 k.panic

/-! ## The listing -/

/-- Up to the call of `kernel_trap`. -/
def Labels.front (k : Labels) : List Instruction :=
  k.opening ++ [.bne 2 0 (ahead 120)] ++ k.choosing ++ storeRegisters savedRegisters ++ savingScratch ++ savingState ++
    [.beq 3 0 (ahead 7)] ++ savingUser ++ [.jmp (ahead 3)] ++ savingSupervisor ++ k.calling ++ [.jalr 12]

/-- From its return on. -/
def Labels.back (k : Labels) : List Instruction :=
  k.returning ++ restoringState ++ [.beq 3 0 (ahead 9)] ++ k.restoringUser ++ [.jmp (ahead 2)] ++
    restoringSupervisor ++ loading ++ [.iret]

def Labels.stub (k : Labels) : List Instruction := k.front ++ k.back ++ k.panicking ++ [.jalr 12, .halt, .jmp (-8)]

/-- Where instruction `n` of the listing lies. -/
def Labels.place (k : Labels) (n : Nat) : Word := k.entry + ofNat 32 (4 * n)

/-! ## One instruction -/

/-- Word `i` of the frame at `f`. -/
def slotAt (f : Word) (i : Nat) : Word := f + ofNat 32 (4 * i)

section Effects

variable {s : Supervisor} {rest : List Instruction} {rd rs1 rs2 base sr : Nat}

theorem field_toNat {n : Nat} (inside : n < 32) : (ofNat 5 n).toNat = n := by
  rw [toNat_ofNat]
  exact Nat.mod_eq_of_lt inside

theorem sr_toNat {n : Nat} (inside : n < 65536) : (ofNat 16 n).toNat = n := by
  rw [toNat_ofNat]
  exact Nat.mod_eq_of_lt inside

theorem addSigned_slot (f : Word) {i : Nat} (small : i < 8192) : Machine.addSigned f (slot i) = slotAt f i := by
  unfold Machine.addSigned slot slotAt
  congr 1
  have positive : (ofNat 16 (4 * i)).msb = false := by
    rw [BitVec.msb_eq_false_iff_two_mul_lt, toNat_ofNat]
    omega
  rw [BitVec.signExtend_eq_setWidth_of_msb_false positive]
  refine BitVec.eq_of_toNat_eq ?_
  rw [BitVec.toNat_setWidth, toNat_ofNat, toNat_ofNat]
  omega

theorem addSigned_zero (a : Word) : Machine.addSigned a 0#16 = a := BitVec.add_zero a

theorem effects_cons (insn : Instruction) (s : Supervisor) (rest : List Instruction) :
    s.effects (insn :: rest) = (s.effect insn).bind fun t => t.effects rest := rfl

theorem effects_imm {reg : Nat} (inside : reg < 32) (positive : 0 < reg) (value : Word) :
    s.effects (imm reg value ++ rest) = (s.set reg value).effects rest := by
  change ((s.effect _).bind fun t => (t.effect _).bind fun u => u.effects rest) = _
  simp only [Supervisor.effect, Option.bind_some, field_toNat inside]
  congr 1
  unfold Supervisor.set
  rw [if_neg positive.ne', if_neg positive.ne', if_neg positive.ne']
  dsimp only
  rw [Function.update_self, Function.update_idem]
  rw [Word.halves]

theorem effects_addi (dest : rd < 32) (source : rs1 < 32) {imm : BitVec 16} {v : Word}
    (sum : s.reg rs1 + imm.signExtend 32 = v) : s.effects (addi rd rs1 imm :: rest) = (s.set rd v).effects rest := by
  rw [effects_cons]
  unfold addi
  simp only [Supervisor.effect, Option.bind_some, field_toNat dest, field_toNat source, sum]

theorem effects_add (dest : rd < 32) (first : rs1 < 32) (second : rs2 < 32) {v : Word}
    (sum : s.reg rs1 + s.reg rs2 = v) : s.effects (add rd rs1 rs2 :: rest) = (s.set rd v).effects rest := by
  rw [effects_cons]
  unfold add
  simp only [Supervisor.effect, Option.bind_some, field_toNat dest, field_toNat first, field_toNat second, sum]

theorem effects_and (dest : rd < 32) (first : rs1 < 32) (second : rs2 < 32) {v : Word}
    (both : s.reg rs1 &&& s.reg rs2 = v) : s.effects (and_ rd rs1 rs2 :: rest) = (s.set rd v).effects rest := by
  rw [effects_cons]
  unfold and_
  simp only [Supervisor.effect, Option.bind_some, field_toNat dest, field_toNat first, field_toNat second, both]

theorem effects_st (source : rd < 32) (place : base < 32) {offset : BitVec 16} {a : Word}
    (there : Machine.addSigned (s.reg base) offset = a) (usable : Usable a) :
    s.effects (st rd base offset :: rest) = (s.put a (s.reg rd)).effects rest := by
  rw [effects_cons]
  unfold st
  simp only [Supervisor.effect, field_toNat source, field_toNat place, there, if_pos usable, Option.bind_some]

theorem effects_ld (dest : rd < 32) (place : base < 32) {offset : BitVec 16} {a : Word}
    (there : Machine.addSigned (s.reg base) offset = a) (usable : Usable a) :
    s.effects (ld rd base offset :: rest) = (s.set rd (s.word a)).effects rest := by
  rw [effects_cons]
  unfold ld
  simp only [Supervisor.effect, field_toNat dest, field_toNat place, there, if_pos usable, Option.bind_some]

theorem effects_mfsr (dest : rd < 32) (inside : sr < 65536) {v : Word} (read : s.sys.readSr sr noRegisters = some v) :
    s.effects (mfsr rd sr :: rest) = (s.set rd v).effects rest := by
  rw [effects_cons]
  unfold mfsr
  simp only [Supervisor.effect, field_toNat dest, sr_toNat inside, read, Option.map_some, Option.bind_some]

theorem effects_mtsr (source : rd < 32) (inside : sr < 65536) {sys : SystemState} {reg : Registers}
    (written : s.sys.writeSr sr (s.reg rd) noRegisters = some (sys, reg)) (masked : sys.ie = false) :
    s.effects (mtsr sr rd :: rest) = (s.withSys sys).effects rest := by
  rw [effects_cons]
  unfold mtsr
  simp only [Supervisor.effect, field_toNat source, sr_toNat inside, written, Option.bind_some, masked,
    Bool.false_eq_true, if_false]

end Effects

example : (Labels.front ⟨0, 0, 0, 0, 0, 0⟩).length = 72 := by decide

example : (Labels.back ⟨0, 0, 0, 0, 0, 0⟩).length = 55 := by decide

end Src32.Backend
