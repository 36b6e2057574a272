import Src32.Machine.Word

namespace Src32.Cpu

/-!
# Instructions

The instructions of the Normal and of the Short mode and their decoders, as
`cpu.rs` has them.  Register numbers are the fields of the encoding.
-/

/-- An instruction of the Normal mode. -/
inductive Instruction where
  | nop
  | ld (rd base : BitVec 5) (offset : BitVec 16)
  | st (rd base : BitVec 5) (offset : BitVec 16)
  | add (rd rs1 rs2 : BitVec 5)
  | addi (rd rs1 : BitVec 5) (imm : BitVec 16)
  | sub (rd rs1 rs2 : BitVec 5)
  | slt (rd rs1 rs2 : BitVec 5)
  | beq (rs1 rs2 : BitVec 5) (offset : BitVec 16)
  | bne (rs1 rs2 : BitVec 5) (offset : BitVec 16)
  | jmp (offset : BitVec 16)
  | jal (offset : BitVec 16)
  | jr (rd : BitVec 5)
  | jmps (offset : BitVec 16)
  | jals (offset : BitVec 16)
  | jrs (rd : BitVec 5)
  | jalr (rd : BitVec 5)
  | jalrs (rd : BitVec 5)
  | cpuid
  | halt
  | and (rd rs1 rs2 : BitVec 5)
  | or (rd rs1 rs2 : BitVec 5)
  | xor (rd rs1 rs2 : BitVec 5)
  | sll (rd rs1 rs2 : BitVec 5)
  | srl (rd rs1 rs2 : BitVec 5)
  | sla (rd rs1 rs2 : BitVec 5)
  | sra (rd rs1 rs2 : BitVec 5)
  | sltu (rd rs1 rs2 : BitVec 5)
  | mul (rd rs1 rs2 : BitVec 5)
  | div (rd rs1 rs2 : BitVec 5)
  | mod (rd rs1 rs2 : BitVec 5)
  | mulh (rd rs1 rs2 : BitVec 5)
  | divu (rd rs1 rs2 : BitVec 5)
  | ldb (rd base : BitVec 5) (offset : BitVec 16)
  | ldh (rd base : BitVec 5) (offset : BitVec 16)
  | stb (rd base : BitVec 5) (offset : BitVec 16)
  | sth (rd base : BitVec 5) (offset : BitVec 16)
  | ldil (rd : BitVec 5) (imm : BitVec 16)
  | ldih (rd : BitVec 5) (imm : BitVec 16)
  | unknown (raw : Word)
  | iret
  | syscall (imm : BitVec 16)
  | mfsr (rd : BitVec 5) (sr : BitVec 16)
  | mtsr (rs : BitVec 5) (sr : BitVec 16)
  deriving DecidableEq

/-- An instruction of the Short mode. -/
inductive ShortInstruction where
  | mov (rd rs1 : BitVec 4)
  | add (rd rs1 rs2 : BitVec 4)
  | addi (rd : BitVec 4) (imm : BitVec 8)
  | ld (rd rs1 : BitVec 4)
  | st (rd rs1 : BitVec 4)
  | bz (rd : BitVec 4) (offset : BitVec 8)
  | bnz (rd : BitVec 4) (offset : BitVec 8)
  | jr (rd : BitVec 4)
  | jal (offset : BitVec 16)
  | ldi (rd : BitVec 4) (imm : BitVec 8)
  | ret
  | unknown (raw : BitVec 16)
  deriving DecidableEq

/-- The instruction the CPU works on. -/
inductive PendingInstruction where
  | rawNormal (raw : Word)
  | rawShort (raw : BitVec 16)
  | normal (insn : Instruction)
  | short (insn : ShortInstruction)
  deriving DecidableEq

/-- `decode`. -/
def decode (raw : Word) : Instruction :=
  let rd : BitVec 5 := (raw >>> 21).setWidth 5
  let rs1 : BitVec 5 := (raw >>> 16).setWidth 5
  let rs2 : BitVec 5 := (raw >>> 11).setWidth 5
  let imm : BitVec 16 := raw.setWidth 16
  match (raw >>> 26).toNat with
  | 0x00 => .nop
  | 0x01 => .ld rd rs1 imm
  | 0x02 => .st rd rs1 imm
  | 0x03 => .add rd rs1 rs2
  | 0x04 => .addi rd rs1 imm
  | 0x05 => .sub rd rs1 rs2
  | 0x06 => .slt rd rs1 rs2
  | 0x07 => .beq rs1 rd imm
  | 0x08 => .bne rs1 rd imm
  | 0x09 => .jmp imm
  | 0x0A => .jal imm
  | 0x0B => .jr rd
  | 0x0C => .and rd rs1 rs2
  | 0x0D => .or rd rs1 rs2
  | 0x0E => .xor rd rs1 rs2
  | 0x0F => .sll rd rs1 rs2
  | 0x10 => .srl rd rs1 rs2
  | 0x11 => .sla rd rs1 rs2
  | 0x12 => .sra rd rs1 rs2
  | 0x13 => .ldb rd rs1 imm
  | 0x14 => .ldh rd rs1 imm
  | 0x15 => .stb rd rs1 imm
  | 0x16 => .sth rd rs1 imm
  | 0x17 => .sltu rd rs1 rs2
  | 0x18 => .mul rd rs1 rs2
  | 0x19 => .div rd rs1 rs2
  | 0x1A => .mod rd rs1 rs2
  | 0x1B => .mulh rd rs1 rs2
  | 0x1C => .divu rd rs1 rs2
  | 0x1D => .jmps imm
  | 0x1E => .jals imm
  | 0x1F => .jrs rd
  | 0x20 => .iret
  | 0x21 => .jalr rd
  | 0x22 => .jalrs rd
  | 0x23 => .syscall imm
  | 0x24 => .mfsr rd imm
  | 0x25 => .mtsr rs1 imm
  | 0x3C => .ldil rd imm
  | 0x3D => .ldih rd imm
  | 0x3E => .cpuid
  | 0x3F => .halt
  | _ => .unknown raw

/-- `decode_short`. -/
def decodeShort (raw : BitVec 16) : ShortInstruction :=
  let rd : BitVec 4 := (raw >>> 8).setWidth 4
  let rs1 : BitVec 4 := (raw >>> 4).setWidth 4
  let rs2 : BitVec 4 := raw.setWidth 4
  let imm8 : BitVec 8 := raw.setWidth 8
  let imm12 : BitVec 16 := (raw.setWidth 12).signExtend 16
  match (raw >>> 12).toNat with
  | 0x0 => .mov rd rs1
  | 0x1 => .add rd rs1 rs2
  | 0x2 => .addi rd imm8
  | 0x3 => .ld rd rs1
  | 0x4 => .st rd rs1
  | 0x5 => .bz rd imm8
  | 0x6 => .bnz rd imm8
  | 0x7 => .jr rd
  | 0x8 => .jal imm12
  | 0x9 => .ldi rd imm8
  | 0xF => .ret
  | _ => .unknown raw

namespace Instruction

/-- `is_privileged`: it raises a privileged-instruction exception in U mode. -/
def isPrivileged : Instruction -> Bool
  | halt | iret | mfsr .. | mtsr .. => true
  | _ => false

end Instruction

namespace PendingInstruction

/-- `is_load`. -/
def isLoad : PendingInstruction -> Bool
  | normal (.ld ..) | normal (.ldb ..) | normal (.ldh ..) | short (.ld ..) => true
  | _ => false

/-- `is_store`. -/
def isStore : PendingInstruction -> Bool
  | normal (.st ..) | normal (.stb ..) | normal (.sth ..) | short (.st ..) => true
  | _ => false

/-- `is_mul`. -/
def isMul : PendingInstruction -> Bool
  | normal (.mul ..) | normal (.mulh ..) => true
  | _ => false

/-- `is_div`. -/
def isDiv : PendingInstruction -> Bool
  | normal (.div ..) | normal (.divu ..) | normal (.mod ..) => true
  | _ => false

end PendingInstruction
end Src32.Cpu
