import Src32.Asm.Source
import Src32.Cpu.Execution

namespace Src32.Asm

open BitVec (ofInt)

/-!
# What the CPU decodes

The words of `enc_i` and `enc_r` are the instructions the assembler names.
-/

section Fields

variable (op : BitVec 6) (rd rs1 : BitVec 5) (imm : BitVec 16)

/-- An instruction with its four fields. -/
def pack : Word := op.setWidth 32 <<< 26 ||| rd.setWidth 32 <<< 21 ||| rs1.setWidth 32 <<< 16 ||| imm.setWidth 32

theorem getLsbD_pack (n : Nat) : (pack op rd rs1 imm).getLsbD n =
    if n < 16 then imm.getLsbD n else if n < 21 then rs1.getLsbD (n - 16) else if n < 26 then rd.getLsbD (n - 21)
    else if n < 32 then op.getLsbD (n - 26) else false := by
  unfold pack
  simp only [BitVec.getLsbD_or, BitVec.getLsbD_shiftLeft, BitVec.getLsbD_setWidth]
  have wide5 : ∀ {x : BitVec 5} {i : Nat}, 5 ≤ i -> x.getLsbD i = false := fun {x i} wide => BitVec.getLsbD_of_ge x i wide
  have wide16 : ∀ {x : BitVec 16} {i : Nat}, 16 ≤ i -> x.getLsbD i = false := fun {x i} wide => BitVec.getLsbD_of_ge x i wide
  rcases (by omega : n < 16 ∨ 16 ≤ n ∧ n < 21 ∨ 21 ≤ n ∧ n < 26 ∨ 26 ≤ n ∧ n < 32 ∨ 32 ≤ n) with
    first | ⟨least, most⟩ | ⟨least, most⟩ | ⟨least, most⟩ | last
  · grind
  · grind
  · grind
  · grind
  · grind

theorem pack_op : pack op rd rs1 imm >>> 26 = op.setWidth 32 := by
  apply BitVec.eq_of_getLsbD_eq
  intro n bound
  simp only [BitVec.getLsbD_ushiftRight, getLsbD_pack, BitVec.getLsbD_setWidth]
  have wide : 6 ≤ n -> op.getLsbD n = false := fun wide => BitVec.getLsbD_of_ge op n wide
  grind

theorem pack_rd : (pack op rd rs1 imm >>> 21).setWidth 5 = rd := by
  apply BitVec.eq_of_getLsbD_eq
  intro n bound
  simp only [BitVec.getLsbD_setWidth, BitVec.getLsbD_ushiftRight, getLsbD_pack]
  grind

theorem pack_rs1 : (pack op rd rs1 imm >>> 16).setWidth 5 = rs1 := by
  apply BitVec.eq_of_getLsbD_eq
  intro n bound
  simp only [BitVec.getLsbD_setWidth, BitVec.getLsbD_ushiftRight, getLsbD_pack]
  grind

theorem pack_imm : (pack op rd rs1 imm).setWidth 16 = imm := by
  apply BitVec.eq_of_getLsbD_eq
  intro n bound
  simp only [BitVec.getLsbD_setWidth, getLsbD_pack]
  grind

end Fields

theorem encI_pack (op : BitVec 6) (rd rs1 : BitVec 5) (imm : Int) : encI op.toNat rd rs1 imm = pack op rd rs1 (ofInt 16 imm) := by
  unfold encI pack
  rw [BitVec.ofNat_toNat]

theorem encR_pack (op : BitVec 6) (rd : BitVec 5) : encR op.toNat rd = pack op rd 0 0 := by
  unfold encR pack
  rw [BitVec.ofNat_toNat]
  simp

/-- The instruction of a branch. -/
def BranchOp.instruction (rs1 rs2 : BitVec 5) (offset : BitVec 16) : BranchOp -> Cpu.Instruction
  | beq => .beq rs1 rs2 offset
  | bne => .bne rs1 rs2 offset
  | jmp => .jmp offset
  | jal => .jal offset
  | jmps => .jmps offset
  | jals => .jals offset

theorem decode_branch (op : BranchOp) (rs1 rs2 : BitVec 5) (offset : Int) :
    Cpu.decode (if op.conditional then encI op.opcode rs2 rs1 offset else encI op.opcode 0 0 offset) =
      op.instruction rs1 rs2 (ofInt 16 offset) := by
  cases op with
  | beq =>
    change Cpu.decode (encI (0x07 : BitVec 6).toNat rs2 rs1 offset) = _
    rw [encI_pack]
    unfold Cpu.decode
    simp only [pack_op, pack_rd, pack_rs1, pack_imm]
    rfl
  | bne =>
    change Cpu.decode (encI (0x08 : BitVec 6).toNat rs2 rs1 offset) = _
    rw [encI_pack]
    unfold Cpu.decode
    simp only [pack_op, pack_rd, pack_rs1, pack_imm]
    rfl
  | jmp =>
    change Cpu.decode (encI (0x09 : BitVec 6).toNat 0 0 offset) = _
    rw [encI_pack]
    unfold Cpu.decode
    simp only [pack_op, pack_imm]
    rfl
  | jal =>
    change Cpu.decode (encI (0x0A : BitVec 6).toNat 0 0 offset) = _
    rw [encI_pack]
    unfold Cpu.decode
    simp only [pack_op, pack_imm]
    rfl
  | jmps =>
    change Cpu.decode (encI (0x1D : BitVec 6).toNat 0 0 offset) = _
    rw [encI_pack]
    unfold Cpu.decode
    simp only [pack_op, pack_imm]
    rfl
  | jals =>
    change Cpu.decode (encI (0x1E : BitVec 6).toNat 0 0 offset) = _
    rw [encI_pack]
    unfold Cpu.decode
    simp only [pack_op, pack_imm]
    rfl

theorem decode_high (imm : Int) : Cpu.decode (encI 0x3D 14 0 imm) = .ldih 14 (ofInt 16 imm) := by
  change Cpu.decode (encI (0x3D : BitVec 6).toNat 14 0 imm) = _
  rw [encI_pack]
  unfold Cpu.decode
  simp only [pack_op, pack_rd, pack_imm]
  rfl

theorem decode_low (imm : Int) : Cpu.decode (encI 0x3C 14 0 imm) = .ldil 14 (ofInt 16 imm) := by
  change Cpu.decode (encI (0x3C : BitVec 6).toNat 14 0 imm) = _
  rw [encI_pack]
  unfold Cpu.decode
  simp only [pack_op, pack_rd, pack_imm]
  rfl

theorem decode_jump (link : Bool) : Cpu.decode (encR (if link then 0x21 else 0x0B) 14) = if link then .jalr 14 else .jr 14 := by
  cases link with
  | false =>
    change Cpu.decode (encR (0x0B : BitVec 6).toNat 14) = _
    rw [encR_pack]
    unfold Cpu.decode
    simp only [pack_op, pack_rd]
    rfl
  | true =>
    change Cpu.decode (encR (0x21 : BitVec 6).toNat 14) = _
    rw [encR_pack]
    unfold Cpu.decode
    simp only [pack_op, pack_rd]
    rfl

/-! ## Loaded words -/

/-- The word the CPU fetches. -/
def wordAt (memory : Word -> Byte) (a : Word) : Word := Word.ofBytes (memory a) (memory (a + 1)) (memory (a + 2)) (memory (a + 3))

/-- The bytes lie in the memory from an address on. -/
def HoldsAt (memory : Word -> Byte) (address : Int) (bytes : List Byte) : Prop :=
  ∀ k b, bytes[k]? = some b -> memory (ofInt 32 (address + (k : Nat))) = b

theorem wordAt_be32 {memory : Word -> Byte} {address : Int} {w : Word} (holds : HoldsAt memory address (be32 w)) :
    wordAt memory (ofInt 32 address) = w := by
  have place : ∀ k : Nat, ofInt 32 (address + (k : Int)) = ofInt 32 address + BitVec.ofNat 32 k := by
    intro k
    rw [BitVec.ofInt_add]
    rfl
  have zero := holds 0 _ rfl
  have one := holds 1 _ rfl
  have two := holds 2 _ rfl
  have three := holds 3 _ rfl
  rw [place] at zero one two three
  unfold wordAt
  rw [show ofInt 32 address = ofInt 32 address + BitVec.ofNat 32 0 from (BitVec.add_zero _).symm, zero]
  rw [show ofInt 32 address + BitVec.ofNat 32 0 = ofInt 32 address from BitVec.add_zero _]
  rw [show (1 : Word) = BitVec.ofNat 32 1 from rfl, show (2 : Word) = BitVec.ofNat 32 2 from rfl, show (3 : Word) = BitVec.ofNat 32 3 from rfl,
    one, two, three]
  exact Word.ofBytes_bytes w

end Src32.Asm
