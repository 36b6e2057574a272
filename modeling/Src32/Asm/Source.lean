import Src32.Machine.Word

namespace Src32.Asm

/-!
# The assembler

`asm.py` behind its preprocessor, on lines whose label and operands are split off.
`assemble` gives branches that do not reach their target a trampoline, round by
round, and then emits the lines.
-/

/-! ## Operands -/

/-- The text of an operand: a name that a label may have, or any other text that is a number. -/
inductive Operand where
  | name (text : String)
  | number (value : Int)

/-- A digit of `int`. -/
def digit (c : Char) : Option Nat :=
  if '0' ≤ c ∧ c ≤ '9' then some (c.toNat - 48)
  else if 'a' ≤ c ∧ c ≤ 'f' then some (c.toNat - 87)
  else if 'A' ≤ c ∧ c ≤ 'F' then some (c.toNat - 55)
  else none

def digitsFrom (base : Nat) : Nat -> List Char -> Option Nat
  | value, [] => some value
  | value, c :: rest =>
    match digit c with
    | none => none
    | some d => if d < base then digitsFrom base (base * value + d) rest else none

def digits (base : Nat) (text : List Char) : Option Int :=
  if text = [] then none else (digitsFrom base 0 text).map Int.ofNat

/-- `parse_number` of a name: a name may be a number when it begins with an underscore. -/
def parseNumber (text : String) : Option Int :=
  let t := text.toList.filter fun c => c ≠ '_'
  if t.take 2 = ['0', 'x'] then digits 16 (t.drop 2)
  else if t.take 2 = ['0', 'b'] then digits 2 (t.drop 2)
  else digits 10 t

/-- `self.symbols`. -/
abbrev Symbols := List (String × Int)

/-- `parse_imm_or_label`. -/
def valueOf (symbols : Symbols) : Operand -> Option Int
  | .name text => (symbols.lookup text).or (parseNumber text)
  | .number value => some value

/-! ## Lines -/

/-- The kinds "B" and "J" of `OP_INFO`. -/
inductive BranchOp where
  | beq
  | bne
  | jmp
  | jal
  | jmps
  | jals
  deriving DecidableEq

namespace BranchOp

def opcode : BranchOp -> Nat
  | beq => 0x07
  | bne => 0x08
  | jmp => 0x09
  | jal => 0x0A
  | jmps => 0x1D
  | jals => 0x1E

/-- Kind "B". -/
def conditional : BranchOp -> Bool
  | beq => true
  | bne => true
  | _ => false

end BranchOp

/-- An operand `R!n`, or another. -/
inductive Target where
  | relative (offset : Int)
  | operand (o : Operand)

/-- What a line has behind its label. -/
inductive Body where
  | empty
  | org (address : Int)
  /-- `.PERM` and `.PROTECTED`. -/
  | mark
  /-- Data, and the instructions that are not branches of the Normal mode. -/
  | raw (size : Nat) (emit : Symbols -> Int -> Option (Vector Byte size))
  | branch (op : BranchOp) (rs1 rs2 : BitVec 5) (target : Target)
  /-- `LDIH R14` and `LDIL R14` of a trampoline. -/
  | load (high : Bool) (o : Operand)
  /-- `JR R14` and `JALR R14` of a trampoline. -/
  | jump (link : Bool)

structure Line where
  label : Option String
  body : Body

/-- `INSN_SIZE`. -/
def insnSize : Int := 4

/-- Where the next line lies. -/
def Body.advance (pc : Int) : Body -> Int
  | .empty => pc
  | .org address => address
  | .mark => pc
  | .raw size _ => pc + size
  | .branch .. => pc + insnSize
  | .load .. => pc + insnSize
  | .jump .. => pc + insnSize

/-- Where the lines end. -/
def reach (pc : Int) (lines : List Line) : Int := lines.foldl (fun pc line => line.body.advance pc) pc

/-! ## The first pass -/

/-- `pass1`, from `pc` on. -/
def pass1 : Int -> Symbols -> List Line -> Option Symbols
  | _, symbols, [] => some symbols
  | pc, symbols, line :: rest =>
    match line.label with
    | none => pass1 (line.body.advance pc) symbols rest
    | some text =>
      if (symbols.lookup text).isSome then none else pass1 (line.body.advance pc) ((text, pc) :: symbols) rest

/-- The offset fits 16 bits. -/
def Near (offset : Int) : Prop := -32768 ≤ offset ∧ offset ≤ 32767

instance (offset : Int) : Decidable (Near offset) := inferInstanceAs (Decidable (_ ∧ _))

/-- `_find_far_branches`, for one line. -/
def Body.far (symbols : Symbols) (pc : Int) : Body -> Bool
  | .branch _ _ _ (.operand o) =>
    match valueOf symbols o with
    | none => false
    | some address => !decide (Near (address - (pc + insnSize)))
  | _ => false

def anyFar (symbols : Symbols) : Int -> List Line -> Bool
  | _, [] => false
  | pc, line :: rest => line.body.far symbols pc || anyFar symbols (line.body.advance pc) rest

/-! ## Trampolines -/

def tagOf (n : Nat) : String := "__solc_far_tramp_" ++ toString n

def endTagOf (n : Nat) : String := tagOf n ++ "_end"

/-- The operands of `LDIH` and `LDIL` in a trampoline. -/
def loads (symbols : Symbols) : Operand -> Operand × Operand
  | .name text =>
    match symbols.lookup text with
    | some _ => (.name text, .name text)
    | none =>
      let value := ((parseNumber text).getD 0) % 4294967296
      (.number (value / 65536), .number (value % 65536))
  | .number v =>
    let value := v % 4294967296
    (.number (value / 65536), .number (value % 65536))

/-- The lines of a branch with its trampoline. -/
def trampoline (n : Nat) (high low : Operand) (line : Line) : List Line :=
  match line.body with
  | .branch op rs1 rs2 _ =>
    [⟨line.label, .branch op rs1 rs2 (.operand (.name (tagOf n)))⟩] ++
      (if op.conditional then [⟨none, .branch .jmp 0 0 (.operand (.name (endTagOf n)))⟩] else []) ++
      [⟨some (tagOf n), .empty⟩, ⟨none, .load true high⟩, ⟨none, .load false low⟩, ⟨none, .jump (op = .jal)⟩] ++
      (if op.conditional then [⟨some (endTagOf n), .empty⟩] else [])
  | _ => [line]

/-- The operand of a branch. -/
def Body.operandOf : Body -> Operand
  | .branch _ _ _ (.operand o) => o
  | _ => .number 0

/-- `_insert_trampolines`, with `far_counter`. -/
def insertTrampolines (symbols : Symbols) : Int -> Nat -> List Line -> Nat × List Line
  | _, n, [] => (n, [])
  | pc, n, line :: rest =>
    if line.body.far symbols pc then
      let operands := loads symbols line.body.operandOf
      let behind := insertTrampolines symbols (line.body.advance pc) (n + 1) rest
      (behind.1, trampoline (n + 1) operands.1 operands.2 line ++ behind.2)
    else
      let behind := insertTrampolines symbols (line.body.advance pc) n rest
      (behind.1, line :: behind.2)

/-- The rounds of `assemble`. -/
def extend : Nat -> Nat -> List Line -> Option (List Line × Symbols)
  | 0, _, _ => none
  | rounds + 1, n, lines =>
    match pass1 0 [] lines with
    | none => none
    | some symbols =>
      if anyFar symbols 0 lines then
        let inserted := insertTrampolines symbols 0 n lines
        extend rounds inserted.1 inserted.2
      else some (lines, symbols)

/-! ## The second pass -/

/-- `enc_i`. -/
def encI (op : Nat) (rd rs1 : BitVec 5) (imm : Int) : Word :=
  BitVec.ofNat 32 op <<< 26 ||| rd.setWidth 32 <<< 21 ||| rs1.setWidth 32 <<< 16 ||| (BitVec.ofInt 16 imm).setWidth 32

/-- `enc_r`, for `JR` and `JALR`. -/
def encR (op : Nat) (rd : BitVec 5) : Word := BitVec.ofNat 32 op <<< 26 ||| rd.setWidth 32 <<< 21

/-- `be32`. -/
def be32 (w : Word) : List Byte := [(w >>> 24).setWidth 8, (w >>> 16).setWidth 8, (w >>> 8).setWidth 8, w.setWidth 8]

/-- `branch_offset`. -/
def branchOffset (symbols : Symbols) (pc : Int) : Target -> Option Int
  | .relative offset => some offset
  | .operand o => (valueOf symbols o).map fun address => address - (pc + insnSize)

/-- What `LDIH` and `LDIL` take of their operand. -/
def half (symbols : Symbols) (high : Bool) : Operand -> Option Int
  | .name text =>
    match symbols.lookup text with
    | some address => some (if high then address / 65536 % 65536 else address % 65536)
    | none => parseNumber text
  | .number value => some value

/-- `pass2`, for one line at `pc`. -/
def Body.emit (symbols : Symbols) (pc : Int) : Body -> Option (List Byte)
  | .empty => some []
  | .org _ => some []
  | .mark => some []
  | .raw _ emit => (emit symbols pc).map Vector.toList
  | .branch op rs1 rs2 target =>
    match branchOffset symbols pc target with
    | none => none
    | some offset =>
      if Near offset then
        some (be32 (if op.conditional then encI op.opcode rs2 rs1 offset else encI op.opcode 0 0 offset))
      else none
  | .load high o =>
    match half symbols high o with
    | none => none
    | some imm =>
      if -0x8000 ≤ imm ∧ imm ≤ 0xFFFF then some (be32 (encI (if high then 0x3D else 0x3C) 14 0 imm)) else none
  | .jump link => some (be32 (encR (if link then 0x21 else 0x0B) 14))

/-- `set_pc` refuses to go back. -/
def Body.placed (pc : Int) : Body -> Bool
  | .org address => decide (0 ≤ address ∧ pc ≤ address)
  | _ => true

/-- `pass2`, from `pc` on: what is emitted, and where.  The padded, the stripped and the
sparse output have the same bytes at the same addresses. -/
def pass2 (symbols : Symbols) : Int -> List Line -> Option (List (Int × List Byte))
  | _, [] => some []
  | pc, line :: rest =>
    if line.body.placed pc then
      match line.body.emit symbols pc, pass2 symbols (line.body.advance pc) rest with
      | some bytes, some behind => some ((pc, bytes) :: behind)
      | _, _ => none
    else none

structure Assembled where
  lines : List Line
  symbols : Symbols
  emitted : List (Int × List Byte)

/-- `assemble`, with the `far_counter` it begins with. -/
def assemble (counter : Nat) (lines : List Line) : Option Assembled :=
  match extend (1 + lines.length) counter lines with
  | none => none
  | some (last, symbols) => (pass2 symbols 0 last).map fun emitted => ⟨last, symbols, emitted⟩

end Src32.Asm
