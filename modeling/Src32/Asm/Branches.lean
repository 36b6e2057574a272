import Src32.Asm.Machine
import Src32.Asm.Rounds

namespace Src32.Asm

open Cpu
open BitVec (ofInt toNat_ofInt)

/-!
# Branches of an assembled source

Where the assembled branches bring a machine that runs them.
-/

/-! ## Emitted lines -/

section Emitted

variable {symbols : Symbols} {pc : Int} {chunks : List (Int × List Byte)}

theorem pass2_cons {line : Line} {rest : List Line} (passed : pass2 symbols pc (line :: rest) = some chunks) :
    ∃ bytes behind, line.body.emit symbols pc = some bytes ∧ pass2 symbols (line.body.advance pc) rest = some behind ∧
      chunks = (pc, bytes) :: behind := by
  rw [pass2] at passed
  split_ifs at passed
  cases bytes : line.body.emit symbols pc with
  | none =>
    rw [bytes] at passed
    cases passed
  | some bytes' =>
    cases behind : pass2 symbols (line.body.advance pc) rest with
    | none =>
      rw [bytes, behind] at passed
      cases passed
    | some behind' =>
      rw [bytes, behind] at passed
      cases passed
      exact ⟨bytes', behind', rfl, rfl, rfl⟩

/-- What a line emits is at its address. -/
theorem pass2_chunk {first second : List Line} {line : Line} (passed : pass2 symbols pc (first ++ line :: second) = some chunks) :
    ∃ bytes, line.body.emit symbols (reach pc first) = some bytes ∧ (reach pc first, bytes) ∈ chunks := by
  induction first generalizing pc chunks with
  | nil =>
    obtain ⟨bytes, behind, emitted, _, rfl⟩ := pass2_cons passed
    exact ⟨bytes, emitted, List.mem_cons_self⟩
  | cons head rest ih =>
    obtain ⟨_, behind, _, next, rfl⟩ := pass2_cons passed
    obtain ⟨bytes, emitted, member⟩ := ih next
    exact ⟨bytes, emitted, List.mem_cons_of_mem _ member⟩

/-- The output is loaded where it belongs. -/
def Holds (memory : Word -> Byte) (chunks : List (Int × List Byte)) : Prop := ∀ chunk ∈ chunks, HoldsAt memory chunk.1 chunk.2

variable {memory : Word -> Byte} {first second : List Line} {label : Option String}

theorem branch_emitted {op : BranchOp} {rs1 rs2 : BitVec 5} {target : Target} (holds : Holds memory chunks)
    (passed : pass2 symbols pc (first ++ ⟨label, .branch op rs1 rs2 target⟩ :: second) = some chunks) :
    ∃ offset, branchOffset symbols (reach pc first) target = some offset ∧ Near offset ∧
      decode (wordAt memory (ofInt 32 (reach pc first))) = op.instruction rs1 rs2 (ofInt 16 offset) := by
  obtain ⟨bytes, emitted, member⟩ := pass2_chunk passed
  unfold Body.emit at emitted
  dsimp only at emitted
  cases value : branchOffset symbols (reach pc first) target with
  | none =>
    rw [value] at emitted
    cases emitted
  | some offset =>
    rw [value] at emitted
    dsimp only at emitted
    by_cases near : Near offset
    · rw [if_pos near] at emitted
      cases emitted
      refine ⟨offset, rfl, near, ?_⟩
      rw [wordAt_be32 (holds _ member)]
      exact decode_branch op rs1 rs2 offset
    · rw [if_neg near] at emitted
      cases emitted

theorem load_emitted {high : Bool} {o : Operand} (holds : Holds memory chunks)
    (passed : pass2 symbols pc (first ++ ⟨label, .load high o⟩ :: second) = some chunks) :
    ∃ imm, half symbols high o = some imm ∧ decode (wordAt memory (ofInt 32 (reach pc first))) =
      if high then .ldih 14 (ofInt 16 imm) else .ldil 14 (ofInt 16 imm) := by
  obtain ⟨bytes, emitted, member⟩ := pass2_chunk passed
  unfold Body.emit at emitted
  dsimp only at emitted
  cases value : half symbols high o with
  | none =>
    rw [value] at emitted
    cases emitted
  | some imm =>
    rw [value] at emitted
    dsimp only at emitted
    by_cases fits : -0x8000 ≤ imm ∧ imm ≤ 0xFFFF
    · rw [if_pos fits] at emitted
      cases emitted
      refine ⟨imm, rfl, ?_⟩
      rw [wordAt_be32 (holds _ member)]
      cases high with
      | false => exact decode_low imm
      | true => exact decode_high imm
    · rw [if_neg fits] at emitted
      cases emitted

theorem jump_emitted {link : Bool} (holds : Holds memory chunks)
    (passed : pass2 symbols pc (first ++ ⟨label, .jump link⟩ :: second) = some chunks) :
    decode (wordAt memory (ofInt 32 (reach pc first))) = if link then .jalr 14 else .jr 14 := by
  obtain ⟨bytes, emitted, member⟩ := pass2_chunk passed
  cases emitted
  rw [wordAt_be32 (holds _ member)]
  exact decode_jump link

end Emitted

/-! ## Operands of trampolines -/

/-- No label of a trampoline is a number. -/
theorem parseNumber_letter {text : String} {rest : List Char} (letter : (text.toList.filter fun c => c ≠ '_') = 's' :: rest) :
    parseNumber text = none := by
  have first : ∀ c : Char, ¬('s' :: rest).take 2 = ['0', c] := by
    intro c same
    rw [List.take_succ_cons] at same
    exact absurd (List.cons.inj same).1 (by decide)
  unfold parseNumber
  dsimp only
  rw [letter, if_neg (first 'x'), if_neg (first 'b')]
  rfl

theorem parseNumber_tag (n : Nat) : parseNumber (tagOf n) = none ∧ parseNumber (endTagOf n) = none := by
  constructor
  · apply parseNumber_letter
    unfold tagOf
    rw [String.toList_append, List.filter_append]
    rfl
  · apply parseNumber_letter
    unfold endTagOf tagOf
    rw [String.toList_append, String.toList_append, List.append_assoc, List.filter_append]
    rfl

theorem high_half (v : Int) : ofInt 16 (v / 65536 % 65536) = (ofInt 32 v >>> 16).setWidth 16 := by
  apply BitVec.eq_of_toNat_eq
  rw [toNat_ofInt, BitVec.toNat_setWidth, BitVec.toNat_ushiftRight, toNat_ofInt, Nat.shiftRight_eq_div_pow]
  omega

theorem low_half (v : Int) : ofInt 16 (v % 65536) = (ofInt 32 v).setWidth 16 := by
  apply BitVec.eq_of_toNat_eq
  rw [toNat_ofInt, BitVec.toNat_setWidth, toNat_ofInt]
  omega

section Operands

variable {sources : List Line} {pieces : List Piece} {symbols : Symbols} {o high low : Operand}

/-- The loads bring the address of the operand. -/
theorem Stands.goal (stands : Stands sources (layout pieces) o high low) (source : pieces.map Piece.source = sources)
    (passed : pass1 0 [] (layout pieces) = some symbols) :
    ∃ goal, valueOf symbols o = some goal ∧
      (∀ imm, half symbols true high = some imm -> ofInt 16 imm = (ofInt 32 goal >>> 16).setWidth 16) ∧
      ∀ imm, half symbols false low = some imm -> ofInt 16 imm = (ofInt 32 goal).setWidth 16 := by
  cases stands with
  | @label text line member label =>
    obtain ⟨first, second, shape⟩ := List.append_of_mem member
    have known := passed
    rw [shape] at known
    have address := pass1_label known label
    refine ⟨_, valueOf_label address, fun imm same => ?_, fun imm same => ?_⟩
    · unfold half at same
      dsimp only at same
      rw [address] at same
      cases same
      exact high_half _
    · unfold half at same
      dsimp only at same
      rw [address] at same
      cases same
      exact low_half _
  | @number _ v numeral =>
    have value : valueOf symbols o = some v := by
      rcases numeral with rfl | ⟨text, rfl, parsed, foreign⟩
      · rfl
      · have unknown : symbols.lookup text = none := by
          cases known : symbols.lookup text with
          | none => rfl
          | some _ =>
            rcases pass1_only passed (by rw [known]; rfl) with never | ⟨line, member, label⟩
            · cases never
            · rcases layout_label member label with ⟨piece, inside, same⟩ | ⟨n, rfl | rfl⟩
              · refine absurd same (foreign piece.source ?_)
                rw [← source]
                exact List.mem_map_of_mem inside
              · rw [(parseNumber_tag n).1] at parsed
                cases parsed
              · rw [(parseNumber_tag n).2] at parsed
                cases parsed
        change (symbols.lookup text).or (parseNumber text) = some v
        rw [unknown, Option.none_or, parsed]
    refine ⟨v, value, fun imm same => ?_, fun imm same => ?_⟩
    · cases same
      rw [← high_half]
      congr 1
      omega
    · cases same
      rw [← low_half]
      congr 1
      omega

end Operands

/-! ## One piece -/

section Pieces

variable {symbols : Symbols} {chunks : List (Int × List Byte)} {memory : Word -> Byte} {first second : List Line}

/-- The last three instructions of a trampoline. -/
theorem tramp_jumps {high low : Operand} {link : Bool} {goal : Word} (holds : Holds memory chunks)
    (passed : pass2 symbols 0 (first ++ ⟨none, .load true high⟩ :: ⟨none, .load false low⟩ :: ⟨none, .jump link⟩ :: second) = some chunks)
    (upper : ∀ imm, half symbols true high = some imm -> ofInt 16 imm = (goal >>> 16).setWidth 16)
    (lower : ∀ imm, half symbols false low = some imm -> ofInt 16 imm = goal.setWidth 16) : Jumps memory (reach 0 first) goal link := by
  have split : first ++ ⟨none, .load true high⟩ :: ⟨none, .load false low⟩ :: ⟨none, .jump link⟩ :: second =
      (first ++ [⟨none, .load true high⟩]) ++ ⟨none, .load false low⟩ :: ⟨none, .jump link⟩ :: second := by
    rw [List.append_assoc]
    rfl
  have split' : first ++ ⟨none, .load true high⟩ :: ⟨none, .load false low⟩ :: ⟨none, .jump link⟩ :: second =
      (first ++ [⟨none, .load true high⟩, ⟨none, .load false low⟩]) ++ ⟨none, .jump link⟩ :: second := by
    rw [List.append_assoc]
    rfl
  obtain ⟨imm, value, word⟩ := load_emitted holds passed
  obtain ⟨imm', value', word'⟩ := load_emitted holds (split ▸ passed)
  have word'' := jump_emitted holds (split' ▸ passed)
  rw [reach_append] at word' word''
  refine ⟨?_, ?_, ?_⟩
  · rw [word, if_pos rfl, upper imm value]
  · rw [if_neg Bool.false_ne_true, lower imm' value'] at word'
    exact word'
  · rw [← word'']
    apply congrArg (fun a => decode (wordAt memory (ofInt 32 a)))
    change reach 0 first + 8 = reach 0 first + 4 + 4
    omega

variable {op : BranchOp} {rs1 rs2 : BitVec 5}

/-- A branch that is left as it is. -/
theorem kept_branch {label : Option String} {target : Target} (holds : Holds memory chunks)
    (passed : pass2 symbols 0 (first ++ ⟨label, .branch op rs1 rs2 target⟩ :: second) = some chunks) :
    ∃ offset, branchOffset symbols (reach 0 first) target = some offset ∧
      Correct memory op rs1 rs2 (reach 0 first) (reach 0 first + 4) (ofInt 32 (reach 0 first + 4 + offset)) := by
  obtain ⟨offset, value, near, word⟩ := branch_emitted holds passed
  exact ⟨offset, value, near_correct near word⟩

variable {n : Nat} {high low : Operand} {line : Line} {target : Target} {goal : Word}

/-- A branch to its trampoline. -/
theorem tagged_branch {label : Option String} {address : Int} {tag : String} (holds : Holds memory chunks) (known : symbols.lookup tag = some address)
    (passed : pass2 symbols 0 (first ++ ⟨label, .branch op rs1 rs2 (.operand (.name tag))⟩ :: second) = some chunks) :
    decode (wordAt memory (ofInt 32 (reach 0 first))) = op.instruction rs1 rs2 (ofInt 16 (address - (reach 0 first + 4))) := by
  obtain ⟨offset, value, _, word⟩ := branch_emitted holds passed
  unfold branchOffset at value
  dsimp only at value
  rw [valueOf_label known, Option.map_some] at value
  cases value
  exact word

/-- A far branch does what its mnemonic says, unless that is to enter the Short mode. -/
theorem far_branch (holds : Holds memory chunks) (body : line.body = .branch op rs1 rs2 target)
    (labels : pass1 0 [] (first ++ trampoline n high low line ++ second) = some symbols)
    (passed : pass2 symbols 0 (first ++ trampoline n high low line ++ second) = some chunks)
    (upper : ∀ imm, half symbols true high = some imm -> ofInt 16 imm = (goal >>> 16).setWidth 16)
    (lower : ∀ imm, half symbols false low = some imm -> ofInt 16 imm = goal.setWidth 16) :
    Correct memory op rs1 rs2 (reach 0 first) (reach 0 (first ++ trampoline n high low line)) goal ↔
      op.mode = .normal ∨ op = .jmps ∧ goal = ofInt 32 (reach 0 first + 4) := by
  obtain ⟨tag, last⟩ := tag_address labels body
  cases conditional : op.conditional with
  | true =>
    rw [conditional, if_pos rfl] at tag
    have plain : op.mode = .normal ∧ (decide (op = .jal)) = false := by
      cases op with
      | beq | bne => exact ⟨rfl, rfl⟩
      | jmp | jal | jmps | jals => cases conditional
    rw [trampoline_conditional body conditional, plain.2] at passed ⊢
    rw [List.append_assoc] at passed
    have branch := tagged_branch holds tag passed
    have skip := @tagged_branch symbols chunks memory (first ++ [⟨line.label, .branch op rs1 rs2 (.operand (.name (tagOf n)))⟩]) _ .jmp 0 0 none _ _
      holds (last conditional) (by rw [List.append_assoc]; exact passed)
    have jumps := @tramp_jumps symbols chunks memory (first ++ [⟨line.label, .branch op rs1 rs2 (.operand (.name (tagOf n)))⟩,
      ⟨none, .branch .jmp 0 0 (.operand (.name (endTagOf n)))⟩, ⟨some (tagOf n), .empty⟩]) _ high low false goal holds
      (by rw [List.append_assoc]; exact passed) upper lower
    rw [reach_append] at skip jumps
    rw [reach_append, show reach (reach 0 first) [⟨line.label, .branch op rs1 rs2 (.operand (.name (tagOf n)))⟩,
      ⟨none, .branch .jmp 0 0 (.operand (.name (endTagOf n)))⟩, ⟨some (tagOf n), .empty⟩, ⟨none, .load true high⟩, ⟨none, .load false low⟩,
      ⟨none, .jump false⟩, ⟨some (endTagOf n), .empty⟩] = reach 0 first + 20 by change reach 0 first + 4 + 4 + 4 + 4 + 4 = _; omega]
    refine iff_of_true (far_conditional conditional ?_ ?_ ?_) (.inl plain.1)
    · rw [branch]
      congr 2
      omega
    · change decode (wordAt memory (ofInt 32 (reach 0 first + 4))) = .jmp (ofInt 16 (reach 0 first + 20 - (reach 0 first + 4 + 4))) at skip
      rw [skip]
      congr 2
      omega
    · rw [show reach 0 first + 8 = reach 0 first + 4 + 4 by omega]
      exact jumps
  | false =>
    rw [conditional, if_neg Bool.false_ne_true] at tag
    rw [trampoline_jump body conditional] at passed ⊢
    rw [List.append_assoc] at passed
    have branch := tagged_branch holds tag passed
    rw [Int.sub_self] at branch
    have jumps := @tramp_jumps symbols chunks memory (first ++ [⟨line.label, .branch op rs1 rs2 (.operand (.name (tagOf n)))⟩,
      ⟨some (tagOf n), .empty⟩]) _ high low (op = .jal) goal holds (by rw [List.append_assoc]; exact passed) upper lower
    rw [reach_append] at jumps
    rw [reach_append, show reach (reach 0 first) [⟨line.label, .branch op rs1 rs2 (.operand (.name (tagOf n)))⟩, ⟨some (tagOf n), .empty⟩,
      ⟨none, .load true high⟩, ⟨none, .load false low⟩, ⟨none, .jump (op = .jal)⟩] = reach 0 first + 16 by
        change reach 0 first + 4 + 4 + 4 + 4 = _; omega]
    by_cases short : op.mode = .short
    · rw [far_short short (by omega) rs1 rs2 branch]
      cases op with
      | jmps =>
        constructor
        · exact fun both => .inr ⟨rfl, both.1⟩
        · rintro (never | ⟨_, same⟩)
          · cases never
          · exact ⟨same, fun never => absurd never Bool.false_ne_true⟩
      | jals =>
        constructor
        · rintro ⟨_, linked⟩
          have same := congrArg BitVec.toNat (linked rfl)
          rw [toNat_ofInt, toNat_ofInt] at same
          omega
        · rintro (never | ⟨never, _⟩)
          · cases never
          · cases never
      | beq | bne | jmp | jal => cases short
    · have normal : op.mode = .normal ∧ (op = .jmp ∨ op = .jal) := by
        cases op with
        | beq | bne => cases conditional
        | jmp => exact ⟨rfl, .inl rfl⟩
        | jal => exact ⟨rfl, .inr rfl⟩
        | jmps | jals => exact absurd rfl short
      exact iff_of_true (far_jump normal.2 rs1 rs2 branch jumps) (.inl normal.1)

end Pieces

end Src32.Asm
