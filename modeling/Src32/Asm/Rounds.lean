import Src32.Asm.Pieces

namespace Src32.Asm

/-!
# The rounds of the far branches

When the rounds end, the lines are those of the source with trampolines whose branches
reach them, and no branch is far.
-/

/-! ## One trampoline -/

section Trampoline

variable {n : Nat} {high low : Operand} {line : Line} {op : BranchOp} {rs1 rs2 : BitVec 5} {target : Target}

theorem trampoline_conditional (body : line.body = .branch op rs1 rs2 target) (conditional : op.conditional = true) :
    trampoline n high low line = [⟨line.label, .branch op rs1 rs2 (.operand (.name (tagOf n)))⟩,
      ⟨none, .branch .jmp 0 0 (.operand (.name (endTagOf n)))⟩, ⟨some (tagOf n), .empty⟩, ⟨none, .load true high⟩, ⟨none, .load false low⟩,
      ⟨none, .jump (op = .jal)⟩, ⟨some (endTagOf n), .empty⟩] := by
  unfold trampoline
  rw [body]
  dsimp only
  rw [if_pos conditional, if_pos conditional]
  rfl

theorem trampoline_jump (body : line.body = .branch op rs1 rs2 target) (always : op.conditional = false) :
    trampoline n high low line = [⟨line.label, .branch op rs1 rs2 (.operand (.name (tagOf n)))⟩, ⟨some (tagOf n), .empty⟩,
      ⟨none, .load true high⟩, ⟨none, .load false low⟩, ⟨none, .jump (op = .jal)⟩] := by
  have no : ¬op.conditional = true := ne_of_eq_of_ne always Bool.false_ne_true
  unfold trampoline
  rw [body]
  dsimp only
  rw [if_neg no, if_neg no]
  rfl

theorem valueOf_label {symbols : Symbols} {address : Int} {text : String} (known : symbols.lookup text = some address) :
    valueOf symbols (.name text) = some address := by
  change (symbols.lookup text).or (parseNumber text) = some address
  rw [known, Option.some_or]

theorem far_near {symbols : Symbols} {pc address : Int} {text : String} (known : symbols.lookup text = some address)
    (near : Near (address - (pc + insnSize))) : Body.far symbols pc (.branch op rs1 rs2 (.operand (.name text))) = false := by
  unfold Body.far
  dsimp only
  rw [valueOf_label known]
  dsimp only
  rw [decide_eq_true near]
  rfl

variable {symbols : Symbols} {first second : List Line}

/-- The labels of a trampoline lie behind its branch. -/
theorem tag_address (passed : pass1 0 [] (first ++ trampoline n high low line ++ second) = some symbols)
    (body : line.body = .branch op rs1 rs2 target) :
    symbols.lookup (tagOf n) = some (reach 0 first + if op.conditional then 8 else 4) ∧
      (op.conditional = true -> symbols.lookup (endTagOf n) = some (reach 0 first + 20)) := by
  cases conditional : op.conditional with
  | true =>
    rw [trampoline_conditional body conditional] at passed
    have tag := @pass1_label 0 [] symbols (tagOf n) (first ++ [⟨line.label, .branch op rs1 rs2 (.operand (.name (tagOf n)))⟩,
      ⟨none, .branch .jmp 0 0 (.operand (.name (endTagOf n)))⟩]) _ ⟨some (tagOf n), .empty⟩
      (by simpa only [List.append_assoc, List.cons_append, List.nil_append] using passed) rfl
    have last := @pass1_label 0 [] symbols (endTagOf n) (first ++ [⟨line.label, .branch op rs1 rs2 (.operand (.name (tagOf n)))⟩,
      ⟨none, .branch .jmp 0 0 (.operand (.name (endTagOf n)))⟩, ⟨some (tagOf n), .empty⟩, ⟨none, .load true high⟩, ⟨none, .load false low⟩,
      ⟨none, .jump (op = .jal)⟩]) _ ⟨some (endTagOf n), .empty⟩
      (by simpa only [List.append_assoc, List.cons_append, List.nil_append] using passed) rfl
    rw [reach_append] at tag last
    rw [tag, last]
    refine ⟨congrArg some ?_, fun _ => congrArg some ?_⟩
    · change reach 0 first + 4 + 4 = _
      rw [if_pos rfl]
      omega
    · change reach 0 first + 4 + 4 + 4 + 4 + 4 = _
      omega
  | false =>
    rw [trampoline_jump body conditional] at passed
    have tag := @pass1_label 0 [] symbols (tagOf n) (first ++ [⟨line.label, .branch op rs1 rs2 (.operand (.name (tagOf n)))⟩]) _
      ⟨some (tagOf n), .empty⟩ (by simpa only [List.append_assoc, List.cons_append, List.nil_append] using passed) rfl
    rw [reach_append] at tag
    rw [tag]
    refine ⟨congrArg some ?_, fun yes => absurd yes Bool.false_ne_true⟩
    change reach 0 first + 4 = _
    rw [if_neg Bool.false_ne_true]

/-- No branch of a trampoline is far. -/
theorem trampoline_near (passed : pass1 0 [] (first ++ trampoline n high low line ++ second) = some symbols)
    (body : line.body = .branch op rs1 rs2 target) : anyFar symbols (reach 0 first) (trampoline n high low line) = false := by
  obtain ⟨tag, last⟩ := tag_address passed body
  cases conditional : op.conditional with
  | true =>
    rw [conditional, if_pos rfl] at tag
    rw [trampoline_conditional body conditional]
    have skip := last conditional
    have branch := @far_near op rs1 rs2 symbols (reach 0 first) _ _ tag (by unfold insnSize Near; omega)
    have jump := @far_near .jmp 0 0 symbols (reach 0 first + 4) _ _ skip (by unfold insnSize Near; omega)
    rw [anyFar, branch, Bool.false_or, anyFar]
    rw [show Body.advance (reach 0 first) (.branch op rs1 rs2 (.operand (.name (tagOf n)))) = reach 0 first + 4 from rfl, jump]
    rfl
  | false =>
    rw [conditional, if_neg Bool.false_ne_true] at tag
    rw [trampoline_jump body conditional]
    have branch := @far_near op rs1 rs2 symbols (reach 0 first) _ _ tag (by unfold insnSize Near; omega)
    rw [anyFar, branch]
    rfl

end Trampoline

/-! ## What the rounds keep -/

/-- An operand that is an address and not a label of the source. -/
def Numeral (sources : List Line) (o : Operand) (v : Int) : Prop :=
  o = .number v ∨ ∃ text, o = .name text ∧ parseNumber text = some v ∧ ∀ line ∈ sources, line.label ≠ some text

/-- The loads of a trampoline stand for the operand of its branch. -/
inductive Stands (sources lines : List Line) : Operand -> Operand -> Operand -> Prop where
  | label {text : String} {line : Line} (member : line ∈ lines) (label : line.label = some text) :
      Stands sources lines (.name text) (.name text) (.name text)
  | number {o : Operand} {v : Int} (numeral : Numeral sources o v) :
      Stands sources lines o (.number (v % 4294967296 / 65536)) (.number (v % 4294967296 % 65536))

/-- Pieces of the lines of a source. -/
structure Sound (sources : List Line) (pieces : List Piece) : Prop where
  source : pieces.map Piece.source = sources
  tramps : ∀ piece ∈ pieces, ∀ n high low, piece.tramp = some (n, high, low) -> ∃ op rs1 rs2 o,
    piece.source.body = .branch op rs1 rs2 (.operand o) ∧ Stands sources (layout pieces) o high low

section Rounds

variable {sources : List Line} {pieces : List Piece} {symbols : Symbols} {text : String}

/-- A label of the lines is one of the source or one of a trampoline. -/
theorem layout_label {line : Line} (member : line ∈ layout pieces) (label : line.label = some text) :
    (∃ piece ∈ pieces, piece.source.label = some text) ∨ ∃ n, text = tagOf n ∨ text = endTagOf n := by
  obtain ⟨piece, inside, member⟩ := List.mem_flatMap.mp member
  unfold Piece.lines at member
  split at member
  · rw [List.mem_singleton.mp member] at label
    exact .inl ⟨piece, inside, label⟩
  · rename_i n high low _
    unfold trampoline at member
    split at member
    · rcases List.mem_append.mp member with member | last
      · rcases List.mem_append.mp member with member | middle
        · rcases List.mem_append.mp member with first | skip
          · rw [List.mem_singleton.mp first] at label
            exact .inl ⟨piece, inside, label⟩
          · split_ifs at skip
            · rw [List.mem_singleton.mp skip] at label
              cases label
            · cases skip
        · rcases List.mem_cons.mp middle with rfl | loads
          · cases label
            exact .inr ⟨n, .inl rfl⟩
          · rcases List.mem_cons.mp loads with rfl | loads
            · cases label
            · rcases List.mem_cons.mp loads with rfl | jump
              · cases label
              · rw [List.mem_singleton.mp jump] at label
                cases label
      · split_ifs at last
        · rw [List.mem_singleton.mp last] at label
          cases label
          exact .inr ⟨n, .inr rfl⟩
        · cases last
    · rw [List.mem_singleton.mp member] at label
      exact .inl ⟨piece, inside, label⟩

/-- A label of the source is one of the lines. -/
theorem source_label {piece : Piece} (inside : piece ∈ pieces) (label : piece.source.label = some text) :
    ∃ line ∈ layout pieces, line.label = some text := by
  have here : ∃ line ∈ piece.lines, line.label = some text := by
    unfold Piece.lines
    split
    · exact ⟨piece.source, List.mem_singleton_self _, label⟩
    · unfold trampoline
      split
      · exact ⟨_, List.mem_append_left _ (List.mem_append_left _ (List.mem_append_left _ (List.mem_singleton_self _))), label⟩
      · exact ⟨piece.source, List.mem_singleton_self _, label⟩
  obtain ⟨line, member, same⟩ := here
  exact ⟨line, List.mem_flatMap.mpr ⟨piece, inside, member⟩, same⟩

theorem insertPieces_source : ∀ (pieces : List Piece) (pc : Int) (n : Nat),
    (insertPieces symbols pc n pieces).map Piece.source = pieces.map Piece.source
  | [], _, _ => rfl
  | piece :: rest, pc, n => by
    rw [insertPieces]
    split
    · exact congrArg (List.cons piece.source) (insertPieces_source rest _ _)
    · exact congrArg (List.cons piece.source) (insertPieces_source rest _ _)

/-- A piece behind a round is one before it, or a far branch with its new trampoline. -/
theorem insertPieces_mem {piece : Piece} : ∀ {pieces : List Piece} {pc : Int} {n : Nat}, piece ∈ insertPieces symbols pc n pieces ->
    piece ∈ pieces ∨ ∃ k pc', piece.source.body.far symbols pc' = true ∧
      piece.tramp = some (k, (loads symbols piece.source.body.operandOf).1, (loads symbols piece.source.body.operandOf).2)
  | [], _, _, member => absurd member List.not_mem_nil
  | other :: rest, pc, n, member => by
    rw [insertPieces] at member
    split at member
    · rename_i far
      rcases List.mem_cons.mp member with rfl | later
      · exact .inr ⟨n + 1, pc, (Bool.and_eq_true_iff.mp far).2, rfl⟩
      · exact (insertPieces_mem later).imp_left (List.mem_cons_of_mem other)
    · rcases List.mem_cons.mp member with rfl | later
      · exact .inl List.mem_cons_self
      · exact (insertPieces_mem later).imp_left (List.mem_cons_of_mem other)

/-- A trampoline stays. -/
theorem insertPieces_stays {piece : Piece} (tramp : piece.tramp.isNone = false) : ∀ {pieces : List Piece} {pc : Int} {n : Nat}, piece ∈ pieces ->
    piece ∈ insertPieces symbols pc n pieces
  | [], _, _, member => absurd member List.not_mem_nil
  | other :: rest, pc, n, member => by
    rw [insertPieces]
    split
    · rename_i far
      rcases List.mem_cons.mp member with rfl | later
      · rw [tramp, Bool.false_and] at far
        cases far
      · exact List.mem_cons_of_mem _ (insertPieces_stays tramp later)
    · rcases List.mem_cons.mp member with rfl | later
      · exact List.mem_cons_self
      · exact List.mem_cons_of_mem _ (insertPieces_stays tramp later)

/-- Labels stay. -/
theorem insertPieces_label {line : Line} {n : Nat} (member : line ∈ layout pieces) (label : line.label = some text) :
    ∃ line ∈ layout (insertPieces symbols 0 n pieces), line.label = some text := by
  obtain ⟨piece, inside, here⟩ := List.mem_flatMap.mp member
  cases tramp : piece.tramp.isNone with
  | false => exact ⟨line, List.mem_flatMap.mpr ⟨piece, insertPieces_stays tramp inside, here⟩, label⟩
  | true =>
    unfold Piece.lines at here
    rw [Option.isNone_iff_eq_none.mp tramp] at here
    rw [List.mem_singleton.mp here] at label
    have source : piece.source ∈ (insertPieces symbols 0 n pieces).map Piece.source := by
      rw [insertPieces_source]
      exact List.mem_map_of_mem inside
    obtain ⟨other, member', same⟩ := List.mem_map.mp source
    exact source_label member' (same ▸ label)

/-- The loads that a round writes. -/
theorem loads_stand {o : Operand} {address : Int} (passed : pass1 0 [] (layout pieces) = some symbols)
    (source : pieces.map Piece.source = sources) (value : valueOf symbols o = some address) :
    Stands sources (layout pieces) o (loads symbols o).1 (loads symbols o).2 := by
  cases o with
  | number v => exact .number (.inl rfl)
  | name text =>
    unfold loads
    dsimp only
    cases known : symbols.lookup text with
    | some _ =>
      rcases pass1_only passed (by rw [known]; rfl) with never | ⟨line, member, label⟩
      · cases never
      · exact .label member label
    | none =>
      have parsed : parseNumber text = some address := by
        change (symbols.lookup text).or (parseNumber text) = some address at value
        rwa [known, Option.none_or] at value
      dsimp only
      rw [parsed]
      refine .number (.inr ⟨text, rfl, parsed, fun line member label => ?_⟩)
      rw [← source] at member
      obtain ⟨piece, inside, rfl⟩ := List.mem_map.mp member
      obtain ⟨other, member', same⟩ := source_label inside label
      obtain ⟨first, second, shape⟩ := List.append_of_mem member'
      rw [shape] at passed
      rw [pass1_label passed same] at known
      cases known

/-- One round. -/
theorem Sound.round (sound : Sound sources pieces) (passed : pass1 0 [] (layout pieces) = some symbols) (n : Nat) :
    Sound sources (insertPieces symbols 0 n pieces) := by
  have carried : ∀ {o high low}, Stands sources (layout pieces) o high low ->
      Stands sources (layout (insertPieces symbols 0 n pieces)) o high low := by
    intro o high low stands
    cases stands with
    | label member label =>
      obtain ⟨line, member', label'⟩ := @insertPieces_label pieces symbols _ _ n member label
      exact .label member' label'
    | number numeral => exact .number numeral
  refine ⟨(insertPieces_source pieces 0 n).trans sound.source, fun piece member k high low tramp => ?_⟩
  rcases insertPieces_mem member with old | ⟨k', pc, far, new⟩
  · obtain ⟨op, rs1, rs2, o, body, stands⟩ := sound.tramps piece old k high low tramp
    exact ⟨op, rs1, rs2, o, body, carried stands⟩
  · cases body : piece.source.body with
    | branch op rs1 rs2 target =>
      cases target with
      | operand o =>
        rw [new, body] at tramp
        cases tramp
        rw [body] at far
        cases value : valueOf symbols o with
        | none =>
          unfold Body.far at far
          dsimp only at far
          rw [value] at far
          cases far
        | some address => exact ⟨op, rs1, rs2, o, rfl, carried (loads_stand passed sound.source value)⟩
      | relative _ =>
        rw [body] at far
        cases far
    | empty | org _ | mark | raw _ _ | load _ _ | jump _ =>
      rw [body] at far
      cases far

/-- The rounds end with the lines of pieces, and nothing is far. -/
theorem extend_sound {lines : List Line} : ∀ {rounds n : Nat} {pieces : List Piece}, Sound sources pieces ->
    extend rounds n (layout pieces) = some (lines, symbols) ->
      ∃ last, Sound sources last ∧ lines = layout last ∧ pass1 0 [] lines = some symbols ∧ anyFar symbols 0 lines = false
  | 0, _, _, _, done => by cases done
  | rounds + 1, n, pieces, sound, done => by
    rw [extend] at done
    cases passed : pass1 0 [] (layout pieces) with
    | none =>
      rw [passed] at done
      cases done
    | some known =>
      rw [passed] at done
      dsimp only at done
      by_cases far : anyFar known 0 (layout pieces) = true
      · rw [if_pos far] at done
        have settled : ∀ first piece second, pieces = first ++ piece :: second -> piece.tramp.isNone = false ->
            anyFar known (reach 0 (layout first)) piece.lines = false := by
          intro first piece second shape extended
          obtain ⟨k, high, low, tramp⟩ : ∃ k high low, piece.tramp = some (k, high, low) := by
            cases tramp : piece.tramp with
            | none =>
              rw [tramp] at extended
              cases extended
            | some t => exact ⟨t.1, t.2.1, t.2.2, rfl⟩
          obtain ⟨op, rs1, rs2, o, body, _⟩ := sound.tramps piece (by rw [shape]; exact List.mem_append_right _ List.mem_cons_self) k high low tramp
          have lines : piece.lines = trampoline k high low piece.source := by
            unfold Piece.lines
            rw [tramp]
          rw [lines]
          refine @trampoline_near k high low piece.source op rs1 rs2 _ known (layout first) (layout second) ?_ body
          rw [← lines, List.append_assoc, ← layout_cons, ← layout_append, ← shape]
          exact passed
        obtain ⟨next, inserted⟩ := insertTrampolines_layout pieces 0 n settled
        rw [inserted] at done
        exact extend_sound (sound.round passed n) done
      · rw [if_neg far] at done
        cases done
        exact ⟨pieces, sound, rfl, passed, Bool.eq_false_of_not_eq_true far⟩

end Rounds

end Src32.Asm
