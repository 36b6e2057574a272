import Src32.Asm.Source

namespace Src32.Asm

/-!
# Lines and their trampolines

The rounds of `assemble` replace branches by pieces of code and leave the rest as it is:
the lines at the end are those of the source, some of them with a trampoline.
-/

/-! ## Layout -/

theorem reach_append (pc : Int) (first second : List Line) : reach pc (first ++ second) = reach (reach pc first) second :=
  List.foldl_append

/-! ## The symbols of the first pass -/

section Symbols

variable {pc : Int} {before after : Symbols} {lines : List Line} {text : String}

theorem lookup_other {key other : String} (differ : key ≠ other) (address : Int) (symbols : Symbols) :
    ((other, address) :: symbols : Symbols).lookup key = symbols.lookup key := by
  have apart : (key == other) = false := beq_eq_false_iff_ne.mpr differ
  rw [List.lookup_cons, apart]

theorem lookup_same (key : String) (address : Int) (symbols : Symbols) :
    ((key, address) :: symbols : Symbols).lookup key = some address := by
  rw [List.lookup_cons, beq_self_eq_true]

/-- One line of the first pass. -/
theorem pass1_cons {line : Line} {rest : List Line} (passed : pass1 pc before (line :: rest) = some after) :
    (line.label = none ∧ pass1 (line.body.advance pc) before rest = some after) ∨
    ∃ name, line.label = some name ∧ before.lookup name = none ∧
      pass1 (line.body.advance pc) ((name, pc) :: before) rest = some after := by
  rw [pass1] at passed
  cases label : line.label with
  | none =>
    rw [label] at passed
    exact .inl ⟨rfl, passed⟩
  | some name =>
    rw [label] at passed
    dsimp only at passed
    cases known : before.lookup name with
    | none =>
      rw [known, Option.isSome_none, if_neg Bool.false_ne_true] at passed
      exact .inr ⟨name, rfl, known, passed⟩
    | some _ =>
      rw [known, Option.isSome_some, if_pos rfl] at passed
      cases passed

/-- What is known stays as it is. -/
theorem pass1_keeps {address : Int} (passed : pass1 pc before lines = some after) (known : before.lookup text = some address) :
    after.lookup text = some address := by
  induction lines generalizing pc before with
  | nil =>
    cases passed
    exact known
  | cons line rest ih =>
    rcases pass1_cons passed with ⟨_, next⟩ | ⟨name, _, fresh, next⟩
    · exact ih next known
    · refine ih next ?_
      have differ : text ≠ name := by
        intro same
        rw [same, fresh] at known
        cases known
      rw [lookup_other differ]
      exact known

/-- A label has the address of its line. -/
theorem pass1_label {first second : List Line} {line : Line} (passed : pass1 pc before (first ++ line :: second) = some after)
    (label : line.label = some text) : after.lookup text = some (reach pc first) := by
  induction first generalizing pc before with
  | nil =>
    rcases pass1_cons passed with ⟨none, _⟩ | ⟨name, same, _, next⟩
    · rw [label] at none
      cases none
    · rw [label] at same
      cases same
      exact pass1_keeps next (lookup_same text pc before)
  | cons head rest ih =>
    rcases pass1_cons passed with ⟨_, next⟩ | ⟨_, _, _, next⟩
    · exact ih next
    · exact ih next

/-- A symbol is the label of a line. -/
theorem pass1_only (passed : pass1 pc before lines = some after) (known : (after.lookup text).isSome) :
    (before.lookup text).isSome ∨ ∃ line ∈ lines, line.label = some text := by
  induction lines generalizing pc before with
  | nil =>
    cases passed
    exact .inl known
  | cons line rest ih =>
    rcases pass1_cons passed with ⟨_, next⟩ | ⟨name, label, _, next⟩
    · exact (ih next).imp_right fun ⟨other, member, same⟩ => ⟨other, List.mem_cons_of_mem line member, same⟩
    · rcases ih next with early | ⟨other, member, same⟩
      · by_cases differ : text = name
        · exact .inr ⟨line, List.mem_cons_self, differ ▸ label⟩
        · rw [lookup_other differ] at early
          exact .inl early
      · exact .inr ⟨other, List.mem_cons_of_mem line member, same⟩

end Symbols

/-! ## Pieces -/

/-- A line of the source, and its trampoline: number and operands of the loads. -/
structure Piece where
  source : Line
  tramp : Option (Nat × Operand × Operand)

def Piece.lines (piece : Piece) : List Line :=
  match piece.tramp with
  | none => [piece.source]
  | some (n, high, low) => trampoline n high low piece.source

def layout (pieces : List Piece) : List Line := pieces.flatMap Piece.lines

theorem layout_cons (piece : Piece) (rest : List Piece) : layout (piece :: rest) = piece.lines ++ layout rest := rfl

theorem layout_append (first second : List Piece) : layout (first ++ second) = layout first ++ layout second := List.flatMap_append

/-- A round of trampolines. -/
def insertPieces (symbols : Symbols) : Int -> Nat -> List Piece -> List Piece
  | _, _, [] => []
  | pc, n, piece :: rest =>
    if piece.tramp.isNone && piece.source.body.far symbols pc then
      let operands := loads symbols piece.source.body.operandOf
      ⟨piece.source, some (n + 1, operands.1, operands.2)⟩ :: insertPieces symbols (reach pc piece.lines) (n + 1) rest
    else piece :: insertPieces symbols (reach pc piece.lines) n rest

/-- Lines that all reach their targets stay. -/
theorem insertTrampolines_near {symbols : Symbols} {first : List Line} : ∀ {pc : Int} {n : Nat}, anyFar symbols pc first = false ->
    ∀ second, insertTrampolines symbols pc n (first ++ second) =
      ((insertTrampolines symbols (reach pc first) n second).1, first ++ (insertTrampolines symbols (reach pc first) n second).2) := by
  induction first with
  | nil => exact fun _ _ => rfl
  | cons line rest ih =>
    intro pc n near second
    rw [anyFar, Bool.or_eq_false_iff] at near
    rw [List.cons_append, insertTrampolines, near.1, if_neg Bool.false_ne_true, ih near.2 second]
    rfl

/-- The rounds insert whole pieces, as long as nothing in a trampoline is far. -/
theorem insertTrampolines_layout {symbols : Symbols} : ∀ (pieces : List Piece) (pc : Int) (n : Nat),
    (∀ first piece second, pieces = first ++ piece :: second -> piece.tramp.isNone = false ->
      anyFar symbols (reach pc (layout first)) piece.lines = false) ->
    ∃ next, insertTrampolines symbols pc n (layout pieces) = (next, layout (insertPieces symbols pc n pieces))
  | [], _, n, _ => ⟨n, rfl⟩
  | piece :: rest, pc, n, settled => by
    have behind : ∀ first other second, rest = first ++ other :: second -> other.tramp.isNone = false ->
        anyFar symbols (reach (reach pc piece.lines) (layout first)) other.lines = false := by
      intro first other second shape some
      have whole := settled (piece :: first) other second (congrArg (List.cons piece) shape) some
      rwa [layout_cons, reach_append] at whole
    rw [layout_cons, insertPieces]
    by_cases far : (piece.tramp.isNone && piece.source.body.far symbols pc) = true
    · obtain ⟨none, out⟩ := Bool.and_eq_true_iff.mp far
      obtain ⟨next, ih⟩ := insertTrampolines_layout rest (reach pc piece.lines) (n + 1) behind
      have one : piece.lines = [piece.source] := by
        unfold Piece.lines
        rw [Option.isNone_iff_eq_none.mp none]
      refine ⟨next, ?_⟩
      rw [one] at ih
      rw [if_pos far, one, List.singleton_append, insertTrampolines, if_pos out]
      rw [show Body.advance pc piece.source.body = reach pc [piece.source] from rfl, ih]
      rfl
    · obtain ⟨next, ih⟩ := insertTrampolines_layout rest (reach pc piece.lines) n behind
      have near : anyFar symbols pc piece.lines = false := by
        cases none : piece.tramp.isNone with
        | false => exact settled [] piece rest rfl none
        | true =>
          rw [none, Bool.true_and] at far
          unfold Piece.lines
          rw [Option.isNone_iff_eq_none.mp none]
          change (piece.source.body.far symbols pc || false) = false
          rw [Bool.or_false]
          exact Bool.eq_false_of_not_eq_true far
      refine ⟨next, ?_⟩
      rw [if_neg far, insertTrampolines_near near, ih]
      rfl

end Src32.Asm
