import Src32.Asm.Branches

namespace Src32.Asm

open Cpu
open BitVec (ofInt)

/-!
# What becomes of the branches of a source

A branch with a label or an address goes where it says unless it is a `JMPS` or `JALS` with
a trampoline.  A relative one goes to the line it names when the trampolines before that line
and before its own have moved both as far.
-/

/-- Where the code of a line lies. -/
def start (pieces : List Piece) (i : Nat) : Int := reach 0 (layout (pieces.take i))

/-- What a trampoline adds to a line. -/
def Piece.growth (piece : Piece) : Int :=
  match piece.tramp, piece.source.body with
  | some _, .branch op .. => if op.conditional then 16 else 12
  | _, _ => 0

/-- How far the trampolines have moved what is behind a line; `.ORG` stays. -/
def Piece.moves (d : Int) (piece : Piece) : Int :=
  match piece.source.body with
  | .org _ => 0
  | _ => d + piece.growth

def drift (pieces : List Piece) : Int := pieces.foldl Piece.moves 0

/-- Every branch does what the source says. -/
structure Faithful (memory : Word -> Byte) (lines : List Line) (symbols : Symbols) (pieces : List Piece) : Prop where
  addressed : ∀ i piece op rs1 rs2 o, pieces[i]? = some piece -> piece.source.body = .branch op rs1 rs2 (.operand o) ->
    ∃ goal, valueOf symbols o = some goal ∧ Correct memory op rs1 rs2 (start pieces i) (start pieces (i + 1)) (ofInt 32 goal)
  relative : ∀ i piece op rs1 rs2 n, pieces[i]? = some piece -> piece.source.body = .branch op rs1 rs2 (.relative n) ->
    Correct memory op rs1 rs2 (start pieces i) (start pieces (i + 1)) (ofInt 32 (start pieces i + 4 + n)) ∧
      ∀ j, reach 0 (lines.take i) + 4 + n = reach 0 (lines.take j) ->
        ofInt 32 (start pieces i + 4 + n) = ofInt 32 (start pieces j)

/-- No branch into the Short mode has a trampoline, but for a `JMPS` to the trampoline itself, and
relative branches have moved with the lines they name. -/
structure Suited (lines : List Line) (symbols : Symbols) (pieces : List Piece) : Prop where
  addressed : ∀ i piece op rs1 rs2 o, pieces[i]? = some piece -> piece.source.body = .branch op rs1 rs2 (.operand o) ->
    piece.tramp = none ∨ op.mode = .normal ∨
      op = .jmps ∧ ∀ goal, valueOf symbols o = some goal -> ofInt 32 goal = ofInt 32 (start pieces i + 4)
  relative : ∀ i piece op rs1 rs2 n j, pieces[i]? = some piece -> piece.source.body = .branch op rs1 rs2 (.relative n) ->
    reach 0 (lines.take i) + 4 + n = reach 0 (lines.take j) ->
      ofInt 32 (drift (pieces.take i)) = ofInt 32 (drift (pieces.take j))

/-! ## Places -/

section Places

variable {sources : List Line} {pieces : List Piece} {piece : Piece} {i : Nat}

theorem layout_split (here : pieces[i]? = some piece) :
    layout pieces = layout (pieces.take i) ++ piece.lines ++ layout (pieces.drop (i + 1)) := by
  have whole : pieces = pieces.take i ++ piece :: pieces.drop (i + 1) := by
    obtain ⟨inside, same⟩ := List.getElem?_eq_some_iff.mp here
    rw [← same, List.getElem_cons_drop, List.take_append_drop]
  calc layout pieces
    _ = layout (pieces.take i ++ piece :: pieces.drop (i + 1)) := congrArg layout whole
    _ = layout (pieces.take i) ++ piece.lines ++ layout (pieces.drop (i + 1)) := by
      rw [layout_append, layout_cons, List.append_assoc]

theorem start_next (here : pieces[i]? = some piece) : start pieces (i + 1) = reach 0 (layout (pieces.take i) ++ piece.lines) := by
  unfold start
  rw [List.take_add_one, here, Option.toList_some, layout_append]
  rw [show layout [piece] = piece.lines ++ [] from rfl, List.append_nil]

/-- What one piece adds. -/
theorem reach_piece (sound : ∀ n high low, piece.tramp = some (n, high, low) -> ∃ op rs1 rs2 target, piece.source.body = .branch op rs1 rs2 target)
    (pc d : Int) : reach (pc + d) piece.lines = reach pc [piece.source] + piece.moves d := by
  cases tramp : piece.tramp with
  | none =>
    have same : piece.lines = [piece.source] := by
      unfold Piece.lines
      rw [tramp]
    have still : piece.growth = 0 := by
      unfold Piece.growth
      rw [tramp]
    rw [same]
    change piece.source.body.advance (pc + d) = piece.source.body.advance pc + piece.moves d
    unfold Piece.moves
    rw [still]
    cases body : piece.source.body with
    | empty | mark => exact congrArg (pc + ·) (Int.add_zero d).symm
    | org address => exact (Int.add_zero address).symm
    | raw size emit =>
      change pc + d + size = pc + size + (d + 0)
      omega
    | branch op rs1 rs2 target | load high o | jump link =>
      change pc + d + 4 = pc + 4 + (d + 0)
      omega
  | some t =>
    obtain ⟨op, rs1, rs2, target, body⟩ := sound t.1 t.2.1 t.2.2 tramp
    have shape : piece.lines = trampoline t.1 t.2.1 t.2.2 piece.source := by
      unfold Piece.lines
      rw [tramp]
    have grown : piece.moves d = d + if op.conditional then 16 else 12 := by
      unfold Piece.moves Piece.growth
      rw [tramp, body]
    have one : reach pc [piece.source] = pc + 4 := by
      change piece.source.body.advance pc = pc + 4
      rw [body]
      rfl
    rw [shape, grown, one]
    cases conditional : op.conditional with
    | true =>
      rw [trampoline_conditional body conditional, if_pos rfl]
      change pc + d + 4 + 4 + 4 + 4 + 4 = pc + 4 + (d + 16)
      omega
    | false =>
      rw [trampoline_jump body conditional, if_neg Bool.false_ne_true]
      change pc + d + 4 + 4 + 4 + 4 = pc + 4 + (d + 12)
      omega

/-- A line lies where it lay, moved by the trampolines before it. -/
theorem reach_layout : ∀ {pieces : List Piece}, (∀ piece ∈ pieces, ∀ n high low, piece.tramp = some (n, high, low) ->
    ∃ op rs1 rs2 target, piece.source.body = .branch op rs1 rs2 target) -> ∀ pc d : Int,
    reach (pc + d) (layout pieces) = reach pc (pieces.map Piece.source) + pieces.foldl Piece.moves d
  | [], _, _, _ => rfl
  | piece :: rest, sound, pc, d => by
    rw [layout_cons, reach_append, reach_piece (sound piece List.mem_cons_self)]
    exact reach_layout (fun other member => sound other (List.mem_cons_of_mem piece member)) _ _

theorem Sound.start (sound : Sound sources pieces) (i : Nat) : start pieces i = reach 0 (sources.take i) + drift (pieces.take i) := by
  have moved := @reach_layout (pieces.take i) (fun piece member n high low tramp => by
    obtain ⟨op, rs1, rs2, o, body, _⟩ := sound.tramps piece (List.mem_of_mem_take member) n high low tramp
    exact ⟨op, rs1, rs2, _, body⟩) 0 0
  rw [Int.add_zero, List.map_take, sound.source] at moved
  exact moved

end Places

/-! ## Every branch -/

section Branches

variable {sources : List Line} {pieces : List Piece} {piece : Piece} {i : Nat} {symbols : Symbols} {chunks : List (Int × List Byte)}
  {memory : Word -> Byte} {op : BranchOp} {rs1 rs2 : BitVec 5}

/-- A branch without a trampoline. -/
theorem kept_piece {target : Target} (holds : Holds memory chunks) (passed : pass2 symbols 0 (layout pieces) = some chunks)
    (here : pieces[i]? = some piece) (kept : piece.tramp = none) (body : piece.source.body = .branch op rs1 rs2 target) :
    ∃ offset, branchOffset symbols (start pieces i) target = some offset ∧
      Correct memory op rs1 rs2 (start pieces i) (start pieces (i + 1)) (ofInt 32 (start pieces i + 4 + offset)) := by
  have lines : piece.lines = [⟨piece.source.label, .branch op rs1 rs2 target⟩] := by
    unfold Piece.lines
    rw [kept, ← body]
  have next : start pieces (i + 1) = start pieces i + 4 := by
    rw [start_next here, lines, reach_append]
    rfl
  rw [layout_split here, lines, List.append_assoc] at passed
  rw [next]
  exact kept_branch holds passed

/-- A branch with an operand goes to it, or enters the Short mode at its trampoline. -/
theorem addressed_piece {o : Operand} (sound : Sound sources pieces) (labels : pass1 0 [] (layout pieces) = some symbols)
    (holds : Holds memory chunks) (passed : pass2 symbols 0 (layout pieces) = some chunks)
    (here : pieces[i]? = some piece) (body : piece.source.body = .branch op rs1 rs2 (.operand o)) :
    ∃ goal, valueOf symbols o = some goal ∧
      (Correct memory op rs1 rs2 (start pieces i) (start pieces (i + 1)) (ofInt 32 goal) ↔
        piece.tramp = none ∨ op.mode = .normal ∨ op = .jmps ∧ ofInt 32 goal = ofInt 32 (start pieces i + 4)) := by
  cases tramp : piece.tramp with
  | none =>
    obtain ⟨offset, value, correct⟩ := kept_piece holds passed here tramp body
    change (valueOf symbols o).map _ = some offset at value
    obtain ⟨goal, address, rfl⟩ := Option.map_eq_some_iff.mp value
    refine ⟨goal, address, iff_of_true ?_ (.inl rfl)⟩
    rwa [show start pieces i + 4 + (goal - (start pieces i + insnSize)) = goal by unfold insnSize; omega] at correct
  | some t =>
    have shape : piece.lines = trampoline t.1 t.2.1 t.2.2 piece.source := by
      unfold Piece.lines
      rw [tramp]
    obtain ⟨op', rs1', rs2', o', body', stands⟩ := sound.tramps piece (List.mem_of_getElem? here) t.1 t.2.1 t.2.2 tramp
    rw [body] at body'
    cases body'
    obtain ⟨goal, value, upper, lower⟩ := stands.goal sound.source labels
    rw [layout_split here, shape] at labels passed
    refine ⟨goal, value, ?_⟩
    rw [start_next here, shape, start, far_branch holds body labels passed upper lower]
    constructor
    · exact .inr
    · exact fun either => either.resolve_left (Option.some_ne_none t)

theorem faithful_suited (sound : Sound sources pieces) (labels : pass1 0 [] (layout pieces) = some symbols)
    (holds : Holds memory chunks) (passed : pass2 symbols 0 (layout pieces) = some chunks) :
    Faithful memory sources symbols pieces ↔ Suited sources symbols pieces := by
  have moved : ∀ i n j, reach 0 (sources.take i) + 4 + n = reach 0 (sources.take j) ->
      (ofInt 32 (start pieces i + 4 + n) = ofInt 32 (start pieces j) ↔
        ofInt 32 (drift (pieces.take i)) = ofInt 32 (drift (pieces.take j))) := by
    intro i n j named
    rw [sound.start i, sound.start j, ← named]
    rw [show reach 0 (sources.take i) + drift (pieces.take i) + 4 + n = reach 0 (sources.take i) + 4 + n + drift (pieces.take i) by omega]
    rw [BitVec.ofInt_add, BitVec.ofInt_add (reach 0 (sources.take i) + 4 + n) (drift (pieces.take j))]
    exact BitVec.add_right_inj _
  constructor
  · intro faithful
    refine ⟨fun i piece op rs1 rs2 o here body => ?_, fun i piece op rs1 rs2 n j here body named => ?_⟩
    · obtain ⟨goal, value, correct⟩ := faithful.addressed i piece op rs1 rs2 o here body
      obtain ⟨goal', value', exactly⟩ := addressed_piece sound labels holds passed here body
      cases value.symm.trans value'
      refine (exactly.mp correct).imp_right fun either => either.imp_right fun both => ⟨both.1, fun other same => ?_⟩
      cases value.symm.trans same
      exact both.2
    · exact (moved i n j named).mp ((faithful.relative i piece op rs1 rs2 n here body).2 j named)
  · intro suited
    refine ⟨fun i piece op rs1 rs2 o here body => ?_, fun i piece op rs1 rs2 n here body => ⟨?_, fun j named => ?_⟩⟩
    · obtain ⟨goal, value, exactly⟩ := addressed_piece sound labels holds passed here body
      refine ⟨goal, value, exactly.mpr ?_⟩
      exact (suited.addressed i piece op rs1 rs2 o here body).imp_right fun either =>
        either.imp_right fun both => ⟨both.1, both.2 goal value⟩
    · have kept : piece.tramp = none := by
        cases tramp : piece.tramp with
        | none => rfl
        | some t =>
          obtain ⟨_, _, _, _, body', _⟩ := sound.tramps piece (List.mem_of_getElem? here) t.1 t.2.1 t.2.2 tramp
          rw [body] at body'
          cases body'
      obtain ⟨offset, value, correct⟩ := kept_piece holds passed here kept body
      cases value
      exact correct
    · exact (moved i n j named).mpr (suited.relative i piece op rs1 rs2 n j here body named)

end Branches

/-! ## Assembling a source -/

theorem sound_lines (lines : List Line) : Sound lines (lines.map fun line => ⟨line, none⟩) ∧ layout (lines.map fun line => ⟨line, none⟩) = lines := by
  constructor
  · refine ⟨?_, fun piece member n high low tramp => ?_⟩
    · rw [List.map_map]
      exact List.map_id lines
    · obtain ⟨line, _, rfl⟩ := List.mem_map.mp member
      cases tramp
  · induction lines with
    | nil => rfl
    | cons line rest ih => exact congrArg (List.cons line) ih

theorem assemble_cases {counter : Nat} {lines : List Line} {out : Assembled} (accepted : assemble counter lines = some out) :
    ∃ pieces, Sound lines pieces ∧ out.lines = layout pieces ∧ pass1 0 [] (layout pieces) = some out.symbols ∧
      pass2 out.symbols 0 (layout pieces) = some out.emitted ∧ anyFar out.symbols 0 out.lines = false := by
  unfold assemble at accepted
  cases extended : extend (1 + lines.length) counter lines with
  | none =>
    rw [extended] at accepted
    cases accepted
  | some x =>
    rw [extended] at accepted
    obtain ⟨emitted, passed, rfl⟩ := Option.map_eq_some_iff.mp accepted
    obtain ⟨sound, same⟩ := sound_lines lines
    rw [← same] at extended
    obtain ⟨pieces, last, shape, labels, near⟩ := extend_sound sound extended
    exact ⟨pieces, last, shape, shape ▸ labels, shape ▸ passed, near⟩

/-- The rounds end with no branch out of reach, and the branches of a source do what it says exactly
when they are suited to that. -/
theorem assembled_branches {counter : Nat} {lines : List Line} {out : Assembled} (accepted : assemble counter lines = some out) :
    anyFar out.symbols 0 out.lines = false ∧
      ∃ pieces : List Piece, pieces.map Piece.source = lines ∧ out.lines = layout pieces ∧
        ∀ memory, Holds memory out.emitted -> (Faithful memory lines out.symbols pieces ↔ Suited lines out.symbols pieces) := by
  obtain ⟨pieces, sound, shape, labels, passed, near⟩ := assemble_cases accepted
  exact ⟨near, pieces, sound.source, shape, fun memory holds => faithful_suited sound labels holds passed⟩

/-! ## A far branch -/

/-- A branch to a label that is out of its reach. -/
def farSource (op : BranchOp) : List Line :=
  [⟨none, .branch op 1 2 (.operand (.name "far"))⟩, ⟨none, .org 0x10000⟩, ⟨some "far", .raw 2 fun _ _ => some (Vector.replicate 2 0)⟩]

def farBeqOut : Assembled where
  lines := trampoline 1 (.name "far") (.name "far") ⟨none, .branch .beq 1 2 (.operand (.name "far"))⟩ ++ (farSource .beq).drop 1
  symbols := [("far", 0x10000), ("__solc_far_tramp_1_end", 20), ("__solc_far_tramp_1", 8)]
  emitted := [(0, be32 (encI 0x07 2 1 4)), (4, be32 (encI 0x09 0 0 12)), (8, []), (8, be32 (encI 0x3D 14 0 1)), (12, be32 (encI 0x3C 14 0 0)),
    (16, be32 (encR 0x0B 14)), (20, []), (20, []), (0x10000, [0, 0])]

theorem assembled_branches_beq : ∃ pieces : List Piece, pieces.map Piece.source = farSource .beq ∧ farBeqOut.lines = layout pieces ∧
    ∀ memory, Holds memory farBeqOut.emitted ->
      (Faithful memory (farSource .beq) farBeqOut.symbols pieces ↔ Suited (farSource .beq) farBeqOut.symbols pieces) :=
  (assembled_branches (show assemble 0 (farSource .beq) = some farBeqOut from rfl)).2

def farJmpsOut : Assembled where
  lines := trampoline 1 (.name "far") (.name "far") ⟨none, .branch .jmps 1 2 (.operand (.name "far"))⟩ ++ (farSource .jmps).drop 1
  symbols := [("far", 0x10000), ("__solc_far_tramp_1", 4)]
  emitted := [(0, be32 (encI 0x1D 0 0 0)), (4, []), (4, be32 (encI 0x3D 14 0 1)), (8, be32 (encI 0x3C 14 0 0)), (12, be32 (encR 0x0B 14)),
    (16, []), (0x10000, [0, 0])]

/-- The memory that holds it. -/
def farJmpsMemory (a : Word) : Byte :=
  if a < 4 then (be32 (encI 0x1D 0 0 0)).getD a.toNat 0
  else if a < 8 then (be32 (encI 0x3D 14 0 1)).getD (a - 4).toNat 0
  else if a < 12 then (be32 (encI 0x3C 14 0 0)).getD (a - 8).toNat 0
  else if a < 16 then (be32 (encR 0x0B 14)).getD (a - 12).toNat 0
  else 0

theorem holdsAt_of {memory : Word -> Byte} {address : Int} {bytes : List Byte}
    (holds : ∀ k < bytes.length, bytes[k]? = some (memory (ofInt 32 (address + (k : Nat))))) : HoldsAt memory address bytes := by
  intro k b byte
  obtain ⟨inside, _⟩ := List.getElem?_eq_some_iff.mp byte
  exact Option.some.inj ((holds k inside).symm.trans byte)

/-- `JMPS` ends in its trampoline, in the Short mode. -/
theorem farJmps_strays : assemble 0 (farSource .jmps) = some farJmpsOut ∧ valueOf farJmpsOut.symbols (.name "far") = some 0x10000 ∧
    (∃ memory, Holds memory farJmpsOut.emitted) ∧ ∀ memory, Holds memory farJmpsOut.emitted ->
      ¬Correct memory .jmps 1 2 0 16 (ofInt 32 0x10000) := by
  refine ⟨rfl, rfl, ⟨farJmpsMemory, ?_⟩, fun memory holds correct => ?_⟩
  · intro chunk member
    apply holdsAt_of
    revert chunk
    decide
  · have word : decode (wordAt memory (ofInt 32 0)) = BranchOp.instruction 1 2 (ofInt 16 0) .jmps := by
      rw [wordAt_be32 (holds _ List.mem_cons_self)]
      exact decode_branch .jmps 1 2 0
    have same := ((far_short rfl (by decide) 1 2 word).mp correct).1
    exact absurd same (by decide)

end Src32.Asm
