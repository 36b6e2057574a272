import Mathlib.Data.List.Basic

namespace Src32.Sol

/-!
# From words to instructions

The pass of the sol compiler that turns the words of a program into a list of
instructions: `compile_word_stream` and the end of `compile_program`.  Jumps
name labels, and a table says where each label is.

Words that neither jump nor call come with the straight-line instructions they
stand for: what names, numbers, strings, directives and macros mean is settled
word by word and depends on nothing below.  Hidden labels are numbered; their
names are reserved, so that no function has one.
-/

variable {ω : Type}

/-- `ret`, `retn` and `halt`. -/
inductive Exit where
  | ret
  | retn
  | halt
  deriving DecidableEq, Repr

/-- What `new_hidden_label` is asked for. -/
inductive LabelKind where
  | ifFalse
  | ifEnd
  | whileStart
  deriving DecidableEq, Repr

inductive Label where
  | hidden (kind : LabelKind) (n : Nat)
  | function (name : String)
  deriving DecidableEq, Repr

/-- `Instruction`: a straight-line one, or one that changes the flow of
control. -/
inductive Instr (ω : Type) where
  | word (w : ω)
  | call (name : String)
  | jmp (target : Label)
  | jz (target : Label)
  | jnz (target : Label)
  | exit (e : Exit)
  deriving DecidableEq, Repr

/-- A word of the source. -/
inductive Token (ω : Type) where
  | word (ws : List ω)
  | call (name : String)
  | exit (e : Exit)
  | if_
  | else_
  | end_
  | while_
  deriving DecidableEq, Repr

/-- The errors of the pass. -/
inductive CompileError where
  | ifRequiresEnd
  | elseRequiresEnd
  | whileRequiresEnd
  | unexpectedToken
  | nameConflict
  | undefinedLabel
  /-- The model counts the words it may still read; the source does not. -/
  | outOfFuel
  deriving DecidableEq, Repr

/-! ## The instructions so far -/

/-- `instructions`, `labels` and `control_label_counter`. -/
structure Code (ω : Type) where
  instructions : List (Instr ω)
  labels : Label -> Option Nat
  counter : Nat

/-- `terminal_ops`. -/
def Exit.terminal : Exit -> Bool := fun _ => true

/-- The returns, with which a function body may end. -/
def Exit.returns : Exit -> Bool
  | .ret => true
  | .retn => true
  | .halt => false

namespace Code

def empty : Code ω := ⟨[], fun _ => none, 0⟩

def emit (c : Code ω) (is : List (Instr ω)) : Code ω := { c with instructions := c.instructions ++ is }

/-- The label is here. -/
def place (c : Code ω) (l : Label) : Code ω :=
  { c with labels := Function.update c.labels l (some c.instructions.length) }

/-- `new_hidden_label`: the name and the code with the number used up. -/
def hidden (c : Code ω) (kind : LabelKind) : Label := .hidden kind c.counter

def bump (c : Code ω) : Code ω := { c with counter := c.counter + 1 }

/-- The last instruction is one of these. -/
def endsIn (c : Code ω) (which : Exit -> Bool) : Bool :=
  match c.instructions.getLast? with
  | some (.exit e) => which e
  | _ => false

/-- The start of an `if`. -/
def openIf (c : Code ω) : Code ω := c.bump.emit [.jnz (c.hidden .ifFalse)]

/-- The label a then-branch jumps to at its `else`, unless its last instruction
ends it. -/
def endLabel (c : Code ω) : Option Label := if c.endsIn Exit.terminal then none else some (c.hidden .ifEnd)

/-- The jump at the `else`. -/
def leaveThen (c : Code ω) : Code ω :=
  match c.endLabel with
  | none => c
  | some l => c.bump.emit [.jmp l]

def placeEnd (c : Code ω) : Option Label -> Code ω
  | none => c
  | some l => c.place l

/-- The start of a `while`. -/
def openWhile (c : Code ω) : Code ω := c.bump.place (c.hidden .whileStart)

end Code

/-! ## The pass -/

/-- No stop tokens. -/
def stopsNever : Token ω -> Bool := fun _ => false

/-- The stop tokens of a then-branch. -/
def stopsThen : Token ω -> Bool
  | .else_ => true
  | .end_ => true
  | _ => false

/-- The stop tokens of an else-branch and of a loop. -/
def stopsEnd : Token ω -> Bool
  | .end_ => true
  | _ => false

/-- `compile_word_stream`: the words behind those it has read, and the code. -/
def compileWordStream : Nat -> List (Token ω) -> (Token ω -> Bool) -> Code ω ->
    Except CompileError (List (Token ω) × Code ω)
  | 0, _, _, _ => .error .outOfFuel
  | _ + 1, [], _, c => .ok ([], c)
  | n + 1, tok :: words, stops, c =>
    if stops tok then .ok (tok :: words, c)
    else
      match tok with
      | .word ws => compileWordStream n words stops (c.emit (ws.map .word))
      | .call name => compileWordStream n words stops (c.emit [.call name])
      | .exit e => compileWordStream n words stops (c.emit [.exit e])
      | .if_ =>
        match compileWordStream n words stopsThen c.openIf with
        | .error error => .error error
        | .ok (.else_ :: words, thenCode) =>
          match compileWordStream n words stopsEnd (thenCode.leaveThen.place (c.hidden .ifFalse)) with
          | .error error => .error error
          | .ok (.end_ :: words, elseCode) => compileWordStream n words stops (elseCode.placeEnd thenCode.endLabel)
          | .ok _ => .error .elseRequiresEnd
        | .ok (.end_ :: words, thenCode) => compileWordStream n words stops (thenCode.place (c.hidden .ifFalse))
        | .ok _ => .error .ifRequiresEnd
      | .while_ =>
        match compileWordStream n words stopsEnd c.openWhile with
        | .error error => .error error
        | .ok (.end_ :: words, body) => compileWordStream n words stops (body.emit [.jz (c.hidden .whileStart)])
        | .ok _ => .error .whileRequiresEnd
      | .else_ => .error .unexpectedToken
      | .end_ => .error .unexpectedToken

/-- All the words of a body. -/
def compileAll (words : List (Token ω)) (c : Code ω) : Except CompileError (Code ω) :=
  match compileWordStream (words.length + 1) words stopsNever c with
  | .error error => .error error
  | .ok (_, c) => .ok c

/-- An entry of `functions`, with the instructions that store the initial
values of its locals. -/
structure Function (ω : Type) where
  name : String
  inits : List ω
  body : List (Token ω)

/-- The words of the main program and the functions it reaches, in the order
they are emitted in. -/
structure Source (ω : Type) where
  main : List (Token ω)
  functions : List (Function ω)

/-- The implicit `retn` of a body that does not end in a return. -/
def Code.closeBody (c : Code ω) (start : Nat) : Code ω :=
  if c.instructions.length = start ∨ c.endsIn Exit.returns = false then c.emit [.exit .retn] else c

/-- A round of the loop over `functions`. -/
def compileFunction (c : Code ω) (f : Function ω) : Except CompileError (Code ω) :=
  if (c.labels (.function f.name)).isSome then .error .nameConflict
  else
    match compileAll f.body ((c.place (.function f.name)).emit (f.inits.map .word)) with
    | .error error => .error error
    | .ok body => .ok (body.closeBody c.instructions.length)

/-- The label of a jump. -/
def Instr.target : Instr ω -> Option Label
  | .jmp l => some l
  | .jz l => some l
  | .jnz l => some l
  | _ => none

/-- The check of the jumps at the end. -/
def Code.jumpsDefined (c : Code ω) : Bool :=
  c.instructions.all fun i =>
    match i.target with
    | none => true
    | some l => (c.labels l).isSome

/-- `compile_program` from the main program on. -/
def compileProgram (source : Source ω) : Except CompileError (Code ω) :=
  match compileAll source.main Code.empty with
  | .error error => .error error
  | .ok main =>
    match source.functions.foldlM compileFunction (if source.functions = [] then main else main.emit [.exit .halt]) with
    | .error error => .error error
    | .ok c => if c.jumpsDefined then .ok c else .error .undefinedLabel

end Src32.Sol
