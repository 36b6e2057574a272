import Mathlib.Data.List.Sort
import Src32.Lib.Dataflow
import Src32.Sol.Interpreter

namespace Src32.SolVm

/-!
# The static check of stack depths

`_check_static_stack_safety` of `tools/solc/sol_compiler.py`.  The instructions are cut
into segments, one for the main program and one for each function, and every segment is
searched from its start with depth 0.  The check returns nothing; here it gives the
depths it has found.
-/

/-- What the check raises. -/
inductive CheckError where
  | compile (text : String)
  | assertion
  | key (name : String)
  | index
  /-- The given number of rounds is over. -/
  | unfinished
  deriving DecidableEq

/-! ## Segments -/

structure Segment where
  /-- Nothing stands for the main program. -/
  name : Option String
  start : Nat
  stop : Nat

namespace Segment

/-- The program counters of a segment. -/
def Contains (s : Segment) (pc : Nat) : Prop := s.start ≤ pc ∧ pc < s.stop

instance (s : Segment) (pc : Nat) : Decidable (s.Contains pc) := inferInstanceAs (Decidable (_ ∧ _))

end Segment

/-- `program.instructions[pc]`. -/
def Program.fetch (program : Program) (pc : Nat) : Except CheckError Instruction :=
  match program.instructions[pc]? with
  | some inst => .ok inst
  | none => .error .index

/-- `program.labels[name]`. -/
def Program.label (program : Program) (name : String) : Except CheckError Nat :=
  match program.labels name with
  | some pc => .ok pc
  | none => .error (.key name)

/-- The starts of the functions, with their names. -/
def functionStarts (program : Program) : List (String × FunctionMeta) -> Except CheckError (List (String × Nat))
  | [] => .ok []
  | (name, _) :: rest => do
    let start ← program.label name
    let more ← functionStarts program rest
    .ok ((name, start) :: more)

/-- `following[0] if following else instruction_count`, among sorted starts. -/
def segmentStop (count : Nat) (starts : List Nat) (start : Nat) : Nat :=
  ((starts.filter fun pc => start < pc).head?).getD count

/-- The segments of a program. -/
def segmentsOf (count : Nat) (named : List (String × Nat)) : List Segment :=
  let starts := (named.map Prod.snd).insertionSort (· ≤ ·)
  ⟨none, 0, starts.head?.getD count⟩ :: named.map fun f => ⟨some f.1, f.2, segmentStop count starts f.2⟩

/-- `any(program.instructions[pc].op == "ret" ...)`, which ends with the first one. -/
def anyRet (program : Program) : List Nat -> Except CheckError Bool
  | [] => .ok false
  | pc :: rest => do
    let inst ← program.fetch pc
    if inst.op = .ret then .ok true else anyRet program rest

/-- `return_effect`: the values that the functions return. -/
def returnEffects (program : Program) : List Segment -> Except CheckError (List (String × Int))
  | [] => .ok []
  | s :: rest =>
    match s.name with
    | none => returnEffects program rest
    | some name => do
      let ret ← anyRet program (List.range' s.start (s.stop - s.start))
      let more ← returnEffects program rest
      .ok ((name, if ret then 1 else 0) :: more)

/-! ## One instruction -/

def BinaryOp.name : BinaryOp -> String
  | .add => "add"
  | .sub => "sub"
  | .mul => "mul"
  | .div => "div"
  | .mod => "mod"
  | .and => "and"
  | .or => "or"
  | .xor => "xor"
  | .shl => "shl"
  | .shr => "shr"
  | .eq => "eq"
  | .neq => "neq"
  | .lt => "lt"
  | .gt => "gt"
  | .le => "le"
  | .ge => "ge"

def UnaryOp.name : UnaryOp -> String
  | .neg => "neg"
  | .not => "not"
  | .sgn => "sgn"
  | .ld => "ld"
  | .ldb => "ldb"
  | .ldh => "ldh"

def StoreOp.name : StoreOp -> String
  | .st => "st"
  | .stb => "stb"
  | .sth => "sth"

def Op.name : Op -> String
  | .push => "push"
  | .arg => "arg"
  | .argAddr => "arg_addr"
  | .localAddr => "local_addr"
  | .stacksize => "stacksize"
  | .binary op => op.name
  | .unary op => op.name
  | .store op => op.name
  | .dup => "dup"
  | .drop => "drop"
  | .swap => "swap"
  | .rot => "rot"
  | .over_ => "over"
  | .nip => "nip"
  | .tuck => "tuck"
  | .call => "call"
  | .ret => "ret"
  | .retn => "retn"
  | .jmp => "jmp"
  | .jz => "jz"
  | .jnz => "jnz"
  | .halt => "halt"
  | .asm => "asm"
  | .other name => name

/-- `fail`: the location stands before the text. -/
def Instruction.fail (inst : Instruction) (message : String) : CheckError := .compile (formatError message inst.location)

/-- `inst.arg` where it has to be a name. -/
def Instruction.nameArg (inst : Instruction) : Except CheckError String :=
  match inst.arg with
  | .str s => .ok s
  | _ => .error .assertion

/-- `delta` and `required` of an instruction at a depth. -/
def effect (program : Program) (effects : List (String × Int)) (depth : Int) (inst : Instruction) :
    Except CheckError (Int × Int) :=
  match inst.op with
  | .push | .arg | .argAddr | .localAddr | .stacksize => .ok (1, 0)
  | .binary _ => .ok (-1, 2)
  | .unary _ => .ok (0, 1)
  | .dup => .ok (1, 1)
  | .drop => .ok (-1, 1)
  | .swap => .ok (0, 2)
  | .rot => .ok (0, 3)
  | .over_ => .ok (1, 2)
  | .nip => .ok (-1, 2)
  | .tuck => .ok (1, 2)
  | .store _ => .ok (-2, 2)
  | .jz | .jnz => .ok (-1, 1)
  | .call => do
    let name ← inst.nameArg
    match program.function name, effects.lookup name with
    | some info, some returned => .ok (-info.argcount + returned, info.argcount)
    | some _, none => .error (.key name)
    | none, _ => .error (inst.fail ("call to unknown function: " ++ name))
  | .ret => .ok (0, 1)
  | .retn => .ok (-depth, 0)
  | .jmp | .halt | .asm => .ok (0, 0)
  | .other name => .error (inst.fail ("cannot analyze stack effect of opcode: " ++ name))

/-- `max(0, stack_capacity_bytes) // 4`. -/
def capacityOf (stackCapacityBytes : Int) : Int := max 0 stackCapacityBytes / 4

/-- `transfer`. -/
def transfer (program : Program) (effects : List (String × Int)) (capacity : Int) (depth : Int) (pc : Nat) (inst : Instruction) :
    Except CheckError Int := do
  let (delta, required) ← effect program effects depth inst
  if depth < required then
    .error (inst.fail ("stack underflow at " ++ inst.op.name ++ " (pc " ++ toString pc ++ "): requires " ++
      toString required ++ ", has " ++ toString depth))
  else if depth + delta > capacity then
    .error (inst.fail ("stack overflow at " ++ inst.op.name ++ " (pc " ++ toString pc ++ "): depth " ++
      toString (depth + delta) ++ " exceeds " ++ toString capacity))
  else .ok (depth + delta)

/-- `successors`, the last of them to be visited first. -/
def successors (program : Program) (pc stop : Nat) (inst : Instruction) : Except CheckError (List Nat) :=
  match inst.op with
  | .halt | .ret | .retn => .ok []
  | .jmp => do
    let name ← inst.nameArg
    let target ← program.label name
    .ok [target]
  | .jz | .jnz => do
    let name ← inst.nameArg
    let target ← program.label name
    .ok (if pc + 1 < stop then [pc + 1, target] else [target])
  | _ => .ok (if pc + 1 < stop then [pc + 1] else [])

/-! ## One segment -/

/-- The visit of an instruction: its successors and the depth behind it. -/
def visit (program : Program) (effects : List (String × Int)) (capacity : Int) (s : Segment) (pc : Nat) (depth : Int) :
    Except CheckError (List Nat × Int) := do
  let inst ← program.fetch pc
  let after ← transfer program effects capacity depth pc inst
  if s.name.isSome ∧ (inst.op = .ret ∧ after ≠ 1 ∨ inst.op = .retn ∧ after ≠ 0) then
    .error (inst.fail ("function '" ++ s.name.getD "" ++ "' returns with invalid stack depth " ++ toString after))
  else
    let targets ← successors program pc s.stop inst
    .ok (targets, after)

/-- The location of an instruction with `: `, or nothing. -/
def locationText (program : Program) (pc : Nat) : String :=
  match program.instructions[pc]? with
  | some inst => formatError "" inst.location
  | none => ""

/-- The search through a segment. -/
def segmentFlow (program : Program) (effects : List (String × Int)) (capacity : Int) (s : Segment) :
    Dataflow Nat Int CheckError where
  visit := visit program effects capacity s
  allow pc target :=
    if target < s.start ∨ target ≥ s.stop then .error (.compile ("invalid control-flow target at pc " ++ toString pc))
    else .ok ()
  clash pc after target old :=
    if target ≤ pc ∧ after > old then
      .compile (locationText program pc ++ "stack overflow: loop increases depth from " ++ toString old ++ " to " ++
        toString after)
    else
      .compile (locationText program pc ++ "inconsistent stack depth at pc " ++ toString target ++ ": " ++ toString old ++
        " and " ++ toString after)
  missing := .index
  unfinished := .unfinished

/-- The depths that the check assigns to the instructions of a segment. -/
abbrev Depths := Nat -> Option Int

def segmentDepths (rounds : Nat) (program : Program) (effects : List (String × Int)) (capacity : Int) (s : Segment) :
    Except CheckError Depths :=
  (segmentFlow program effects capacity s).rounds rounds (Function.update (fun _ => none) s.start (some 0)) [s.start]

/-! ## The whole program -/

/-- The segments one after the other. -/
def checkSegments (rounds : Nat) (program : Program) (effects : List (String × Int)) (capacity : Int) :
    List Segment -> Except CheckError (List (Segment × Depths))
  | [] => .ok []
  | s :: rest => do
    let depths ← segmentDepths rounds program effects capacity s
    let more ← checkSegments rounds program effects capacity rest
    .ok ((s, depths) :: more)

/-- `_check_static_stack_safety`, with at most `rounds` rounds for a segment. -/
def checkStaticStackSafety (rounds : Nat) (program : Program) (stackCapacityBytes : Int) :
    Except CheckError (List (Segment × Depths)) :=
  if program.instructions = [] then .ok []
  else do
    let named ← functionStarts program program.functions
    let segments := segmentsOf program.instructions.length named
    let effects ← returnEffects program segments
    checkSegments rounds program effects (capacityOf stackCapacityBytes) segments

end Src32.SolVm
