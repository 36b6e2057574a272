import Mathlib.Data.Int.Bitwise
import Src32.Lib.Fallible

namespace Src32.SolVm

/-!
# The interpreter of sol programs

`Program` and `SolVM` of `tools/solc/sol_vm.py`.  Values are Python's integers.  The
stacks have their tops first.  The trace and the profiles of the instructions are left
out.
-/

/-! ## Programs -/

inductive BinaryOp where
  | add | sub | mul | div | mod | and | or | xor | shl | shr | eq | neq | lt | gt | le | ge
  deriving DecidableEq

inductive UnaryOp where
  | neg | not | sgn | ld | ldb | ldh
  deriving DecidableEq

inductive StoreOp where
  | st | stb | sth
  deriving DecidableEq

inductive Op where
  | push | arg | argAddr | localAddr | stacksize
  | binary (op : BinaryOp)
  | unary (op : UnaryOp)
  | store (op : StoreOp)
  | dup | drop | swap | rot | over_ | nip | tuck
  | call | ret | retn | jmp | jz | jnz | halt | asm
  /-- Any other text. -/
  | other (name : String)
  deriving DecidableEq

/-- `int | str | None`. -/
inductive Arg where
  | none
  | int (n : Int)
  | str (s : String)

structure SourceLocation where
  path : Option String
  line : Nat
  column : Nat

/-- `SourceLocation.format`; an empty path counts as none. -/
def SourceLocation.format (l : SourceLocation) : String :=
  (if l.path.getD "" = "" then "<source>" else l.path.getD "") ++ ":" ++ toString l.line ++ ":" ++ toString l.column

structure Instruction where
  op : Op
  arg : Arg := .none
  location : Option SourceLocation := none

structure FunctionMeta where
  argcount : Nat
  nLocals : Nat

structure Program where
  instructions : List Instruction
  labels : String -> Option Nat
  functions : List (String × FunctionMeta)
  readOnlyData : List (Int × List (BitVec 8))
  effectiveStackSizeBytes : Int
  requiredStackSizeBytes : Option Int
  stackTop : Int

def stackSizeBytes : Int := 0x00100000

/-! ## Errors -/

/-- What `execute_instruction` raises. -/
inductive VmError where
  | underflow
  | argOutsideFrame
  | localOutsideFrame
  | argumentOutsideFrame
  | unknownMetadata (name : String)
  | argumentRange (index : Int)
  | unknownFunction (name : String)
  | undefinedLabel (name : String)
  | retWithoutFrame
  | retnWithoutFrame
  | divisionByZero
  | rawAssembly
  | unknownOpcode (name : String)
  /-- `AssertionError`, `KeyError` and `OverflowError`. -/
  | assertion
  | key (name : String)
  | overflow
  deriving DecidableEq

/-! ## Arithmetic -/

/-- `to_i32`. -/
def toI32 (value : Int) : Int := if value % 2 ^ 32 > 2 ^ 31 - 1 then value % 2 ^ 32 - 2 ^ 32 else value % 2 ^ 32

/-- `numerator * 2 ^ shift / denominator`, rounded to the nearest integer, ties to even. -/
def roundedRatio (numerator denominator : Nat) (shift : Int) : Nat :=
  let n := numerator * 2 ^ shift.toNat
  let d := denominator * 2 ^ (-shift).toNat
  let rest := n % d
  if 2 * rest > d ∨ 2 * rest = d ∧ n / d % 2 = 1 then n / d + 1 else n / d

/-- `int(a / b)`: the quotient is a float of 53 bits, rounded to the nearest, and its
fraction is cut off. -/
def intTrueDiv (a b : Int) : Except VmError Int :=
  let n := a.natAbs
  let d := b.natAbs
  if n = 0 then .ok 0
  else
    let guess : Int := (Nat.log2 n : Int) - Nat.log2 d
    let exponent := if d * 2 ^ guess.toNat ≤ n * 2 ^ (-guess).toNat then guess else guess - 1
    let mantissa := roundedRatio n d (52 - exponent)
    if 1024 ≤ exponent ∨ exponent = 1023 ∧ mantissa = 2 ^ 53 then .error .overflow
    else
      let whole : Int := mantissa * 2 ^ (exponent - 52).toNat / 2 ^ (52 - exponent).toNat
      .ok (if (a < 0) = (b < 0) then whole else -whole)

/-- The operators on two values; comparisons give 0 for true. -/
def BinaryOp.apply (a b : Int) : BinaryOp -> Except VmError Int
  | .add => .ok (toI32 (a + b))
  | .sub => .ok (toI32 (a - b))
  | .mul => .ok (toI32 (a * b))
  | .div => do
    if b = 0 then .error .divisionByZero
    else
      let quotient ← intTrueDiv a b
      .ok (toI32 quotient)
  | .mod => if b = 0 then .error .divisionByZero else .ok (toI32 (a.fmod b))
  | .and => .ok (toI32 (a.land b))
  | .or => .ok (toI32 (a.lor b))
  | .xor => .ok (toI32 (a.xor b))
  | .shl => .ok (toI32 (a % 2 ^ 32 * 2 ^ (b % 32).toNat))
  | .shr => .ok (toI32 (a / 2 ^ (b % 32).toNat))
  | .eq => .ok (if a = b then 0 else 1)
  | .neq => .ok (if a ≠ b then 0 else 1)
  | .lt => .ok (if a < b then 0 else 1)
  | .gt => .ok (if a > b then 0 else 1)
  | .le => .ok (if a ≤ b then 0 else 1)
  | .ge => .ok (if a ≥ b then 0 else 1)

/-! ## The machine -/

structure Frame where
  retPc : Nat
  frameBase : Int
  funcName : String
  /-- The height of the data stack below the call. -/
  stackHeight : Nat

structure Vm where
  stack : List Int
  /-- Bytes that were never written are 0. -/
  memory : Int -> BitVec 8
  pc : Nat
  halted : Bool
  r28 : Int
  callStack : List Frame

/-- `_read_mem`. -/
def readMem (memory : Int -> BitVec 8) (address : Int) (size : Nat) : Int :=
  toI32 ((List.range size).foldl (fun value offset => value * 256 + (memory (address + offset)).toNat) (0 : Int))

/-- `_write_mem`. -/
def writeMem (memory : Int -> BitVec 8) (address value : Int) (size : Nat) : Int -> BitVec 8 :=
  (List.range size).foldl
    (fun (memory : Int -> BitVec 8) (offset : Nat) =>
      Function.update memory (address + offset) (BitVec.ofInt 8 (value / 2 ^ (8 * (size - 1 - offset)))))
    memory

def UnaryOp.apply (memory : Int -> BitVec 8) (a : Int) : UnaryOp -> Int
  | .neg => toI32 (-a)
  | .not => toI32 (-a - 1)
  | .sgn => toI32 a % 2 ^ 32 / 2 ^ 31
  | .ld => readMem memory a 4
  | .ldb => readMem memory a 1
  | .ldh => readMem memory a 2

def StoreOp.size : StoreOp -> Nat
  | .st => 4
  | .stb => 1
  | .sth => 2

/-- `_pop`. -/
def pop : List Int -> Except VmError (Int × List Int)
  | [] => .error .underflow
  | value :: rest => .ok (value, rest)

/-- The arguments of a call, the last of them popped first. -/
def popArgs : Nat -> List Int -> List Int -> Except VmError (List Int × List Int)
  | 0, args, stack => .ok (args, stack)
  | n + 1, args, stack => do
    let (value, stack) ← pop stack
    popArgs n (value :: args) stack

/-- `assert isinstance(inst.arg, int)`. -/
def Instruction.intArg (inst : Instruction) : Except VmError Int :=
  match inst.arg with
  | .int n => .ok n
  | _ => .error .assertion

/-- `assert isinstance(inst.arg, str)`. -/
def Instruction.strArg (inst : Instruction) : Except VmError String :=
  match inst.arg with
  | .str s => .ok s
  | _ => .error .assertion

/-- `program.functions.get(name)`. -/
def Program.function (program : Program) (name : String) : Option FunctionMeta := program.functions.lookup name

/-- An element that may be missing. -/
def require {α : Type} (error : VmError) : Option α -> Except VmError α
  | some x => .ok x
  | none => .error error

/-- `stack[:height]`. -/
def bottom (height : Nat) (stack : List Int) : List Int := stack.drop (stack.length - height)

namespace Vm

/-- Go on behind the instruction with another stack. -/
def next (vm : Vm) (stack : List Int) : Vm := { vm with stack := stack, pc := vm.pc + 1 }

/-- The address of an argument of the current frame. -/
def argAddress (program : Program) (frame : Frame) (index : Int) : Except VmError Int := do
  let info ← require (.unknownMetadata frame.funcName) (program.function frame.funcName)
  if index < 0 ∨ index ≥ info.argcount then .error (.argumentRange index)
  else .ok (frame.frameBase + 4 * (info.nLocals + index))

/-- `call`. -/
def call (program : Program) (vm : Vm) (name : String) : Except VmError Vm := do
  let info ← require (.unknownFunction name) (program.function name)
  let (args, stack) ← popArgs info.argcount [] vm.stack
  let r28 := (vm.r28 - 4 * (info.nLocals + info.argcount)) % 2 ^ 32
  let memory := args.zipIdx.foldl (fun memory arg => writeMem memory (r28 + 4 * (info.nLocals + arg.2)) arg.1 4) vm.memory
  let entry ← require (.undefinedLabel name) (program.labels name)
  .ok { vm with
    stack := stack
    memory := memory
    r28 := r28
    callStack := ⟨vm.pc + 1, r28, name, stack.length⟩ :: vm.callStack
    pc := entry }

/-- The end of a frame: the top of the stack stays above the caller's values for `ret`. -/
def leave (program : Program) (vm : Vm) (keep : Bool) (frame : Frame) (rest : List Frame) : Vm :=
  let r28 := match program.function frame.funcName with
    | none => vm.r28
    | some info => (frame.frameBase + 4 * (info.nLocals + info.argcount)) % 2 ^ 32
  { vm with
    stack := (if keep = true ∧ frame.stackHeight < vm.stack.length then vm.stack.take 1 else []) ++
      bottom frame.stackHeight vm.stack
    pc := frame.retPc
    r28 := r28
    callStack := rest }

/-- `labels[inst.arg]`. -/
def target (program : Program) (inst : Instruction) : Except VmError Nat := do
  let name ← inst.strArg
  require (.key name) (program.labels name)

/-- A conditional jump; `labels[inst.arg]` is looked up only where it is taken. -/
def branch (program : Program) (vm : Vm) (inst : Instruction) (taken : Int -> Bool) : Except VmError Vm := do
  let _ ← inst.strArg
  let (cond, stack) ← pop vm.stack
  if taken cond then
    let pc ← target program inst
    .ok { vm with stack := stack, pc := pc }
  else .ok (vm.next stack)

/-- `execute_instruction`. -/
def execute (program : Program) (inst : Instruction) (vm : Vm) : Except VmError Vm :=
  match inst.op with
  | .push => do
    let n ← inst.intArg
    .ok (vm.next (n :: vm.stack))
  | .arg => do
    let index ← inst.intArg
    let frame ← require .argOutsideFrame vm.callStack.head?
    let address ← argAddress program frame index
    .ok (vm.next (readMem vm.memory address 4 :: vm.stack))
  | .localAddr => do
    let index ← inst.intArg
    let frame ← require .localOutsideFrame vm.callStack.head?
    .ok (vm.next ((frame.frameBase + 4 * index) :: vm.stack))
  | .argAddr => do
    let index ← inst.intArg
    let frame ← require .argumentOutsideFrame vm.callStack.head?
    let address ← argAddress program frame index
    .ok (vm.next (address :: vm.stack))
  | .call => do
    let name ← inst.strArg
    vm.call program name
  | .ret =>
    match vm.callStack with
    | [] => .error .retWithoutFrame
    | frame :: rest => .ok (vm.leave program true frame rest)
  | .retn =>
    match vm.callStack with
    | [] => .error .retnWithoutFrame
    | frame :: rest => .ok (vm.leave program false frame rest)
  | .binary op => do
    let (b, stack) ← pop vm.stack
    let (a, stack) ← pop stack
    let value ← op.apply a b
    .ok (vm.next (value :: stack))
  | .unary op => do
    let (a, stack) ← pop vm.stack
    .ok (vm.next (op.apply vm.memory a :: stack))
  | .store op => do
    let (address, stack) ← pop vm.stack
    let (value, stack) ← pop stack
    .ok { vm.next stack with memory := writeMem vm.memory address value op.size }
  | .dup =>
    match vm.stack with
    | a :: stack => .ok (vm.next (a :: a :: stack))
    | _ => .error .underflow
  | .drop => do
    let (_, stack) ← pop vm.stack
    .ok (vm.next stack)
  | .swap =>
    match vm.stack with
    | b :: a :: stack => .ok (vm.next (a :: b :: stack))
    | _ => .error .underflow
  | .over_ =>
    match vm.stack with
    | b :: a :: stack => .ok (vm.next (a :: b :: a :: stack))
    | _ => .error .underflow
  | .rot =>
    match vm.stack with
    | c :: b :: a :: stack => .ok (vm.next (a :: c :: b :: stack))
    | _ => .error .underflow
  | .nip =>
    match vm.stack with
    | b :: _ :: stack => .ok (vm.next (b :: stack))
    | _ => .error .underflow
  | .tuck =>
    match vm.stack with
    | b :: a :: stack => .ok (vm.next (b :: a :: b :: stack))
    | _ => .error .underflow
  | .jmp => do
    let pc ← target program inst
    .ok { vm with pc := pc }
  | .jz => vm.branch program inst fun cond => cond = 0
  | .jnz => vm.branch program inst fun cond => cond ≠ 0
  | .asm => .error .rawAssembly
  | .halt => .ok { vm with halted := true, pc := vm.pc + 1 }
  | .stacksize => .ok (vm.next (program.effectiveStackSizeBytes :: vm.stack))
  | .other name => .error (.unknownOpcode name)

/-- The machine after `load`, which leaves the stack as it is. -/
def load (program : Program) (stack : List Int) : Vm where
  stack := stack
  memory := program.readOnlyData.foldl
    (fun memory data => data.2.zipIdx.foldl (fun memory byte => Function.update memory (data.1 + byte.2) byte.1) memory)
    (fun _ => 0)
  pc := 0
  halted := false
  r28 := program.stackTop
  callStack := []

end Vm

/-! ## Runs -/

/-- What `run` raises. -/
inductive RunError where
  | effectiveSize (size : Int)
  | requiredSize (size : Int)
  | requiredAboveEffective (required effective : Int)
  | stepLimit (location : Option SourceLocation)
  /-- An error of an instruction; its location stands before the text. -/
  | raised (location : Option SourceLocation) (error : VmError)

/-- `format_error`. -/
def formatError (message : String) : Option SourceLocation -> String
  | some location => location.format ++ ": " ++ message
  | none => message

/-- The loop of `run`, for the steps that are left. -/
def Vm.loop (program : Program) : Nat -> Vm -> Except RunError Vm
  | left, vm =>
    match program.instructions[vm.pc]? with
    | none => .ok vm
    | some inst =>
      if vm.halted then .ok vm
      else
        match left with
        | 0 => .error (.stepLimit inst.location)
        | left + 1 =>
          match vm.execute program inst with
          | .error error => .error (.raised inst.location error)
          | .ok vm => Vm.loop program left vm

/-- `run`; the result is the machine, whose stack is returned. -/
def Vm.run (maxSteps : Nat) (program : Program) (vm : Vm) : Except RunError Vm :=
  if program.effectiveStackSizeBytes < 0 ∨ program.effectiveStackSizeBytes > stackSizeBytes then
    .error (.effectiveSize program.effectiveStackSizeBytes)
  else
    match program.requiredStackSizeBytes with
    | none => vm.loop program maxSteps
    | some required =>
      if required > stackSizeBytes then .error (.requiredSize required)
      else if required > program.effectiveStackSizeBytes then
        .error (.requiredAboveEffective required program.effectiveStackSizeBytes)
      else vm.loop program maxSteps

end Src32.SolVm
