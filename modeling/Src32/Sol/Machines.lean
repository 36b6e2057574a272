import Src32.Lib.Lockstep
import Src32.Sol.Structure

namespace Src32.Sol

/-!
# Running instructions and reading programs

Two machines for the same program.  The first is the loop of `SolVM.run` over
the list of instructions.  The second reads the program as its constructs
nest, with the rest of each open construct on a stack.  Both show what they do
with the data: the words they execute, the tests, the calls and the returns.

What the words do to the data comes from outside, as do the frames of the
calls beyond the place to return to.
-/

variable {ω σ : Type}

/-- What `execute_instruction` does to the data of the machine: the stack, the
memory and the frames.  Nothing stands for an error. -/
structure Data (ω σ : Type) where
  exec : ω -> σ -> Option σ
  /-- The value a jump tests. -/
  pop : σ -> Option (Int × σ)
  /-- A frame for the call of a function. -/
  enter : String -> σ -> Option σ
  /-- `ret`: the frame goes and a value stays. -/
  leave : σ -> Option σ
  /-- `retn`: the frame goes and no value stays. -/
  leaveNone : σ -> Option σ

/-- The frame of a return goes. -/
def Data.returns (d : Data ω σ) : Exit -> σ -> Option σ
  | .retn => d.leaveNone
  | _ => d.leave

inductive Event (ω σ : Type) where
  | word (w : ω)
  | test (value : Int)
  | call (name : String)
  | returned (e : Exit)
  | stopped (data : σ)
  | failed
  deriving DecidableEq

/-! ## The list of instructions -/

inductive Vm (σ : Type) where
  /-- `pc`, the places to return to and the data. -/
  | running (pc : Nat) (calls : List Nat) (data : σ)
  | stopped
  | failed

namespace Vm

/-- The machine goes on at a label, or fails if there is none. -/
def jump (p : Code ω) (l : Label) (calls : List Nat) (data : σ) : Vm σ :=
  match p.labels l with
  | some pc => .running pc calls data
  | none => .failed

/-- A jump that tests: `taken` says which values jump. -/
def branch (p : Code ω) (d : Data ω σ) (taken : Int -> Bool) (l : Label) (pc : Nat) (calls : List Nat) (data : σ) :
    Vm σ × Option (Event ω σ) :=
  match d.pop data with
  | none => (.failed, some .failed)
  | some (value, data) =>
    (if taken value then jump p l calls data else .running (pc + 1) calls data, some (.test value))

/-- A return to the caller. -/
def returnTo (d : Data ω σ) (e : Exit) (calls : List Nat) (data : σ) : Vm σ × Option (Event ω σ) :=
  match calls, d.returns e data with
  | pc :: calls, some data => (.running pc calls data, some (.returned e))
  | _, _ => (.failed, some .failed)

/-- `execute_instruction`. -/
def execute (p : Code ω) (d : Data ω σ) (i : Instr ω) (pc : Nat) (calls : List Nat) (data : σ) :
    Vm σ × Option (Event ω σ) :=
  match i with
  | .word w =>
    match d.exec w data with
    | none => (.failed, some .failed)
    | some data => (.running (pc + 1) calls data, some (.word w))
  | .call name =>
    match p.labels (.function name), d.enter name data with
    | some entry, some data => (.running entry ((pc + 1) :: calls) data, some (.call name))
    | _, _ => (.failed, some .failed)
  | .jmp l => (jump p l calls data, none)
  | .jz l => branch p d (fun value => value = 0) l pc calls data
  | .jnz l => branch p d (fun value => value ≠ 0) l pc calls data
  | .exit .ret => returnTo d .ret calls data
  | .exit .retn => returnTo d .retn calls data
  | .exit .halt => (.stopped, some (.stopped data))

/-- A round of the loop of `run`, which ends behind the last instruction. -/
def step (p : Code ω) (d : Data ω σ) : Vm σ -> Vm σ × Option (Event ω σ)
  | .running pc calls data =>
    match p.instructions[pc]? with
    | none => (.stopped, some (.stopped data))
    | some i => execute p d i pc calls data
  | .stopped => (.stopped, none)
  | .failed => (.failed, none)

end Vm

def vm (p : Code ω) (d : Data ω σ) : Lockstep.Machine (Vm σ) (Event ω σ) := ⟨Vm.step p d⟩

/-! ## The nesting of constructs -/

/-- What is left to do behind a body. -/
inductive Rest (ω : Type) where
  /-- The end of the main program. -/
  | main
  /-- The end of a function. -/
  | routine (r : Routine ω)
  /-- The `else` behind a then-branch. -/
  | atElse (then_ else_ rest : Block ω) (outer : Rest ω)
  /-- The `end` of an `if`. -/
  | atEnd (rest : Block ω) (outer : Rest ω)
  /-- The `end` of a `while`. -/
  | again (body rest : Block ω) (outer : Rest ω)

inductive Reading (ω σ : Type) where
  /-- The body from the next word on, what is left behind it, the callers and
  the data. -/
  | running (b : Block ω) (outer : Rest ω) (calls : List (Block ω × Rest ω)) (data : σ)
  | stopped
  | failed

/-- The function of a name. -/
def Script.lookup (script : Script ω) (name : String) : Option (Routine ω) :=
  script.functions.find? fun r => r.name = name

namespace Reading

/-- A return to the caller. -/
def returnTo (d : Data ω σ) (e : Exit) (calls : List (Block ω × Rest ω)) (data : σ) :
    Reading ω σ × Option (Event ω σ) :=
  match calls, d.returns e data with
  | (b, outer) :: calls, some data => (.running b outer calls data, some (.returned e))
  | _, _ => (.failed, some .failed)

/-- A test: 0 is true. -/
def test (d : Data ω σ) (calls : List (Block ω × Rest ω)) (data : σ) (true_ false_ : Block ω × Rest ω) :
    Reading ω σ × Option (Event ω σ) :=
  match d.pop data with
  | none => (.failed, some .failed)
  | some (value, data) =>
    (if value = 0 then .running true_.1 true_.2 calls data else .running false_.1 false_.2 calls data,
      some (.test value))

/-- The end of a body. -/
def finish (d : Data ω σ) (outer : Rest ω) (calls : List (Block ω × Rest ω)) (data : σ) :
    Reading ω σ × Option (Event ω σ) :=
  match outer with
  | .main => (.stopped, some (.stopped data))
  | .routine _ => returnTo d .retn calls data
  | .atElse _ _ rest outer => (.running rest outer calls data, none)
  | .atEnd rest outer => (.running rest outer calls data, none)
  | .again body rest outer => test d calls data (body, .again body rest outer) (rest, outer)

def step (script : Script ω) (d : Data ω σ) : Reading ω σ -> Reading ω σ × Option (Event ω σ)
  | .running b outer calls data =>
    match b with
    | .done => finish d outer calls data
    | .word [] rest => (.running rest outer calls data, none)
    | .word (w :: ws) rest =>
      match d.exec w data with
      | none => (.failed, some .failed)
      | some data => (.running (.word ws rest) outer calls data, some (.word w))
    | .call name rest =>
      match script.lookup name, d.enter name data with
      | some r, some data => (.running r.block (.routine r) ((rest, outer) :: calls) data, some (.call name))
      | _, _ => (.failed, some .failed)
    | .exit .ret _ => returnTo d .ret calls data
    | .exit .retn _ => returnTo d .retn calls data
    | .exit .halt _ => (.stopped, some (.stopped data))
    | .cond then_ rest => test d calls data (then_, .atEnd rest outer) (rest, outer)
    | .either then_ else_ rest => test d calls data (then_, .atElse then_ else_ rest outer) (else_, .atEnd rest outer)
    | .loop body rest => (.running body (.again body rest outer) calls data, none)
  | .stopped => (.stopped, none)
  | .failed => (.failed, none)

end Reading

def reading (script : Script ω) (d : Data ω σ) : Lockstep.Machine (Reading ω σ) (Event ω σ) :=
  ⟨Reading.step script d⟩

/-- The program starts. -/
def Script.start (script : Script ω) (data : σ) : Reading ω σ := .running script.main .main [] data

def Vm.start (data : σ) : Vm σ := .running 0 [] data

end Src32.Sol
