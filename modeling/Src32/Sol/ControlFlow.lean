import Src32.Sol.Layout
import Src32.Sol.Machines

namespace Src32.Sol

/-!
# Instructions follow the nesting

The machine that runs the instructions of a program shows what its reading
shows, as long as no body is left at a place where the pass has taken the last
instruction for the end of all its paths.  At such a place the code goes on:
from a then-branch into the else-branch, or from a function into the next one.
-/

variable {ω σ : Type} {p : Code ω}

/-! ## Places and readings -/

/-- The code at `q` does what is left behind a body. -/
def RestAt (p : Code ω) : Rest ω -> Nat -> Prop
  | .main, q => p.instructions[q]? = none ∨ p.instructions[q]? = some (.exit .halt)
  | .routine r, q => r.block.ends Exit.returns false = false -> p.instructions[q]? = some (.exit .retn)
  | .atElse then_ else_ rest outer, q =>
    if then_.ends Exit.terminal false = true then else_.silent = true -> ∃ q', At p rest q q' ∧ RestAt p outer q'
    else ∃ l m q', p.instructions[q]? = some (.jmp l) ∧ p.labels l = some m ∧ At p rest m q' ∧ RestAt p outer q'
  | .atEnd rest outer, q => ∃ q', At p rest q q' ∧ RestAt p outer q'
  | .again body rest outer, q =>
    ∃ l s q', p.instructions[q]? = some (.jz l) ∧ p.labels l = some s ∧ At p body s q ∧ At p rest (q + 1) q' ∧
      RestAt p outer q'

/-- The callers' bodies go on at the places to return to. -/
def CallsAt (p : Code ω) (calls : List (Block ω × Rest ω)) (pcs : List Nat) : Prop :=
  List.Forall₂ (fun call pc => ∃ q, At p call.1 pc q ∧ RestAt p call.2 q) calls pcs

/-- The machine is where the reading is. -/
inductive Beside (p : Code ω) : Reading ω σ -> Vm σ -> Prop where
  | running {b : Block ω} {outer : Rest ω} {calls : List (Block ω × Rest ω)} {pc q : Nat} {pcs : List Nat} {data : σ}
      (code : At p b pc q) (rest : RestAt p outer q) (callers : CallsAt p calls pcs) :
      Beside p (.running b outer calls data) (.running pc pcs data)
  | stopped : Beside p .stopped .stopped
  | failed : Beside p .failed .failed

/-- The reading leaves a body where the pass has emitted nothing for it: a
then-branch in front of an else-branch, or a function. -/
def Reading.falls : Reading ω σ -> Bool
  | .running .done (.atElse then_ else_ _ _) _ _ => then_.ends Exit.terminal false && !else_.silent
  | .running .done (.routine r) _ _ => r.block.ends Exit.returns false
  | _ => false

/-- How much can be done in silence. -/
def Block.size : Block ω -> Nat
  | .done => 0
  | .word _ rest => rest.size + 1
  | .call _ rest => rest.size + 1
  | .exit _ rest => rest.size + 1
  | .cond then_ rest => then_.size + rest.size + 1
  | .either then_ else_ rest => then_.size + else_.size + rest.size + 1
  | .loop body rest => body.size + rest.size + 2

def Rest.size : Rest ω -> Nat
  | .main => 0
  | .routine _ => 0
  | .atElse _ _ rest outer => rest.size + outer.size + 1
  | .atEnd rest outer => rest.size + outer.size + 1
  | .again _ rest outer => rest.size + outer.size + 1

def Reading.size : Reading ω σ -> Nat
  | .running b outer _ _ => b.size + outer.size
  | _ => 0

/-- The parts of a program lie where the machine looks for them. -/
structure Laid (p : Code ω) (script : Script ω) : Prop where
  main : ∃ q, At p script.main 0 q ∧ RestAt p .main q
  found : ∀ name r, script.lookup name = some r ->
    ∃ entry q, p.labels (.function name) = some entry ∧ At p r.block entry q ∧ RestAt p (.routine r) q
  missing : ∀ name, script.lookup name = none -> p.labels (.function name) = none

/-! ## One step -/

/-- A body that emits nothing has no extent. -/
theorem at_silent {b : Block ω} (silent : b.silent = true) {s q : Nat} (code : At p b s q) : q = s := by
  induction b generalizing s with
  | done => exact code
  | word ws rest ih =>
    unfold Block.silent at silent
    rw [Bool.and_eq_true, List.isEmpty_iff] at silent
    obtain ⟨rfl, later⟩ := silent
    exact ih later code.2
  | call _ _ _ | exit _ _ _ | cond _ _ _ _ | either _ _ _ _ _ _ | loop _ _ _ _ => cases silent

variable {calls : List (Block ω × Rest ω)} {script : Script ω} {pcs : List Nat} {c : Code ω} {pc : Nat}

theorem vm_step {d : Data ω σ} {i : Instr ω} (here : p.instructions[pc]? = some i) (pcs : List Nat) (data : σ) :
    Vm.step p d (.running pc pcs data) = Vm.execute p d i pc pcs data := by
  unfold Vm.step
  dsimp only
  rw [here]

/-- Returns go to the same caller. -/
theorem returns_beside (d : Data ω σ) (e : Exit) (callers : CallsAt p calls pcs) (data : σ) :
    Beside p (Reading.returnTo d e calls data).1 (Vm.returnTo d e pcs data).1 ∧
      (Vm.returnTo d e pcs data).2 = (Reading.returnTo d e calls data).2 := by
  unfold Reading.returnTo Vm.returnTo
  cases callers with
  | nil => exact ⟨.failed, rfl⟩
  | cons caller callers =>
    cases d.returns e data with
    | none => exact ⟨.failed, rfl⟩
    | some data =>
      obtain ⟨q, code, rest⟩ := caller
      exact ⟨.running code rest callers, rfl⟩

/-- A test takes the branch of the reading. -/
theorem test_beside (d : Data ω σ) {taken : Int -> Bool} {l : Label} {target : Nat}
    {true_ false_ : Block ω × Rest ω} (label : p.labels l = some target) (callers : CallsAt p calls pcs)
    (places : ∀ value : Int, ∃ q, At p (if value = 0 then true_ else false_).1 (if taken value then target else pc + 1) q ∧
      RestAt p (if value = 0 then true_ else false_).2 q) (data : σ) :
    Beside p (Reading.test d calls data true_ false_).1 (Vm.branch p d taken l pc pcs data).1 ∧
      (Vm.branch p d taken l pc pcs data).2 = (Reading.test d calls data true_ false_).2 := by
  unfold Reading.test Vm.branch
  cases d.pop data with
  | none => exact ⟨.failed, rfl⟩
  | some popped =>
    obtain ⟨value, data⟩ := popped
    refine ⟨?_, rfl⟩
    obtain ⟨q, code, rest⟩ := places value
    dsimp only
    have machine : (if taken value = true then Vm.jump p l pcs data else .running (pc + 1) pcs data) =
        .running (if taken value then target else pc + 1) pcs data := by
      unfold Vm.jump
      rw [label]
      split <;> rfl
    have reader : (if value = 0 then Reading.running true_.1 true_.2 calls data
        else .running false_.1 false_.2 calls data) =
        .running (if value = 0 then true_ else false_).1 (if value = 0 then true_ else false_).2 calls data := by
      split <;> rfl
    rw [machine, reader]
    exact .running code rest callers

/-- The end of a body, when the reading does not fall there. -/
theorem finish_follows (d : Data ω σ) {outer : Rest ω} (data : σ) (rest : RestAt p outer pc)
    (callers : CallsAt p calls pcs) (sound : (Reading.running .done outer calls data).falls = false) :
    (Beside p (Reading.step script d (.running .done outer calls data)).1 (Vm.step p d (.running pc pcs data)).1 ∧
        (Vm.step p d (.running pc pcs data)).2 = (Reading.step script d (.running .done outer calls data)).2) ∨
      (Beside p (Reading.step script d (.running .done outer calls data)).1 (.running pc pcs data) ∧
        (Reading.step script d (.running .done outer calls data)).2 = none ∧
        (Reading.step script d (.running .done outer calls data)).1.size <
          (Reading.running .done outer calls data).size) := by
  cases outer with
  | main =>
    left
    rcases rest with nothing | halts
    · unfold Vm.step
      dsimp only
      rw [nothing]
      exact ⟨.stopped, rfl⟩
    · rw [vm_step halts]
      exact ⟨.stopped, rfl⟩
  | routine r =>
    left
    rw [vm_step (rest sound)]
    exact returns_beside d .retn callers data
  | atElse then_ else_ next outer =>
    unfold RestAt at rest
    by_cases last : then_.ends Exit.terminal false = true
    · -- the then-branch ends in an exit but was left, which only an empty else-branch forgives
      right
      rw [if_pos last] at rest
      have empty : else_.silent = true := by
        change (then_.ends Exit.terminal false && !else_.silent) = false at sound
        rw [last, Bool.true_and, Bool.not_eq_false'] at sound
        exact sound
      obtain ⟨q', code, later⟩ := rest empty
      refine ⟨.running code later callers, rfl, ?_⟩
      change next.size + outer.size < 0 + (next.size + outer.size + 1)
      omega
    · left
      rw [if_neg last] at rest
      obtain ⟨l, m, q', jumps, label, code, later⟩ := rest
      rw [vm_step jumps]
      unfold Vm.execute Vm.jump
      dsimp only
      rw [label]
      exact ⟨.running code later callers, rfl⟩
  | atEnd next outer =>
    right
    obtain ⟨q', code, later⟩ := rest
    refine ⟨.running code later callers, rfl, ?_⟩
    change next.size + outer.size < 0 + (next.size + outer.size + 1)
    omega
  | again body next outer =>
    left
    obtain ⟨l, s, q', tests, label, bodyAt, nextAt, later⟩ := rest
    rw [vm_step tests]
    refine test_beside d label callers (fun value => ?_) data
    by_cases true_ : value = 0
    · rw [if_pos true_, if_pos (decide_eq_true true_)]
      exact ⟨pc, bodyAt, l, s, q', tests, label, bodyAt, nextAt, later⟩
    · rw [if_neg true_, if_neg (by rw [decide_eq_false true_]; exact Bool.false_ne_true)]
      exact ⟨q', nextAt, later⟩

/-- The machine follows the reading of the program. -/
theorem follows (laid : Laid p script) (d : Data ω σ) :
    Lockstep.Follows (reading script d) (vm p d) (Beside p) (fun s => s.falls = false) Reading.size := by
  refine ⟨fun s t beside sound => ?_⟩
  cases beside with
  | stopped => exact Or.inl ⟨.stopped, rfl⟩
  | failed => exact Or.inl ⟨.failed, rfl⟩
  | @running b outer calls pc q pcs data code rest callers =>
    change (Beside p (Reading.step script d _).1 (Vm.step p d _).1 ∧ (Vm.step p d _).2 = (Reading.step script d _).2) ∨
      (Beside p (Reading.step script d _).1 _ ∧ (Reading.step script d _).2 = none ∧
        (Reading.step script d _).1.size < _)
    cases b with
    | done =>
      have here : q = pc := code
      subst here
      exact finish_follows d data rest callers sound
    | word ws next =>
      cases ws with
      | nil =>
        right
        refine ⟨.running code.2 rest callers, rfl, ?_⟩
        change next.size + outer.size < next.size + 1 + outer.size
        omega
      | cons w ws =>
        left
        obtain ⟨⟨stands, others⟩, later⟩ := code
        rw [vm_step stands]
        unfold Reading.step Vm.execute
        dsimp only
        cases d.exec w data with
        | none => exact ⟨.failed, rfl⟩
        | some data =>
          have length : pc + (w :: ws).length = pc + 1 + ws.length := by
            rw [List.length_cons]
            omega
          rw [length] at later
          exact ⟨.running ⟨others, later⟩ rest callers, rfl⟩
    | call name next =>
      left
      obtain ⟨stands, later⟩ := code
      rw [vm_step stands]
      unfold Reading.step Vm.execute
      dsimp only
      cases found : script.lookup name with
      | none =>
        rw [laid.missing name found]
        exact ⟨.failed, rfl⟩
      | some r =>
        obtain ⟨entry, q', label, bodyAt, ends⟩ := laid.found name r found
        rw [label]
        cases d.enter name data with
        | none => exact ⟨.failed, rfl⟩
        | some data => exact ⟨.running bodyAt ends (.cons ⟨q, later, rest⟩ callers), rfl⟩
    | exit e next =>
      left
      obtain ⟨stands, _⟩ := code
      rw [vm_step stands]
      cases e with
      | ret => exact returns_beside d .ret callers data
      | retn => exact returns_beside d .retn callers data
      | halt => exact ⟨.stopped, rfl⟩
    | cond then_ next =>
      left
      obtain ⟨l, m, stands, label, thenAt, nextAt⟩ := code
      rw [vm_step stands]
      refine test_beside d label callers (fun value => ?_) data
      by_cases true_ : value = 0
      · rw [if_pos true_, if_neg (by rw [decide_eq_false (not_not.mpr true_)]; exact Bool.false_ne_true)]
        exact ⟨m, thenAt, q, nextAt, rest⟩
      · rw [if_neg true_, if_pos (decide_eq_true true_)]
        exact ⟨q, nextAt, rest⟩
    | either then_ else_ next =>
      left
      obtain ⟨l, a, m, stands, thenAt, nextAt, branches⟩ := code
      rw [vm_step stands]
      by_cases last : then_.ends Exit.terminal false = true
      · rw [if_pos last] at branches
        obtain ⟨label, elseAt⟩ := branches
        refine test_beside d label callers (fun value => ?_) data
        by_cases true_ : value = 0
        · rw [if_pos true_, if_neg (by rw [decide_eq_false (not_not.mpr true_)]; exact Bool.false_ne_true)]
          refine ⟨a, thenAt, ?_⟩
          unfold RestAt
          rw [if_pos last]
          intro silent
          have same := at_silent silent elseAt
          subst same
          exact ⟨q, nextAt, rest⟩
        · rw [if_neg true_, if_pos (decide_eq_true true_)]
          exact ⟨m, elseAt, q, nextAt, rest⟩
      · rw [if_neg last] at branches
        obtain ⟨label, elseAt, l', jumps, endLabel⟩ := branches
        refine test_beside d label callers (fun value => ?_) data
        by_cases true_ : value = 0
        · rw [if_pos true_, if_neg (by rw [decide_eq_false (not_not.mpr true_)]; exact Bool.false_ne_true)]
          refine ⟨a, thenAt, ?_⟩
          unfold RestAt
          rw [if_neg last]
          exact ⟨l', m, q, jumps, endLabel, nextAt, rest⟩
        · rw [if_neg true_, if_pos (decide_eq_true true_)]
          exact ⟨m, elseAt, q, nextAt, rest⟩
    | loop body next =>
      right
      obtain ⟨l, a, bodyAt, tests, label, nextAt⟩ := code
      refine ⟨.running bodyAt ⟨l, pc, q, tests, label, bodyAt, nextAt, rest⟩ callers, rfl, ?_⟩
      change body.size + (next.size + outer.size + 1) < body.size + next.size + 2 + outer.size
      omega

/-! ## The code of a program -/

/-- What the pass has emitted for a function stays where it is. -/
theorem grown_routine (r : Routine ω) (new : c.labels (.function r.name) = none) :
    Grown c (r.emit c) ∧ (r.emit c).labels (.function r.name) = some c.here := by
  have placed : Grown c (c.place (.function r.name)) :=
    ⟨List.prefix_refl _, Nat.le_refl _, fun kind n _ => place_other c (fun same => by cases same), fun name place known => by
      refine (place_other c fun same => ?_).trans known
      rw [same, new] at known
      cases known⟩
  have body := grown_body r.block (c.place (.function r.name))
  have closed : Grown (r.block.emit (c.place (.function r.name))) (r.emit c) := by
    unfold Routine.emit Code.closeBody
    split
    · exact grown_emit _ _
    · exact Grown.refl _
  refine ⟨placed.trans (body.trans closed), ?_⟩
  exact closed.functions _ _ (body.functions _ _ (place_self c _))

/-- The code of a function: its body, and a `retn` unless its last instruction
returns. -/
theorem routine_at (r : Routine ω) (grown : Grown (r.emit c) p) :
    ∃ q, At p r.block c.here q ∧ RestAt p (.routine r) q := by
  have kept : (r.block.emit (c.place (.function r.name))).instructions <+: p.instructions := by
    refine List.IsPrefix.trans ?_ grown.instructions
    unfold Routine.emit Code.closeBody
    split
    · exact List.prefix_append _ _
    · exact List.prefix_refl _
  have settled : Settled p (r.block.emit (c.place (.function r.name))) (c.place (.function r.name)).counter := by
    intro kind n _ below
    have counter : (r.emit c).counter = (r.block.emit (c.place (.function r.name))).counter := by
      unfold Routine.emit Code.closeBody
      split <;> rfl
    have labels : (r.emit c).labels = (r.block.emit (c.place (.function r.name))).labels := by
      unfold Routine.emit Code.closeBody
      split <;> rfl
    rw [grown.hidden kind n (counter ▸ below), labels]
  refine ⟨_, emit_at p r.block (c.place (.function r.name)) kept settled, fun open_ => ?_⟩
  have closes : (r.block.emit (c.place (.function r.name))).closeBody c.instructions.length =
      (r.block.emit (c.place (.function r.name))).emit [.exit .retn] := by
    unfold Code.closeBody
    cases silent : r.block.silent with
    | true =>
      have nothing : (r.block.emit (c.place (.function r.name))).instructions.length = c.instructions.length :=
        congrArg List.length (emit_silent silent (c.place (.function r.name)))
      rw [if_pos (Or.inl nothing)]
    | false =>
      have last : (r.block.emit (c.place (.function r.name))).endsIn Exit.returns = false := by
        rw [emit_endsIn, ends_loud silent _ false]
        exact open_
      rw [if_pos (Or.inr last)]
  have whole : ((r.block.emit (c.place (.function r.name))).emit [.exit .retn]).instructions <+: p.instructions := by
    rw [← closes]
    exact grown.instructions
  exact @instruction_at _ (r.block.emit (c.place (.function r.name))) _ _ whole

/-- The functions of the program, laid one behind the other. -/
theorem functions_laid {routines : List (Routine ω)}
    (compiled : (routines.map Routine.function).foldlM compileFunction c = .ok p) :
    Grown c p ∧
      (∀ r ∈ routines, ∃ entry q, p.labels (.function r.name) = some entry ∧ At p r.block entry q ∧
        RestAt p (.routine r) q) ∧
      ∀ name, (∀ r ∈ routines, r.name ≠ name) -> p.labels (.function name) = c.labels (.function name) := by
  induction routines generalizing c with
  | nil =>
    cases compiled
    exact ⟨Grown.refl _, nofun, fun _ _ => rfl⟩
  | cons r rest ih =>
    rw [List.map_cons, List.foldlM_cons] at compiled
    obtain ⟨next, first, later⟩ := Fallible.bind_ok compiled
    obtain ⟨new, emitted⟩ := compileFunction_ok first
    subst emitted
    obtain ⟨grown, laid, others⟩ := ih later
    obtain ⟨onto, label⟩ := grown_routine r new
    refine ⟨onto.trans grown, fun r' member => ?_, fun name differ => ?_⟩
    · rcases List.mem_cons.mp member with rfl | member
      · obtain ⟨q, code, ends⟩ := routine_at r' grown
        exact ⟨c.here, q, grown.functions _ _ label, code, ends⟩
      · exact laid r' member
    · rw [others name fun r' member => differ r' (List.mem_cons_of_mem r member)]
      exact routine_functions r c (Ne.symm (differ r List.mem_cons_self))

/-- An accepted program is laid out as its constructs say. -/
theorem laid_of_compiled
    (compiled : (script.functions.map Routine.function).foldlM compileFunction script.mainCode = .ok p) :
    Laid p script := by
  obtain ⟨grown, routines, others⟩ := functions_laid compiled
  have mainKept : Grown (script.main.emit Code.empty) script.mainCode := by
    unfold Script.mainCode
    split
    · exact Grown.refl _
    · exact grown_emit _ _
  refine ⟨?_, fun name r found => ?_, fun name missing => ?_⟩
  · refine ⟨_, emit_at p script.main Code.empty (mainKept.trans grown).instructions
      fun kind n _ below => (mainKept.trans grown).hidden kind n below, ?_⟩
    unfold RestAt
    by_cases alone : script.functions = []
    · left
      rw [alone] at compiled
      cases compiled
      unfold Script.mainCode
      rw [if_pos alone]
      exact List.getElem?_eq_none (Nat.le_refl _)
    · right
      have halts : ((script.main.emit Code.empty).emit [.exit .halt]).instructions <+: p.instructions := by
        have kept := grown.instructions
        unfold Script.mainCode at kept
        rw [if_neg alone] at kept
        exact kept
      exact instruction_at halts
  · have named : r.name = name := by
      have test := List.find?_some found
      exact of_decide_eq_true test
    subst named
    exact routines r (List.mem_of_find?_eq_some found)
  · have differ : ∀ r ∈ script.functions, r.name ≠ name := by
      intro r member same
      have misses := List.find?_eq_none.mp missing r member
      exact misses (decide_eq_true same)
    rw [others name differ]
    exact mainCode_functions script name

/-- The parts of an accepted program are emitted one behind the other. -/
theorem fold_of_compiled (compiled : compileProgram script.source = .ok p) :
    (script.functions.map Routine.function).foldlM compileFunction script.mainCode = .ok p := by
  unfold compileProgram at compiled
  have main : compileAll script.source.main Code.empty = .ok (script.main.emit Code.empty) :=
    compileAll_tokens script.main Code.empty
  rw [main] at compiled
  dsimp only at compiled
  have same : (if script.source.functions = [] then script.main.emit Code.empty
      else (script.main.emit Code.empty).emit [.exit .halt]) = script.mainCode :=
    if_congr List.map_eq_nil_iff rfl rfl
  rw [same] at compiled
  cases fold : script.source.functions.foldlM compileFunction script.mainCode with
  | error error =>
    rw [fold] at compiled
    cases compiled
  | ok last =>
    rw [fold] at compiled
    dsimp only at compiled
    split_ifs at compiled with defined_
    cases compiled
    exact fold

/-- Words that push a number, and calls whose frames hold nothing. -/
def pushes : Data Int (List Int) where
  exec := fun w stack => some (w :: stack)
  pop := fun stack => stack.head?.map fun value => (value, stack.tail)
  enter := fun _ => some
  leave := some
  leaveNone := some

/-- `0 if 1 else 2 end` -/
def plainIf : Script Int := ⟨.word [0] (.either (.word [1] .done) (.word [2] .done) .done), []⟩

def plainIfCode : Code Int := plainIf.main.emit Code.empty

theorem plainIf_compiled : compileProgram plainIf.source = .ok plainIfCode := rfl

theorem plainIf_sound (n : Nat) : ((reading plainIf pushes).run n (plainIf.start [])).falls = false := by
  rcases Nat.lt_or_ge n 8 with early | late
  · have all : ∀ n < 8, ((reading plainIf pushes).run n (plainIf.start [])).falls = false := by decide
    exact all n early
  · obtain ⟨m, rfl⟩ := Nat.exists_eq_add_of_le late
    have still : ((reading plainIf pushes).step ((reading plainIf pushes).run 8 (plainIf.start []))).1 =
      (reading plainIf pushes).run 8 (plainIf.start []) := rfl
    rw [(reading plainIf pushes).run_settled still]
    rfl

/-- `0 if 1 if halt end else 2 end`: the inner test skips its branch, and the
then-branch is over. -/
def skippedHalt : Script Int :=
  ⟨.word [0] (.either (.word [1] (.cond (.exit .halt .done) .done)) (.word [2] .done) .done), []⟩

def skippedHaltCode : Code Int := skippedHalt.main.emit Code.empty

/-- A function `1 if ret end` in front of another one. -/
def skippedReturn : Script Int :=
  ⟨.call "f" .done, [⟨"f", [], .word [1] (.cond (.exit .ret .done) .done)⟩, ⟨"g", [], .word [2] .done⟩]⟩

def skippedReturnCode : Code Int :=
  (skippedReturn.functions.foldl (fun c r => r.emit c) skippedReturn.mainCode)

/-- The instructions show events the reading never shows. -/
theorem not_agree_of_settled {script : Script Int} {code : Code Int} (n m : Nat)
    (still : (reading script pushes).step ((reading script pushes).run n (script.start [])) =
      ((reading script pushes).run n (script.start []), none))
    (differs : ∀ k ≤ n, (reading script pushes).trace k (script.start []) ≠ (vm code pushes).trace m (Vm.start [])) :
    ¬ Lockstep.Agree (reading script pushes) (vm code pushes) (script.start []) (Vm.start []) := by
  intro agree
  obtain ⟨k, same⟩ := agree.2 m
  rcases Nat.le_total k n with early | late
  · exact differs k early same
  · obtain ⟨j, rfl⟩ := Nat.exists_eq_add_of_le late
    rw [(reading script pushes).trace_settled still] at same
    exact differs n (Nat.le_refl n) same

end Src32.Sol
