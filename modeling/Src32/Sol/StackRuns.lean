import Src32.Sol.StackSteps
import Src32.Sol.StackTables

namespace Src32.SolVm

/-!
# Runs of checked programs

A run is regular as long as no function leaves by the other kind of return than the one
the check has counted for it, and no operands are left where a step goes on behind the
end of a segment.  In such a run of an accepted program the depth of every activation is
the one that the check has assigned.
-/

/-! ## Depths and runs -/

/-- The height of the stack below the current activation. -/
def Vm.base (outer : Nat) (vm : Vm) : Nat := (vm.callStack.head?.map Frame.stackHeight).getD outer

/-- The operands of the current activation. -/
def Vm.depth (outer : Nat) (vm : Vm) : Int := vm.stack.length - vm.base outer

/-- Whether the instruction goes on behind itself, now or after the call. -/
def Vm.goesOn (vm : Vm) (inst : Instruction) : Bool :=
  match inst.op with
  | .halt | .ret | .retn | .jmp => false
  | .jz => vm.stack.head? ≠ some 0
  | .jnz => vm.stack.head? = some 0
  | _ => true

/-- The next instruction of a machine that runs. -/
def Vm.Runs (program : Program) (vm : Vm) (inst : Instruction) : Prop :=
  vm.halted = false ∧ program.instructions[vm.pc]? = some inst

/-- A step that the check has seen. -/
structure Regular (program : Program) (outer : Nat) (vm : Vm) : Prop where
  /-- A function with a `ret` returns by it, and no other one does. -/
  returns : ∀ inst, vm.Runs program inst -> ∀ frame ∈ vm.callStack.head?,
    (inst.op = .ret -> program.effects.lookup frame.funcName = some 1) ∧
      (inst.op = .retn -> program.effects.lookup frame.funcName = some 0)
  /-- Nothing is left where a step goes on into another segment. -/
  passes : ∀ inst, vm.Runs program inst -> vm.goesOn inst = true -> (∃ s ∈ program.segments, s.start = vm.pc + 1) ->
    ∀ delta required, effect program program.effects (vm.depth outer) inst = .ok (delta, required) ->
      vm.depth outer + delta = 0

/-- A run whose steps are all regular. -/
inductive RegularRun (program : Program) (outer : Nat) (start : Vm) : Vm -> Prop where
  | refl : RegularRun program outer start start
  | step {vm next : Vm} {inst : Instruction} (before : RegularRun program outer start vm) (regular : Regular program outer vm)
      (runs : vm.Runs program inst) (moved : vm.execute program inst = .ok next) : RegularRun program outer start next

/-- What the check promises of a machine. -/
structure Accounted (program : Program) (tables : List (Segment × Depths)) (outer : Nat) (vm : Vm) : Prop where
  /-- The depth is the assigned one. -/
  depth : ∀ inst, vm.Runs program inst -> Assigned program tables vm.pc (vm.depth outer)
  /-- The instruction has its operands. -/
  operands : ∀ inst, vm.Runs program inst -> ∃ delta required,
    effect program program.effects (vm.depth outer) inst = .ok (delta, required) ∧ required ≤ vm.depth outer
  underflow : ∀ inst, vm.Runs program inst -> vm.execute program inst ≠ .error .underflow
  /-- The values of the callers stay. -/
  callers : ∀ inst, vm.Runs program inst -> ∀ next, vm.execute program inst = .ok next ->
    bottom (vm.base outer) next.stack = bottom (vm.base outer) vm.stack
  /-- A call takes its arguments. -/
  calls : ∀ inst, vm.Runs program inst -> inst.op = .call -> ∀ next, vm.execute program inst = .ok next ->
    ∃ frame ∈ next.callStack.head?, ∃ info, program.function frame.funcName = some info ∧
      frame.stackHeight + info.argcount = vm.stack.length
  /-- A return leaves what the check has counted for the function. -/
  returns : Regular program outer vm -> ∀ inst, vm.Runs program inst -> inst.op = .ret ∨ inst.op = .retn ->
    ∀ frame ∈ vm.callStack.head?, ∀ next, vm.execute program inst = .ok next ->
      ∃ counted, program.effects.lookup frame.funcName = some counted ∧
        (next.stack.length : Int) = frame.stackHeight + counted

/-! ## The invariant -/

variable {program : Program} {tables : List (Segment × Depths)} {outer : Nat} {vm : Vm} {inst : Instruction}

/-- The frames on the values below the activation: each caller has the depth that goes
with the place to return to. -/
def Nested (program : Program) (tables : List (Segment × Depths)) (outer : Nat) : List Frame -> List Int -> Prop
  | [], callers => callers.length = outer
  | frame :: rest, callers => frame.stackHeight = callers.length ∧ ∃ own lower, callers = own ++ lower ∧
      Nested program tables outer rest lower ∧ ∃ counted, program.effects.lookup frame.funcName = some counted ∧
        (frame.retPc < program.instructions.length -> Assigned program tables frame.retPc (own.length + counted))

/-- The activation on its callers. -/
structure Balanced (program : Program) (tables : List (Segment × Depths)) (outer : Nat) (vm : Vm) (own callers : List Int) :
    Prop where
  stack : vm.stack = own ++ callers
  nested : Nested program tables outer vm.callStack callers
  here : vm.halted = false -> vm.pc < program.instructions.length -> Assigned program tables vm.pc own.length

theorem Nested.base {callers : List Int} (nested : Nested program tables outer vm.callStack callers) :
    callers.length = vm.base outer := by
  unfold Vm.base
  cases frames : vm.callStack with
  | nil =>
    rw [frames] at nested
    exact nested
  | cons frame rest =>
    rw [frames] at nested
    exact nested.1.symm

namespace Balanced

variable {own callers : List Int}

theorem depth_eq (balanced : Balanced program tables outer vm own callers) : vm.depth outer = own.length := by
  unfold Vm.depth
  rw [← balanced.nested.base, balanced.stack, List.length_append]
  omega

theorem bottom_eq (balanced : Balanced program tables outer vm own callers) {own' : List Int} {next : Vm}
    (kept : next.stack = own' ++ callers) : bottom (vm.base outer) next.stack = bottom (vm.base outer) vm.stack := by
  rw [kept, balanced.stack, ← balanced.nested.base, bottom_append, bottom_append]

end Balanced

theorem Vm.Runs.lt (runs : vm.Runs program inst) : vm.pc < program.instructions.length :=
  (List.getElem?_eq_some_iff.mp runs.2).1

/-- What the check knows of the next instruction. -/
structure Known (program : Program) (tables : List (Segment × Depths)) (vm : Vm) (inst : Instruction) (own : List Int)
    (s : Segment) (delta required : Int) (targets : List Nat) : Prop where
  member : s ∈ program.segments
  holds : s.Contains vm.pc
  passed : Passed program s vm.pc own.length (own.length + delta) inst
  counted : effect program program.effects own.length inst = .ok (delta, required)
  enough : required ≤ own.length
  next : successors program vm.pc s.stop inst = .ok targets

theorem Balanced.known {own callers : List Int} (tabled : Tabled program tables)
    (balanced : Balanced program tables outer vm own callers) (runs : vm.Runs program inst) :
    ∃ s delta required targets, Known program tables vm inst own s delta required targets := by
  have assigned := balanced.here runs.1 runs.lt
  obtain ⟨s, member, holds⟩ := assigned.inside
  obtain ⟨after, inst', targets, passed, next⟩ := tabled.passes assigned member holds
  obtain rfl := Option.some.inj (runs.2.symm.trans passed.fetched)
  obtain ⟨delta, required, counted, enough, rfl⟩ := passed.counted
  exact ⟨s, delta, required, targets, member, holds, passed, counted, enough, next⟩

section Step

variable {own callers : List Int} {s : Segment} {delta required : Int} {targets : List Nat}

/-- Behind the instruction the depth is assigned, also where the segment ends. -/
theorem Known.behind (tabled : Tabled program tables) (balanced : Balanced program tables outer vm own callers)
    (runs : vm.Runs program inst) (known : Known program tables vm inst own s delta required targets)
    (regular : Regular program outer vm) (goesOn : vm.goesOn inst = true)
    (listed : vm.pc + 1 < s.stop -> vm.pc + 1 ∈ targets) (inside : vm.pc + 1 < program.instructions.length) :
    Assigned program tables (vm.pc + 1) (own.length + delta) := by
  have assigned := balanced.here runs.1 runs.lt
  by_cases within : vm.pc + 1 < s.stop
  · exact (tabled.assigned_target assigned known.member known.holds known.passed known.next (listed within)).2
  · have stop : s.stop = vm.pc + 1 := by
      have high := known.holds.2
      omega
    have start := tabled.assigned_stop known.member (stop ▸ inside)
    obtain ⟨t, other, begins, -⟩ := exists_segment_of_stop known.member (stop ▸ inside)
    have counted := known.counted
    rw [← balanced.depth_eq] at counted
    have nothing := regular.passes inst runs goesOn ⟨t, other, begins.trans stop⟩ delta required counted
    rw [balanced.depth_eq] at nothing
    rw [stop] at start
    rw [nothing]
    exact start

/-- A jump goes to an instruction with the assigned depth. -/
theorem Known.jumped (tabled : Tabled program tables) (balanced : Balanced program tables outer vm own callers)
    (runs : vm.Runs program inst) (known : Known program tables vm inst own s delta required targets) {pc : Nat}
    (listed : pc ∈ targets) : Assigned program tables pc (own.length + delta) :=
  (tabled.assigned_target (balanced.here runs.1 runs.lt) known.member known.holds known.passed known.next listed).2

/-- Where the machine goes on within the activation. -/
theorem Balanced.moved (balanced : Balanced program tables outer vm own callers) {depth : Int} {pc : Nat} {next : Vm}
    (moved : Moved vm callers depth pc next)
    (assigned : pc < program.instructions.length -> Assigned program tables pc depth) :
    ∃ own', Balanced program tables outer next own' callers := by
  obtain ⟨own', stack, length⟩ := moved.stack
  refine ⟨own', stack, ?_, fun _ inside => ?_⟩
  · rw [moved.calls]
    exact balanced.nested
  · rw [length, moved.pc]
    rw [moved.pc] at inside
    exact assigned inside

/-- The targets of a jump with the name of a label. -/
theorem nameArg_str {name : String} (arg : inst.arg = .str name) : inst.nameArg = .ok name := by
  unfold Instruction.nameArg
  rw [arg]

theorem label_ok {name : String} {pc : Nat} (found : program.labels name = some pc) : program.label name = .ok pc := by
  unfold Program.label
  rw [found]

theorem plain_targets (plain : inst.op.plain = true ∨ inst.op = .call) {pc stop : Nat}
    (next : successors program pc stop inst = .ok targets) : pc + 1 < stop -> pc + 1 ∈ targets := by
  intro within
  have default : successors program pc stop inst = .ok (if pc + 1 < stop then [pc + 1] else []) := by
    unfold successors
    rcases plain with plain | call
    · cases op : inst.op with
      | ret | retn | jmp | jz | jnz | halt =>
        rw [op] at plain
        exact Bool.noConfusion plain
      | _ => rfl
    · rw [call]
  rw [default, if_pos within] at next
  rw [← Except.ok.inj next]
  exact List.mem_singleton.mpr rfl

theorem branch_targets (jumps : inst.op = .jz ∨ inst.op = .jnz) {pc stop : Nat}
    (next : successors program pc stop inst = .ok targets) : (pc + 1 < stop -> pc + 1 ∈ targets) ∧
      ∀ name target, inst.arg = .str name -> program.labels name = some target -> target ∈ targets := by
  have both : successors program pc stop inst = (inst.nameArg >>= fun name => program.label name >>= fun target =>
      .ok (if pc + 1 < stop then [pc + 1, target] else [target])) := by
    unfold successors
    rcases jumps with jz | jnz
    · rw [jz]
    · rw [jnz]
  rw [both] at next
  obtain ⟨name, arg, next⟩ := Fallible.bind_ok next
  obtain ⟨target, label, next⟩ := Fallible.bind_ok next
  rw [← Except.ok.inj next]
  constructor
  · intro within
    rw [if_pos within]
    exact List.mem_cons_self
  · intro name' target' arg' label'
    rw [nameArg_str arg'] at arg
    obtain rfl := Except.ok.inj arg
    rw [label_ok label'] at label
    obtain rfl := Except.ok.inj label
    split
    · exact List.mem_cons_of_mem _ (List.mem_singleton.mpr rfl)
    · exact List.mem_singleton.mpr rfl

/-- What is true behind a step. -/
structure Stepped (program : Program) (tables : List (Segment × Depths)) (outer : Nat) (vm : Vm) (inst : Instruction)
    (callers : List Int) (next : Vm) : Prop where
  kept : ∃ own', next.stack = own' ++ callers
  balanced : Regular program outer vm -> ∃ own' callers', Balanced program tables outer next own' callers'
  calls : inst.op = .call -> ∃ frame ∈ next.callStack.head?, ∃ info, program.function frame.funcName = some info ∧
    frame.stackHeight + info.argcount = vm.stack.length
  returns : Regular program outer vm -> inst.op = .ret ∨ inst.op = .retn -> ∀ frame ∈ vm.callStack.head?,
    ∃ counted, program.effects.lookup frame.funcName = some counted ∧ (next.stack.length : Int) = frame.stackHeight + counted

/-- A step within the activation. -/
theorem Stepped.of_moved (balanced : Balanced program tables outer vm own callers) {depth : Int} {pc : Nat} {next : Vm}
    (call : inst.op ≠ .call) (ret : inst.op ≠ .ret) (retn : inst.op ≠ .retn) (moved : Moved vm callers depth pc next)
    (assigned : Regular program outer vm -> pc < program.instructions.length -> Assigned program tables pc depth) :
    Stepped program tables outer vm inst callers next := by
  obtain ⟨own', stack, -⟩ := moved.stack
  refine ⟨⟨own', stack⟩, fun regular => ?_, fun other => absurd other call, fun _ other => ?_⟩
  · obtain ⟨own', after⟩ := balanced.moved moved (assigned regular)
    exact ⟨own', callers, after⟩
  · exact other.elim (fun same => absurd same ret) fun same => absurd same retn

/-- A conditional jump, which tests the top of the stack. -/
theorem branch_stepped {taken : Int -> Bool} (tabled : Tabled program tables)
    (balanced : Balanced program tables outer vm own callers) (runs : vm.Runs program inst)
    (known : Known program tables vm inst own s delta required targets) (jumps : inst.op = .jz ∨ inst.op = .jnz)
    (tests : ∀ cond rest, vm.stack = cond :: rest -> taken cond = false -> vm.goesOn inst = true) :
    Avoids VmError.underflow (vm.branch program inst taken) (Stepped program tables outer vm inst callers) := by
  obtain ⟨onward, jumped⟩ := branch_targets jumps known.next
  have counted : (delta, required) = (-1, 1) := by
    have table := known.counted
    unfold effect at table
    rcases jumps with op | op
    · rw [op] at table
      exact (Except.ok.inj table).symm
    · rw [op] at table
      exact (Except.ok.inj table).symm
  obtain ⟨rfl, rfl⟩ := Prod.mk.inj counted
  obtain ⟨cond, rest, rfl⟩ := exists_cons known.enough
  have other : inst.op ≠ .call ∧ inst.op ≠ .ret ∧ inst.op ≠ .retn := by
    rcases jumps with op | op
    · rw [op]
      decide
    · rw [op]
      decide
  refine (branch_avoids taken balanced.stack).mono ?_
  rintro next ⟨pc, target, moved⟩
  refine Stepped.of_moved balanced other.1 other.2.1 other.2.2 moved fun regular inside => ?_
  have length : (rest.length : Int) = ((cond :: rest).length : Int) + -1 := by
    rw [List.length_cons]
    omega
  rw [length]
  unfold BranchTo at target
  cases decision : taken cond with
  | true =>
    rw [decision, if_pos rfl] at target
    obtain ⟨name, arg, label⟩ := target
    exact known.jumped tabled balanced runs (jumped name pc arg label)
  | false =>
    rw [decision, if_neg Bool.false_ne_true] at target
    subst target
    exact known.behind tabled balanced runs regular (tests cond _ balanced.stack decision) onward inside

/-- A call puts the caller's values below the new activation. -/
theorem call_stepped (tabled : Tabled program tables) (balanced : Balanced program tables outer vm own callers)
    (runs : vm.Runs program inst) (known : Known program tables vm inst own s delta required targets) (op : inst.op = .call) :
    Avoids VmError.underflow (inst.strArg >>= fun name => vm.call program name)
      (Stepped program tables outer vm inst callers) := by
  have table := known.counted
  unfold effect at table
  rw [op] at table
  obtain ⟨name, arg, table⟩ := Fallible.bind_ok table
  refine Avoids.bind (strArg_avoids inst) fun name' same => ?_
  rw [nameArg_str same] at arg
  obtain rfl := Except.ok.inj arg
  cases info : program.function name' with
  | none =>
    rw [info] at table
    cases table
  | some info' =>
    cases returned : program.effects.lookup name' with
    | none =>
      rw [info, returned] at table
      cases table
    | some counted =>
      rw [info, returned] at table
      obtain ⟨rfl, rfl⟩ := Prod.mk.inj (Except.ok.inj table)
      have enough : info'.argcount ≤ own.length := Int.ofNat_le.mp known.enough
      refine (call_avoids info balanced.stack enough).mono ?_
      rintro next ⟨entry, label, called⟩
      obtain ⟨base, frames⟩ := called.calls
      have left : (own.drop info'.argcount ++ callers).length + info'.argcount = vm.stack.length := by
        rw [balanced.stack, List.length_append, List.length_append, List.length_drop]
        omega
      refine ⟨⟨_, called.stack⟩, fun regular => ⟨[], own.drop info'.argcount ++ callers, called.stack, ?_, ?_⟩, fun _ => ?_,
        fun _ other => ?_⟩
      · rw [frames]
        refine ⟨rfl, own.drop info'.argcount, callers, rfl, balanced.nested, counted, returned, fun inside => ?_⟩
        have goesOn : vm.goesOn inst = true := by
          unfold Vm.goesOn
          rw [op]
        have behind := known.behind tabled balanced runs regular goesOn (plain_targets (.inr op) known.next) inside
        have length : ((own.drop info'.argcount).length : Int) + counted =
            own.length + (-(info'.argcount : Int) + counted) := by
          rw [List.length_drop]
          omega
        rw [length]
        exact behind
      · intro _ inside
        rw [called.pc] at inside ⊢
        exact tabled.assigned_function info label inside
      · rw [frames]
        exact ⟨_, rfl, info', info, left⟩
      · rw [op] at other
        exact absurd other (by decide)

/-- A return goes back to the caller, whose depth has grown by what was counted. -/
theorem leave_stepped (keep : Bool) {frame : Frame} {rest : List Frame} (frames : vm.callStack = frame :: rest)
    (balanced : Balanced program tables outer vm own callers) (runs : vm.Runs program inst)
    (op : inst.op = if keep then .ret else .retn) (filled : keep = true -> 0 < own.length) :
    Stepped program tables outer vm inst callers (vm.leave program keep frame rest) := by
  have nested := balanced.nested
  rw [frames] at nested
  obtain ⟨height, below, lower, split, outer_, counted, returned, assigned⟩ := nested
  obtain ⟨kept, stack, length⟩ := leave_stack program keep rest balanced.stack height
  have amount : Regular program outer vm -> (kept.length : Int) = counted := by
    intro regular
    obtain ⟨ret, retn⟩ := regular.returns inst runs frame (by rw [frames]; rfl)
    cases keep with
    | true =>
      rw [if_pos ⟨rfl, filled rfl⟩] at length
      obtain rfl := Option.some.inj (returned.symm.trans (ret op))
      rw [length]
      rfl
    | false =>
      rw [if_neg (fun other => Bool.false_ne_true other.1)] at length
      obtain rfl := Option.some.inj (returned.symm.trans (retn op))
      rw [length]
      rfl
  refine ⟨⟨kept, stack⟩, fun regular => ⟨kept ++ below, lower, ?_, outer_, fun _ inside => ?_⟩, fun call => ?_,
    fun regular _ other member => ?_⟩
  · rw [stack, split, List.append_assoc]
  · have more := amount regular
    have total : ((kept ++ below).length : Int) = below.length + counted := by
      rw [List.length_append]
      omega
    rw [total]
    exact assigned inside
  · rw [op] at call
    cases keep with
    | true | false => exact absurd call (by decide)
  · rw [frames] at member
    obtain rfl := Option.some.inj member
    have more := amount regular
    refine ⟨counted, returned, ?_⟩
    rw [stack, List.length_append, height]
    omega

/-- One step of an accepted program. -/
theorem execute_stepped (tabled : Tabled program tables) (balanced : Balanced program tables outer vm own callers)
    (runs : vm.Runs program inst) :
    Avoids VmError.underflow (vm.execute program inst) (Stepped program tables outer vm inst callers) := by
  obtain ⟨s, delta, required, targets, known⟩ := balanced.known tabled runs
  by_cases plain : inst.op.plain = true
  · refine (execute_plain plain balanced.stack known.counted known.enough).mono fun next moved => ?_
    have other : inst.op ≠ .call ∧ inst.op ≠ .ret ∧ inst.op ≠ .retn := by
      refine ⟨?_, ?_, ?_⟩
      · intro op
        rw [op] at plain
        exact Bool.noConfusion plain
      · intro op
        rw [op] at plain
        exact Bool.noConfusion plain
      · intro op
        rw [op] at plain
        exact Bool.noConfusion plain
    have goesOn : vm.goesOn inst = true := by
      unfold Vm.goesOn
      cases op : inst.op with
      | halt | ret | retn | jmp | jz | jnz =>
        rw [op] at plain
        exact Bool.noConfusion plain
      | _ => rfl
    exact Stepped.of_moved balanced other.1 other.2.1 other.2.2 moved fun regular inside =>
      known.behind tabled balanced runs regular goesOn (plain_targets (.inl plain) known.next) inside
  · unfold Vm.execute
    cases op : inst.op with
    | call => exact call_stepped tabled balanced runs known op
    | ret =>
      cases frames : vm.callStack with
      | nil => exact Avoids.error VmError.noConfusion _
      | cons frame rest =>
        refine Avoids.ok (leave_stepped true frames balanced runs op fun _ => ?_)
        have table := known.counted
        have enough := known.enough
        unfold effect at table
        rw [op] at table
        obtain ⟨-, rfl⟩ := Prod.mk.inj (Except.ok.inj table)
        omega
    | retn =>
      cases frames : vm.callStack with
      | nil => exact Avoids.error VmError.noConfusion _
      | cons frame rest =>
        exact Avoids.ok (leave_stepped false frames balanced runs op fun other => Bool.noConfusion other)
    | jmp =>
      have table := known.counted
      unfold effect at table
      rw [op] at table
      obtain ⟨rfl, -⟩ := Prod.mk.inj (Except.ok.inj table)
      refine Avoids.bind (target_avoids inst) fun pc found => Avoids.ok ?_
      obtain ⟨name, arg, label⟩ := found
      have next := known.next
      unfold successors at next
      rw [op, nameArg_str arg] at next
      change (program.label name >>= fun target => Except.ok [target]) = .ok targets at next
      rw [label_ok label] at next
      have listed : pc ∈ targets := by
        rw [← Except.ok.inj next]
        exact List.mem_singleton.mpr rfl
      have moved : Moved vm callers own.length pc { vm with pc := pc } := ⟨⟨own, balanced.stack, rfl⟩, rfl, rfl, rfl⟩
      refine Stepped.of_moved balanced (by rw [op]; decide) (by rw [op]; decide) (by rw [op]; decide) moved fun _ _ => ?_
      have jumped := known.jumped tabled balanced runs listed
      rwa [Int.add_zero] at jumped
    | jz =>
      refine branch_stepped tabled balanced runs known (.inl op) fun cond rest stack stays => ?_
      unfold Vm.goesOn
      rw [op, stack]
      exact decide_eq_true fun same => of_decide_eq_false stays (Option.some.inj same)
    | jnz =>
      refine branch_stepped tabled balanced runs known (.inr op) fun cond rest stack stays => ?_
      unfold Vm.goesOn
      rw [op, stack]
      exact decide_eq_true (congrArg some (not_not.mp (of_decide_eq_false stays)))
    | halt =>
      refine Avoids.ok ⟨⟨own, balanced.stack⟩, fun _ => ⟨own, callers, balanced.stack, balanced.nested, fun running => ?_⟩,
        fun other => ?_, fun _ other => ?_⟩
      · exact Bool.noConfusion running
      · rw [op] at other
        exact absurd other (by decide)
      · rw [op] at other
        exact absurd other (by decide)
    | asm | other name => exact Avoids.error VmError.noConfusion _
    | _ =>
      rw [op] at plain
      exact absurd rfl plain

end Step

end Src32.SolVm
