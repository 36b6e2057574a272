import Src32.Sol.StackCheck

namespace Src32.SolVm

open List (length_cons)

/-!
# What an instruction does to the stack

The stack of an activation lies on the values of its callers.  An instruction that has
the operands which the check requires leaves those values alone, does not underflow and
changes the depth as the check says.
-/

/-- Instructions that go on behind themselves. -/
def Op.plain : Op -> Bool
  | .call | .ret | .retn | .jmp | .jz | .jnz | .halt | .asm | .other _ => false
  | _ => true

/-- The machine after an instruction within an activation: its values are on top of the
callers' ones. -/
structure Moved (vm : Vm) (callers : List Int) (depth : Int) (pc : Nat) (next : Vm) : Prop where
  stack : ∃ own, next.stack = own ++ callers ∧ (own.length : Int) = depth
  pc : next.pc = pc
  calls : next.callStack = vm.callStack
  halted : next.halted = vm.halted

variable {program : Program} {effects : List (String × Int)} {inst : Instruction} {vm : Vm} {own callers : List Int}
  {delta required : Int}

theorem moved_next (values : List Int) {depth : Int} (length : (values.length : Int) = depth) :
    Moved vm callers depth (vm.pc + 1) (vm.next (values ++ callers)) :=
  ⟨⟨values, rfl, length⟩, rfl, rfl, rfl⟩

/-! ## Operands -/

theorem exists_cons {values : List Int} (long : 1 ≤ (values.length : Int)) : ∃ a rest, values = a :: rest := by
  cases values with
  | nil => exact absurd long (by decide)
  | cons a rest => exact ⟨a, rest, rfl⟩

theorem exists_cons₂ {values : List Int} (long : 2 ≤ (values.length : Int)) : ∃ b a rest, values = b :: a :: rest := by
  obtain ⟨b, rest, rfl⟩ := exists_cons (show 1 ≤ (values.length : Int) by omega)
  rw [length_cons] at long
  obtain ⟨a, rest, rfl⟩ := exists_cons (show 1 ≤ (rest.length : Int) by omega)
  exact ⟨b, a, rest, rfl⟩

theorem exists_cons₃ {values : List Int} (long : 3 ≤ (values.length : Int)) :
    ∃ c b a rest, values = c :: b :: a :: rest := by
  obtain ⟨c, b, rest, rfl⟩ := exists_cons₂ (show 2 ≤ (values.length : Int) by omega)
  rw [length_cons, length_cons] at long
  obtain ⟨a, rest, rfl⟩ := exists_cons (show 1 ≤ (rest.length : Int) by omega)
  exact ⟨c, b, a, rest, rfl⟩

theorem intArg_avoids (inst : Instruction) : Avoids VmError.underflow inst.intArg fun _ => True := by
  unfold Instruction.intArg
  split
  · exact Avoids.ok trivial
  · exact Avoids.error VmError.noConfusion _

theorem strArg_avoids (inst : Instruction) : Avoids VmError.underflow inst.strArg fun name => inst.arg = .str name := by
  unfold Instruction.strArg
  split
  · next name same => exact Avoids.ok same
  · exact Avoids.error VmError.noConfusion _

theorem require_avoids {α : Type} {error : VmError} (differs : error ≠ .underflow) (value : Option α) :
    Avoids VmError.underflow (require error value) fun x => value = some x := by
  cases value with
  | none => exact Avoids.error differs _
  | some x => exact Avoids.ok rfl

theorem argAddress_avoids (frame : Frame) (index : Int) :
    Avoids VmError.underflow (Vm.argAddress program frame index) fun _ => True := by
  unfold Vm.argAddress
  refine Avoids.bind (require_avoids VmError.noConfusion _) fun info _ => ?_
  split
  · exact Avoids.error VmError.noConfusion _
  · exact Avoids.ok trivial

theorem intTrueDiv_avoids (a b : Int) : Avoids VmError.underflow (intTrueDiv a b) fun _ => True := by
  unfold intTrueDiv
  exact Avoids.ite (fun _ => Avoids.ok trivial) fun _ =>
    Avoids.ite (fun _ => Avoids.error VmError.noConfusion _) fun _ => Avoids.ok trivial

theorem apply_avoids (a b : Int) (op : BinaryOp) : Avoids VmError.underflow (op.apply a b) fun _ => True := by
  cases op with
  | div =>
    exact Avoids.ite (fun _ => Avoids.error VmError.noConfusion _) fun _ =>
      Avoids.bind (intTrueDiv_avoids a b) fun quotient _ => Avoids.ok trivial
  | mod => exact Avoids.ite (fun _ => Avoids.error VmError.noConfusion _) fun _ => Avoids.ok trivial
  | _ => exact Avoids.ok trivial

/-! ## Plain instructions -/

theorem execute_plain (plain : inst.op.plain = true) (stack : vm.stack = own ++ callers)
    (counted : effect program effects own.length inst = .ok (delta, required)) (enough : required ≤ own.length) :
    Avoids VmError.underflow (vm.execute program inst) (Moved vm callers (own.length + delta) (vm.pc + 1)) := by
  unfold effect at counted
  unfold Vm.execute
  cases op : inst.op with
  | call | ret | retn | jmp | jz | jnz | halt | asm | other name =>
    rw [op] at plain
    exact Bool.noConfusion plain
  | push =>
    rw [op] at counted
    cases counted
    refine Avoids.bind (intArg_avoids inst) fun n _ => Avoids.ok ?_
    rw [stack]
    exact moved_next (n :: own) (by rw [length_cons]; omega)
  | arg =>
    rw [op] at counted
    cases counted
    refine Avoids.bind (intArg_avoids inst) fun index _ => Avoids.bind (require_avoids VmError.noConfusion _) fun frame _ =>
      Avoids.bind (argAddress_avoids frame index) fun address _ => Avoids.ok ?_
    rw [stack]
    exact moved_next (readMem vm.memory address 4 :: own) (by rw [length_cons]; omega)
  | localAddr =>
    rw [op] at counted
    cases counted
    refine Avoids.bind (intArg_avoids inst) fun index _ => Avoids.bind (require_avoids VmError.noConfusion _) fun frame _ =>
      Avoids.ok ?_
    rw [stack]
    exact moved_next ((frame.frameBase + 4 * index) :: own) (by rw [length_cons]; omega)
  | argAddr =>
    rw [op] at counted
    cases counted
    refine Avoids.bind (intArg_avoids inst) fun index _ => Avoids.bind (require_avoids VmError.noConfusion _) fun frame _ =>
      Avoids.bind (argAddress_avoids frame index) fun address _ => Avoids.ok ?_
    rw [stack]
    exact moved_next (address :: own) (by rw [length_cons]; omega)
  | stacksize =>
    rw [op] at counted
    cases counted
    refine Avoids.ok ?_
    rw [stack]
    exact moved_next (program.effectiveStackSizeBytes :: own) (by rw [length_cons]; omega)
  | binary op' =>
    rw [op] at counted
    cases counted
    obtain ⟨b, a, rest, rfl⟩ := exists_cons₂ enough
    rw [stack]
    show Avoids VmError.underflow (op'.apply a b >>= fun value => Except.ok (vm.next (value :: (rest ++ callers)))) _
    refine Avoids.bind (apply_avoids a b op') fun value _ => Avoids.ok ?_
    exact moved_next (value :: rest) (by rw [length_cons, length_cons, length_cons]; omega)
  | unary op' =>
    rw [op] at counted
    cases counted
    obtain ⟨a, rest, rfl⟩ := exists_cons enough
    rw [stack]
    refine Avoids.ok ?_
    exact moved_next (op'.apply vm.memory a :: rest) (by rw [length_cons, length_cons]; omega)
  | store op' =>
    rw [op] at counted
    cases counted
    obtain ⟨address, value, rest, rfl⟩ := exists_cons₂ enough
    rw [stack]
    refine Avoids.ok ⟨⟨rest, rfl, ?_⟩, rfl, rfl, rfl⟩
    rw [length_cons, length_cons]
    omega
  | dup =>
    rw [op] at counted
    cases counted
    obtain ⟨a, rest, rfl⟩ := exists_cons enough
    rw [stack]
    exact Avoids.ok (moved_next (a :: a :: rest) (by rw [length_cons]; omega))
  | drop =>
    rw [op] at counted
    cases counted
    obtain ⟨a, rest, rfl⟩ := exists_cons enough
    rw [stack]
    exact Avoids.ok (moved_next rest (by rw [length_cons]; omega))
  | swap =>
    rw [op] at counted
    cases counted
    obtain ⟨b, a, rest, rfl⟩ := exists_cons₂ enough
    rw [stack]
    exact Avoids.ok (moved_next (a :: b :: rest) (by simp only [length_cons]; omega))
  | over_ =>
    rw [op] at counted
    cases counted
    obtain ⟨b, a, rest, rfl⟩ := exists_cons₂ enough
    rw [stack]
    exact Avoids.ok (moved_next (a :: b :: a :: rest) (by simp only [length_cons]; omega))
  | rot =>
    rw [op] at counted
    cases counted
    obtain ⟨c, b, a, rest, rfl⟩ := exists_cons₃ enough
    rw [stack]
    exact Avoids.ok (moved_next (a :: c :: b :: rest) (by simp only [length_cons]; omega))
  | nip =>
    rw [op] at counted
    cases counted
    obtain ⟨b, a, rest, rfl⟩ := exists_cons₂ enough
    rw [stack]
    exact Avoids.ok (moved_next (b :: rest) (by simp only [length_cons]; omega))
  | tuck =>
    rw [op] at counted
    cases counted
    obtain ⟨b, a, rest, rfl⟩ := exists_cons₂ enough
    rw [stack]
    exact Avoids.ok (moved_next (b :: a :: b :: rest) (by simp only [length_cons]; omega))

/-! ## Jumps -/

theorem target_avoids (inst : Instruction) : Avoids VmError.underflow (Vm.target program inst) fun pc =>
    ∃ name, inst.arg = .str name ∧ program.labels name = some pc := by
  unfold Vm.target
  refine Avoids.bind (strArg_avoids inst) fun name same => ?_
  exact (require_avoids VmError.noConfusion _).mono fun pc found => ⟨name, same, found⟩

/-- The program counters behind a conditional jump. -/
def BranchTo (program : Program) (inst : Instruction) (vm : Vm) (taken : Bool) (pc : Nat) : Prop :=
  if taken then ∃ name, inst.arg = .str name ∧ program.labels name = some pc else pc = vm.pc + 1

theorem branch_avoids (taken : Int -> Bool) {cond : Int} (stack : vm.stack = (cond :: own) ++ callers) :
    Avoids VmError.underflow (vm.branch program inst taken) fun next =>
      ∃ pc, BranchTo program inst vm (taken cond) pc ∧ Moved vm callers own.length pc next := by
  unfold Vm.branch
  refine Avoids.bind (strArg_avoids inst) fun name same => ?_
  rw [stack]
  refine Avoids.ite (fun jumps => ?_) fun stays => ?_
  · refine Avoids.bind (target_avoids inst) fun pc found => Avoids.ok ⟨pc, ?_, ⟨own, rfl, rfl⟩, rfl, rfl, rfl⟩
    unfold BranchTo
    rw [if_pos jumps]
    exact found
  · refine Avoids.ok ⟨vm.pc + 1, ?_, moved_next own rfl⟩
    unfold BranchTo
    rw [if_neg stays]

/-! ## Calls and returns -/

theorem popArgs_avoids {n : Nat} {args values : List Int} (enough : n ≤ values.length) :
    Avoids VmError.underflow (popArgs n args (values ++ callers)) fun result => result.2 = values.drop n ++ callers := by
  induction n generalizing args values with
  | zero => exact Avoids.ok rfl
  | succ n ih =>
    obtain ⟨a, rest, rfl⟩ := exists_cons (show 1 ≤ (values.length : Int) by omega)
    exact ih (Nat.le_of_succ_le_succ enough)

/-- The machine after a call: the arguments are gone from the caller's values. -/
structure Called (vm : Vm) (left callers : List Int) (name : String) (entry : Nat) (next : Vm) : Prop where
  stack : next.stack = left ++ callers
  pc : next.pc = entry
  calls : ∃ base, next.callStack = ⟨vm.pc + 1, base, name, (left ++ callers).length⟩ :: vm.callStack
  halted : next.halted = vm.halted

theorem call_avoids {name : String} {info : FunctionMeta} (known : program.function name = some info)
    (stack : vm.stack = own ++ callers) (enough : info.argcount ≤ own.length) :
    Avoids VmError.underflow (vm.call program name) fun next =>
      ∃ entry, program.labels name = some entry ∧ Called vm (own.drop info.argcount) callers name entry next := by
  unfold Vm.call
  rw [known, stack]
  refine Avoids.bind (require_avoids VmError.noConfusion _) fun found same => ?_
  obtain rfl := Option.some.inj same
  refine Avoids.bind (popArgs_avoids enough) fun popped rest => ?_
  refine Avoids.bind (require_avoids VmError.noConfusion _) fun entry found => Avoids.ok ⟨entry, found, ?_⟩
  refine ⟨rest, rfl, ⟨(vm.r28 - 4 * (info.nLocals + info.argcount)) % 2 ^ 32, ?_⟩, rfl⟩
  dsimp only
  rw [rest]

theorem bottom_append (upper lower : List Int) : bottom lower.length (upper ++ lower) = lower := by
  unfold bottom
  rw [List.length_append, Nat.add_sub_cancel, List.drop_left]

/-- A return drops the values of the activation and keeps one of them for `ret`. -/
theorem leave_stack (program : Program) (keep : Bool) {frame : Frame} (rest : List Frame) (stack : vm.stack = own ++ callers)
    (height : frame.stackHeight = callers.length) :
    ∃ kept, (vm.leave program keep frame rest).stack = kept ++ callers ∧
      kept.length = if keep = true ∧ 0 < own.length then 1 else 0 := by
  unfold Vm.leave
  dsimp only
  rw [stack, height, bottom_append, List.length_append]
  refine ⟨_, rfl, ?_⟩
  by_cases some_ : keep = true ∧ 0 < own.length
  · rw [if_pos some_, if_pos ⟨some_.1, Nat.lt_add_of_pos_left some_.2⟩, List.length_take, List.length_append]
    omega
  · rw [if_neg some_, if_neg fun other => some_ ⟨other.1, by omega⟩]
    rfl

end Src32.SolVm
