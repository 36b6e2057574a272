import Src32.Sol.StackRuns

namespace Src32.SolVm

/-!
# The check is sound for regular runs

Whatever a regular run of an accepted program reaches has the depths that the check has
assigned.  Where a function returns in two ways the check accepts a program that
underflows.
-/

variable {program : Program} {tables : List (Segment × Depths)} {outer : Nat} {vm : Vm} {inst : Instruction}

/-! ## Runs -/

theorem balanced_load (tabled : Tabled program tables) (stack : List Int) :
    Balanced program tables stack.length (Vm.load program stack) [] stack :=
  ⟨rfl, rfl, fun _ inside => tabled.assigned_zero inside⟩

/-- Every machine in a regular run is balanced. -/
theorem RegularRun.balanced (tabled : Tabled program tables) {start vm : Vm} (run : RegularRun program outer start vm)
    (initial : ∃ own callers, Balanced program tables outer start own callers) :
    ∃ own callers, Balanced program tables outer vm own callers := by
  induction run with
  | refl => exact initial
  | step before regular runs moved ih =>
    obtain ⟨own, callers, balanced⟩ := ih
    exact ((execute_stepped tabled balanced runs).2 _ moved).balanced regular

theorem Balanced.accounted {own callers : List Int} (tabled : Tabled program tables)
    (balanced : Balanced program tables outer vm own callers) : Accounted program tables outer vm := by
  refine ⟨fun inst runs => ?_, fun inst runs => ?_, fun inst runs => (execute_stepped tabled balanced runs).1,
    fun inst runs next moved => ?_, fun inst runs op next moved => ?_, fun regular inst runs op frame member next moved => ?_⟩
  · rw [balanced.depth_eq]
    exact balanced.here runs.1 runs.lt
  · obtain ⟨s, delta, required, targets, known⟩ := balanced.known tabled runs
    rw [balanced.depth_eq]
    exact ⟨delta, required, known.counted, known.enough⟩
  · obtain ⟨own', kept⟩ := ((execute_stepped tabled balanced runs).2 next moved).kept
    exact balanced.bottom_eq kept
  · exact ((execute_stepped tabled balanced runs).2 next moved).calls op
  · exact ((execute_stepped tabled balanced runs).2 next moved).returns regular op frame member

/-- What `run` raises itself is no underflow. -/
theorem run_avoids {maxSteps : Nat} {location : Option SourceLocation}
    (loops : Vm.loop program maxSteps vm ≠ .error (.raised location .underflow)) :
    Vm.run maxSteps program vm ≠ .error (.raised location .underflow) := by
  unfold Vm.run
  by_cases size : program.effectiveStackSizeBytes < 0 ∨ program.effectiveStackSizeBytes > stackSizeBytes
  · rw [if_pos size]
    exact fun same => RunError.noConfusion (Except.error.inj same)
  · rw [if_neg size]
    cases program.requiredStackSizeBytes with
    | none => exact loops
    | some required =>
      dsimp only
      by_cases large : required > stackSizeBytes
      · rw [if_pos large]
        exact fun same => RunError.noConfusion (Except.error.inj same)
      · rw [if_neg large]
        by_cases above : required > program.effectiveStackSizeBytes
        · rw [if_pos above]
          exact fun same => RunError.noConfusion (Except.error.inj same)
        · rw [if_neg above]
          exact loops

theorem loop_stopped {left : Nat} (behind : program.instructions[vm.pc]? = none) :
    Vm.loop program left vm = .ok vm := by
  cases left with
  | zero | succ left =>
    unfold Vm.loop
    rw [behind]

theorem ok_avoids (vm : Vm) (location : Option SourceLocation) :
    (Except.ok vm : Except RunError Vm) ≠ .error (.raised location .underflow) := by
  intro same
  cases same

/-- The loop of `run` does not underflow where all machines it reaches are regular. -/
theorem loop_avoids (tabled : Tabled program tables) {start : Vm}
    (initial : ∃ own callers, Balanced program tables outer start own callers)
    (regular : ∀ vm, RegularRun program outer start vm -> Regular program outer vm) (location : Option SourceLocation)
    (left : Nat) {vm : Vm} (run : RegularRun program outer start vm) :
    Vm.loop program left vm ≠ .error (.raised location .underflow) := by
  induction left generalizing vm with
  | zero =>
    unfold Vm.loop
    split
    · exact ok_avoids _ _
    · split
      · exact ok_avoids _ _
      · exact fun same => RunError.noConfusion (Except.error.inj same)
  | succ left ih =>
    cases fetched : program.instructions[vm.pc]? with
    | none =>
      rw [loop_stopped fetched]
      exact ok_avoids _ _
    | some inst =>
      unfold Vm.loop
      rw [fetched]
      dsimp only
      by_cases halted : vm.halted = true
      · rw [if_pos halted]
        exact ok_avoids _ _
      · rw [if_neg halted]
        have runs : vm.Runs program inst := ⟨Bool.eq_false_iff.mpr halted, fetched⟩
        obtain ⟨own, callers, balanced⟩ := run.balanced tabled initial
        have avoids := (execute_stepped tabled balanced runs).1
        cases done : vm.execute program inst with
        | error other =>
          intro same
          obtain ⟨-, under⟩ := RunError.raised.inj (Except.error.inj same)
          rw [done, under] at avoids
          exact avoids rfl
        | ok next => exact ih (run.step (regular vm run) runs done)

/-! ## Two kinds of return -/

/-- A value, then `f drop`, with `fn f(a): a if 5 ret end ;`, as it is compiled. -/
def mixedReturns (value : Int) : Program where
  instructions := [⟨.push, .int value, none⟩, ⟨.call, .str "f", none⟩, ⟨.drop, .none, none⟩, ⟨.halt, .none, none⟩,
    ⟨.arg, .int 0, none⟩, ⟨.jnz, .str "__solc_if_false_0", none⟩, ⟨.push, .int 5, none⟩, ⟨.ret, .none, none⟩,
    ⟨.retn, .none, none⟩]
  labels name := if name = "f" then some 4 else if name = "__solc_if_false_0" then some 8 else none
  functions := [("f", ⟨1, 0⟩)]
  readOnlyData := []
  effectiveStackSizeBytes := stackSizeBytes
  requiredStackSizeBytes := none
  stackTop := 0x000FFFFC

/-- A step is regular that is in no function and not at the end of a segment. -/
theorem regular_within (top : ∀ frame, frame ∉ vm.callStack.head?) (within : ∀ s ∈ program.segments, s.start ≠ vm.pc + 1) :
    Regular program outer vm :=
  ⟨fun _ _ frame member => absurd member (top frame), fun _ _ _ behind => (by
    obtain ⟨s, member, start⟩ := behind
    exact absurd start (within s member))⟩

end Src32.SolVm
