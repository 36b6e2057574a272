import Src32.Asm.Encoding
import Src32.Cpu.Supervisor
import Src32.Machine.Bytes

namespace Src32.Asm

open Cpu
open BitVec (ofInt)

/-!
# Branches on the machine

What a branch does when it is taken and when it is not, and what a trampoline does.
-/

/-- The machine executes instructions of the Normal mode, each in the code from `start` to `behind`. -/
def Normally (memory : Word -> Byte) (start behind : Int) (m n : Machine) : Prop :=
  Relation.ReflTransGen (fun a b => (∃ x, start ≤ x ∧ x < behind ∧ a.pc = ofInt 32 x) ∧ a.instrMode = .normal ∧
    b = a.executeNormal (decode (wordAt memory a.pc))) m n

/-- The machine has got to an address in a mode; only R14 and R31 may have changed. -/
structure Arrives (m n : Machine) (pc : Word) (mode : InstructionMode) (link : Option Word) : Prop where
  pc : n.pc = pc
  mode : n.instrMode = mode
  linked : ∀ w, link = some w -> n.readReg 31 = w
  kept : ∀ i, i ≠ 14 -> (i ≠ 31 ∨ link = none) -> n.readReg i = m.readReg i
  sys : n.sys = m.sys
  bus : n.bus = m.bus

namespace BranchOp

/-- The mode the mnemonic names. -/
def mode : BranchOp -> InstructionMode
  | jmps => .short
  | jals => .short
  | _ => .normal

def links : BranchOp -> Bool
  | jal => true
  | jals => true
  | _ => false

/-- The branch is taken. -/
def Taken (m : Machine) (rs1 rs2 : BitVec 5) : BranchOp -> Prop
  | beq => m.readReg rs1.toNat = m.readReg rs2.toNat
  | bne => m.readReg rs1.toNat ≠ m.readReg rs2.toNat
  | _ => True

end BranchOp

/-- The branch whose code lies from `start` to `behind` does what its mnemonic says. -/
def Correct (memory : Word -> Byte) (op : BranchOp) (rs1 rs2 : BitVec 5) (start behind : Int) (goal : Word) : Prop :=
  ∀ m : Machine, m.pc = ofInt 32 start -> m.instrMode = .normal ->
    (op.Taken m rs1 rs2 -> ∃ n, Normally memory start behind m n ∧
      Arrives m n goal op.mode (if op.links then some (ofInt 32 behind) else none)) ∧
    (¬op.Taken m rs1 rs2 -> ∃ n, Normally memory start behind m n ∧ Arrives m n (ofInt 32 behind) .normal none)

/-! ## One instruction -/

variable {memory : Word -> Byte} {m : Machine}

theorem executeNormal_plain {insn : Instruction} (plain : insn.isPrivileged = false) (data : Machine.dataAccess insn = none) :
    m.executeNormal insn = ({ m with pc := m.pc + 4 } : Machine).perform insn m.pc (m.pc + 4) := by
  unfold Machine.executeNormal Machine.checkNormal
  dsimp only
  rw [plain, Bool.and_false, if_neg Bool.false_ne_true, data]

theorem readReg_link (m : Machine) (w : Word) (i : Nat) : (m.setGpr 31 w).readReg i = if i = 31 then w else m.readReg i := by
  rw [readReg_setGpr m (by decide) w i, if_neg (by decide)]
  exact Function.update_apply _ _ _ _

theorem readReg_fourteen (m : Machine) (w : Word) (i : Nat) : (m.setGpr 14 w).readReg i = if i = 14 then w else m.readReg i := by
  rw [readReg_setGpr m (by decide) w i, if_neg (by decide)]
  exact Function.update_apply _ _ _ _

theorem setGpr_rest (m : Machine) (i : Nat) (w : Word) : (m.setGpr i w).sys = m.sys ∧ (m.setGpr i w).bus = m.bus ∧
    (m.setGpr i w).pc = m.pc ∧ (m.setGpr i w).instrMode = m.instrMode := by
  unfold Machine.setGpr
  split_ifs
  · exact ⟨rfl, rfl, rfl, rfl⟩
  · exact ⟨rfl, rfl, rfl, rfl⟩
  · exact ⟨rfl, rfl, rfl, rfl⟩

/-- A jump that links. -/
theorem arrives_link (m : Machine) (w pc : Word) (mode : InstructionMode) (next : Word) :
    Arrives m { ({ m with pc := next } : Machine).setGpr 31 w with pc := pc, instrMode := mode } pc mode (some w) := by
  obtain ⟨sys, bus, _, _⟩ := setGpr_rest { m with pc := next } 31 w
  refine ⟨rfl, rfl, fun other same => ?_, fun i _ apart => ?_, sys, bus⟩
  · cases same
    change (({ m with pc := next } : Machine).setGpr 31 w).readReg 31 = w
    rw [readReg_link, if_pos rfl]
  · change (({ m with pc := next } : Machine).setGpr 31 w).readReg i = m.readReg i
    rw [readReg_link, if_neg (apart.resolve_right (Option.some_ne_none w))]
    exact Eq.refl (m.readReg i)

theorem arrives_jump (m : Machine) (pc : Word) (mode : InstructionMode) : Arrives m { m with pc := pc, instrMode := mode } pc mode none :=
  ⟨rfl, rfl, fun w same => absurd same.symm (Option.some_ne_none w), fun _ _ _ => rfl, rfl, rfl⟩

theorem arrives_pc (normal : m.instrMode = .normal) (pc : Word) : Arrives m { m with pc := pc } pc .normal none :=
  ⟨rfl, normal, fun w same => absurd same.symm (Option.some_ne_none w), fun _ _ _ => rfl, rfl, rfl⟩

/-- What the machine does with the instruction of a branch. -/
theorem executeNormal_branch (op : BranchOp) (rs1 rs2 : BitVec 5) (offset : BitVec 16) (normal : m.instrMode = .normal) :
    (op.Taken m rs1 rs2 -> Arrives m (m.executeNormal (op.instruction rs1 rs2 offset)) (Machine.branchTarget (m.pc + 4) offset) op.mode
      (if op.links then some (m.pc + 4) else none)) ∧
    (¬op.Taken m rs1 rs2 -> Arrives m (m.executeNormal (op.instruction rs1 rs2 offset)) (m.pc + 4) .normal none) := by
  cases op with
  | beq =>
    have run : m.executeNormal (.beq rs1 rs2 offset) = if m.readReg rs1.toNat = m.readReg rs2.toNat then
        { m with pc := Machine.branchTarget (m.pc + 4) offset } else { m with pc := m.pc + 4 } := executeNormal_plain rfl rfl
    constructor
    · intro taken
      rw [BranchOp.instruction, run, if_pos (show m.readReg rs1.toNat = m.readReg rs2.toNat from taken)]
      exact arrives_pc normal _
    · intro falls
      rw [BranchOp.instruction, run, if_neg (show ¬m.readReg rs1.toNat = m.readReg rs2.toNat from falls)]
      exact arrives_pc normal _
  | bne =>
    have run : m.executeNormal (.bne rs1 rs2 offset) = if m.readReg rs1.toNat ≠ m.readReg rs2.toNat then
        { m with pc := Machine.branchTarget (m.pc + 4) offset } else { m with pc := m.pc + 4 } := executeNormal_plain rfl rfl
    constructor
    · intro taken
      rw [BranchOp.instruction, run, if_pos (show m.readReg rs1.toNat ≠ m.readReg rs2.toNat from taken)]
      exact arrives_pc normal _
    · intro falls
      rw [BranchOp.instruction, run, if_neg (show ¬m.readReg rs1.toNat ≠ m.readReg rs2.toNat from falls)]
      exact arrives_pc normal _
  | jmp =>
    have run : m.executeNormal (.jmp offset) = { m with pc := Machine.branchTarget (m.pc + 4) offset } := executeNormal_plain rfl rfl
    refine ⟨fun _ => ?_, fun falls => absurd trivial falls⟩
    rw [BranchOp.instruction, run]
    exact arrives_pc normal _
  | jal =>
    have run : m.executeNormal (.jal offset) = { ({ m with pc := m.pc + 4 } : Machine).setGpr 31 (m.pc + 4) with
        pc := Machine.branchTarget (m.pc + 4) offset } := executeNormal_plain rfl rfl
    refine ⟨fun _ => ?_, fun falls => absurd trivial falls⟩
    have mode := (setGpr_rest { m with pc := m.pc + 4 } 31 (m.pc + 4)).2.2.2
    have whole := arrives_link m (m.pc + 4) (Machine.branchTarget (m.pc + 4) offset) .normal (m.pc + 4)
    rw [BranchOp.instruction, run]
    exact ⟨rfl, mode.trans normal, whole.linked, whole.kept, whole.sys, whole.bus⟩
  | jmps =>
    have run : m.executeNormal (.jmps offset) = { m with pc := Machine.branchTarget (m.pc + 4) offset, instrMode := .short } :=
      executeNormal_plain rfl rfl
    refine ⟨fun _ => ?_, fun falls => absurd trivial falls⟩
    rw [BranchOp.instruction, run]
    exact arrives_jump m _ _
  | jals =>
    have run : m.executeNormal (.jals offset) = { ({ m with pc := m.pc + 4 } : Machine).setGpr 31 (m.pc + 4) with
        pc := Machine.branchTarget (m.pc + 4) offset, instrMode := .short } := executeNormal_plain rfl rfl
    refine ⟨fun _ => ?_, fun falls => absurd trivial falls⟩
    rw [BranchOp.instruction, run]
    exact arrives_link m _ _ _ _

/-! ## Runs -/

variable {behind start a : Int} {goal : Word} {op : BranchOp} {n : Machine}

theorem Arrives.trans {x : Machine} {p q : Word} {mode : InstructionMode} {first second : Option Word}
    (left : Arrives m x p .normal first) (right : Arrives x n q mode second) (links : second = none -> first = none) :
    Arrives m n q mode second := by
  refine ⟨right.pc, right.mode, right.linked, fun i apart other => ?_, right.sys.trans left.sys, right.bus.trans left.bus⟩
  exact (right.kept i apart other).trans (left.kept i apart (other.imp_right links))

/-- One instruction at the machine's PC. -/
theorem Normally.one {insn : Instruction} {pc : Int} (at_ : m.pc = ofInt 32 pc) (normal : m.instrMode = .normal)
    (here : decode (wordAt memory (ofInt 32 pc)) = insn) (low : start ≤ pc) (high : pc < behind) :
    Normally memory start behind m (m.executeNormal insn) := by
  refine .single ⟨⟨pc, low, high, at_⟩, normal, ?_⟩
  rw [at_, here]

/-- A run in a part of the code. -/
theorem Normally.widen {low high : Int} (run : Normally memory start behind m n) (below : low ≤ start)
    (above : behind ≤ high) : Normally memory low high m n := by
  induction run with
  | refl => exact .refl
  | tail _ step ih =>
    obtain ⟨⟨x, least, most, at_⟩, executes⟩ := step
    exact ih.tail ⟨⟨x, by omega, by omega, at_⟩, executes⟩

theorem next_address (a : Int) (k : Nat) : ofInt 32 a + BitVec.ofNat 32 k = ofInt 32 (a + k) := by
  rw [BitVec.ofInt_add]
  rfl

theorem next_insn {b : Int} (next : b = a + 4) : ofInt 32 a + 4 = ofInt 32 b := by
  rw [next]
  exact next_address a 4

/-- An offset of 16 bits. -/
theorem branchTarget_near (a : Int) {offset : Int} (near : Near offset) :
    Machine.branchTarget (ofInt 32 a + 4) (ofInt 16 offset) = ofInt 32 (a + 4 + offset) := by
  obtain ⟨low, high⟩ := near
  have extended : (ofInt 16 offset).signExtend 32 = ofInt 32 offset := by
    change ofInt 32 (ofInt 16 offset).toInt = _
    rw [BitVec.toInt_ofInt, Int.bmod_eq_of_le (by omega) (by omega)]
  unfold Machine.branchTarget
  rw [extended, show (4 : Word) = BitVec.ofNat 32 4 from rfl, next_address, ← BitVec.ofInt_add]
  rfl

/-- A branch that reaches its target is correct. -/
theorem near_correct {op : BranchOp} {rs1 rs2 : BitVec 5} {a offset : Int} (near : Near offset)
    (word : decode (wordAt memory (ofInt 32 a)) = op.instruction rs1 rs2 (ofInt 16 offset)) :
    Correct memory op rs1 rs2 a (a + 4) (ofInt 32 (a + 4 + offset)) := by
  intro m at_ normal
  have run : Normally memory a (a + 4) m (m.executeNormal (op.instruction rs1 rs2 (ofInt 16 offset))) :=
    Normally.one at_ normal word (Int.le_refl a) (by omega)
  obtain ⟨taken, falls⟩ := executeNormal_branch op rs1 rs2 (ofInt 16 offset) normal
  have behind : m.pc + 4 = ofInt 32 (a + 4) := by
    rw [at_]
    exact next_insn rfl
  rw [behind] at taken falls
  rw [← behind, at_, branchTarget_near a near] at taken
  refine ⟨fun yes => ⟨_, run, ?_⟩, fun no => ⟨_, run, falls no⟩⟩
  have arrives := taken yes
  rwa [show ofInt 32 a + 4 = ofInt 32 (a + 4) from next_insn rfl] at arrives

/-! ## Trampolines -/

/-- A load of R14. -/
theorem arrives_fourteen (m : Machine) (normal : m.instrMode = .normal) (w : Word) :
    Arrives m (({ m with pc := m.pc + 4 } : Machine).setGpr 14 w) (m.pc + 4) .normal none := by
  obtain ⟨sys, bus, pc, mode⟩ := setGpr_rest { m with pc := m.pc + 4 } 14 w
  refine ⟨pc, mode.trans normal, fun w same => absurd same.symm (Option.some_ne_none w), fun i apart _ => ?_, sys, bus⟩
  rw [readReg_fourteen, if_neg apart]
  exact Eq.refl (m.readReg i)

theorem goal_fourteen (m : Machine) (w : Word) : (({ m with pc := m.pc + 4 } : Machine).setGpr 14 w).readReg 14 = w := by
  rw [readReg_fourteen, if_pos rfl]

/-- `JR R14` and `JALR R14`. -/
theorem arrives_goal (m : Machine) (normal : m.instrMode = .normal) (link : Bool) :
    Arrives m (m.executeNormal (if link then .jalr 14 else .jr 14)) (m.readReg 14) .normal (if link then some (m.pc + 4) else none) := by
  cases link with
  | false =>
    have run : m.executeNormal (.jr 14) = { m with pc := m.readReg 14 } := executeNormal_plain rfl rfl
    change Arrives m (m.executeNormal (.jr 14)) _ _ _
    rw [run]
    exact arrives_pc normal _
  | true =>
    have run : m.executeNormal (.jalr 14) = { ({ m with pc := m.pc + 4 } : Machine).setGpr 31 (m.pc + 4) with pc := m.readReg 14 } :=
      executeNormal_plain rfl rfl
    have mode := (setGpr_rest { m with pc := m.pc + 4 } 31 (m.pc + 4)).2.2.2
    have whole := arrives_link m (m.pc + 4) (m.readReg 14) .normal (m.pc + 4)
    change Arrives m (m.executeNormal (.jalr 14)) _ _ _
    rw [run]
    exact ⟨rfl, mode.trans normal, whole.linked, whole.kept, whole.sys, whole.bus⟩

/-- What lies at a trampoline. -/
structure Jumps (memory : Word -> Byte) (t : Int) (goal : Word) (link : Bool) : Prop where
  high : decode (wordAt memory (ofInt 32 t)) = .ldih 14 ((goal >>> 16).setWidth 16)
  low : decode (wordAt memory (ofInt 32 (t + 4))) = .ldil 14 (goal.setWidth 16)
  jump : decode (wordAt memory (ofInt 32 (t + 8))) = if link then .jalr 14 else .jr 14

/-- A trampoline brings control to its goal. -/
theorem Jumps.arrives {t : Int} {link : Bool} (jumps : Jumps memory t goal link) (at_ : m.pc = ofInt 32 t)
    (normal : m.instrMode = .normal) :
    ∃ n, Normally memory t (t + 12) m n ∧ Arrives m n goal .normal (if link then some (ofInt 32 (t + 12)) else none) := by
  let first := m.executeNormal (.ldih 14 ((goal >>> 16).setWidth 16))
  have firstRun : Normally memory t (t + 12) m first := Normally.one at_ normal jumps.high (Int.le_refl t) (by omega)
  have firstShape : first = ({ m with pc := m.pc + 4 } : Machine).setGpr 14
      (m.readReg 14 &&& 0x0000FFFF ||| ((goal >>> 16).setWidth 16).setWidth 32 <<< 16) := executeNormal_plain rfl rfl
  have firstArrives : Arrives m first (m.pc + 4) .normal none := by
    rw [firstShape]
    exact arrives_fourteen m normal _
  have firstAt : first.pc = ofInt 32 (t + 4) := by
    rw [firstArrives.pc, at_]
    exact next_insn rfl
  let second := first.executeNormal (.ldil 14 (goal.setWidth 16))
  have secondRun : Normally memory t (t + 12) first second :=
    Normally.one firstAt firstArrives.mode jumps.low (by omega) (by omega)
  have secondShape : second = ({ first with pc := first.pc + 4 } : Machine).setGpr 14
      (first.readReg 14 &&& 0xFFFF0000 ||| (goal.setWidth 16).setWidth 32) := executeNormal_plain rfl rfl
  have secondArrives : Arrives first second (first.pc + 4) .normal none := by
    rw [secondShape]
    exact arrives_fourteen first firstArrives.mode _
  have secondAt : second.pc = ofInt 32 (t + 8) := by
    rw [secondArrives.pc, firstAt]
    exact next_insn (by omega)
  have loaded : second.readReg 14 = goal := by
    have before : first.readReg 14 = m.readReg 14 &&& 0x0000FFFF ||| ((goal >>> 16).setWidth 16).setWidth 32 <<< 16 := by
      rw [firstShape, goal_fourteen]
    rw [secondShape, goal_fourteen, before]
    exact Word.halves _ goal
  have last := arrives_goal second secondArrives.mode link
  have lastRun : Normally memory t (t + 12) second (second.executeNormal (if link then .jalr 14 else .jr 14)) :=
    Normally.one secondAt secondArrives.mode jumps.jump (by omega) (by omega)
  have behind : second.pc + 4 = ofInt 32 (t + 12) := by
    rw [secondAt]
    exact next_insn (by omega)
  rw [loaded, behind] at last
  refine ⟨_, (firstRun.trans secondRun).trans lastRun, ?_⟩
  exact (firstArrives.trans secondArrives fun _ => rfl).trans last fun _ => rfl

/-- A conditional branch over its trampoline. -/
theorem far_conditional {rs1 rs2 : BitVec 5} (conditional : op.conditional = true)
    (branch : decode (wordAt memory (ofInt 32 a)) = op.instruction rs1 rs2 (ofInt 16 4))
    (skip : decode (wordAt memory (ofInt 32 (a + 4))) = .jmp (ofInt 16 12))
    (jumps : Jumps memory (a + 8) goal false) :
    Correct memory op rs1 rs2 a (a + 20) goal := by
  have plain : op.mode = .normal ∧ op.links = false := by
    cases op with
    | beq => exact ⟨rfl, rfl⟩
    | bne => exact ⟨rfl, rfl⟩
    | jmp | jal | jmps | jals => cases conditional
  intro m at_ normal
  obtain ⟨taken, falls⟩ := @near_correct memory op rs1 rs2 a 4 ⟨by decide, by decide⟩ branch m at_ normal
  rw [plain.1, plain.2] at taken ⊢
  constructor
  · intro yes
    obtain ⟨x, run, arrives⟩ := taken yes
    obtain ⟨n, further, there⟩ := jumps.arrives (arrives.pc.trans (congrArg (ofInt 32) (by omega))) arrives.mode
    exact ⟨n, (run.widen (by omega) (by omega)).trans (further.widen (by omega) (by omega)), arrives.trans there fun _ => rfl⟩
  · intro no
    obtain ⟨x, run, arrives⟩ := falls no
    have jump := @near_correct memory .jmp 0 0 (a + 4) 12 ⟨by decide, by decide⟩ skip
    obtain ⟨n, further, there⟩ := (jump x arrives.pc arrives.mode).1 trivial
    refine ⟨n, (run.widen (by omega) (by omega)).trans (further.widen (by omega) (by omega)), ?_⟩
    have whole := arrives.trans there fun _ => rfl
    rwa [show a + 4 + 4 + 12 = a + 20 by omega] at whole

/-- `JMP` and `JAL` through a trampoline. -/
theorem far_jump (jump : op = .jmp ∨ op = .jal) (rs1 rs2 : BitVec 5)
    (branch : decode (wordAt memory (ofInt 32 a)) = op.instruction rs1 rs2 (ofInt 16 0))
    (jumps : Jumps memory (a + 4) goal (op = .jal)) : Correct memory op rs1 rs2 a (a + 16) goal := by
  intro m at_ normal
  have always : op.Taken m rs1 rs2 := by
    rcases jump with rfl | rfl
    · trivial
    · trivial
  refine ⟨fun _ => ?_, fun no => absurd always no⟩
  obtain ⟨x, run, arrives⟩ := (@near_correct memory op rs1 rs2 a 0 ⟨by decide, by decide⟩ branch m at_ normal).1 always
  have plain : op.mode = .normal ∧ op.links = decide (op = .jal) := by
    rcases jump with rfl | rfl
    · exact ⟨rfl, rfl⟩
    · exact ⟨rfl, rfl⟩
  rw [plain.1] at arrives ⊢
  obtain ⟨n, further, there⟩ := jumps.arrives (arrives.pc.trans (congrArg (ofInt 32) (by omega))) arrives.mode
  rw [show a + 4 + 12 = a + 16 by omega, ← plain.2] at there
  refine ⟨n, (run.widen (by omega) (by omega)).trans (further.widen (by omega) (by omega)), arrives.trans there fun none => ?_⟩
  split_ifs at none ⊢
  · rfl

/-- The first instruction to execute in the Short mode ends a run in the Normal mode. -/
theorem Normally.stuck (run : Normally memory start behind m n) (short : m.instrMode = .short) : n = m := by
  rcases Relation.ReflTransGen.cases_head run with same | ⟨x, ⟨_, normal, _⟩, _⟩
  · exact same.symm
  · rw [short] at normal
    cases normal

/-- A machine that stands at an address in the Normal mode. -/
def standing (start : Word) : Machine := Machine.reset ⟨fun _ => 0, fun _ => false⟩ start

/-- `JMPS` and `JALS` enter the Short mode at their trampoline. -/
theorem far_short (short : op.mode = .short) (room : a + 4 ≤ behind) (rs1 rs2 : BitVec 5)
    (branch : decode (wordAt memory (ofInt 32 a)) = op.instruction rs1 rs2 (ofInt 16 0)) :
    Correct memory op rs1 rs2 a behind goal ↔
      goal = ofInt 32 (a + 4) ∧ (op.links = true -> ofInt 32 behind = ofInt 32 (a + 4)) := by
  have always : ∀ m, op.Taken m rs1 rs2 := by
    intro m
    cases op with
    | jmps => trivial
    | jals => trivial
    | beq | bne | jmp | jal => cases short
  have near := @near_correct memory op rs1 rs2 a 0 ⟨by decide, by decide⟩ branch
  rw [show a + 4 + 0 = a + 4 by omega] at near
  constructor
  · intro correct
    let m := standing (ofInt 32 a)
    obtain ⟨n, run, arrives⟩ := (correct m rfl rfl).1 (always m)
    have normal : m.instrMode = .normal := rfl
    have only : n = m.executeNormal (op.instruction rs1 rs2 (ofInt 16 0)) := by
      rcases Relation.ReflTransGen.cases_head run with same | ⟨x, ⟨_, _, step⟩, rest⟩
      · have mode := arrives.mode
        rw [← same, short, normal] at mode
        cases mode
      · rw [show m.pc = ofInt 32 a from rfl, branch] at step
        have entered := ((executeNormal_branch op rs1 rs2 (ofInt 16 0) normal).1 (always m)).mode
        rw [← step, short] at entered
        exact (Normally.stuck rest entered).trans step
    have first := (executeNormal_branch op rs1 rs2 (ofInt 16 0) normal).1 (always m)
    rw [← only] at first
    have place : m.pc + 4 = ofInt 32 (a + 4) := next_insn rfl
    have target : Machine.branchTarget (m.pc + 4) (ofInt 16 0) = ofInt 32 (a + 4) :=
      (branchTarget_near a ⟨by decide, by decide⟩).trans (congrArg (ofInt 32) (by omega))
    refine ⟨arrives.pc.symm.trans (first.pc.trans target), fun links => ?_⟩
    have left := arrives.linked (ofInt 32 behind) (if_pos links)
    have right := first.linked (m.pc + 4) (if_pos links)
    exact left.symm.trans (right.trans place)
  · rintro ⟨rfl, linked⟩
    intro m at_ normal
    obtain ⟨taken, _⟩ := near m at_ normal
    refine ⟨fun yes => ?_, fun no => absurd (always m) no⟩
    obtain ⟨n, run, arrives⟩ := taken yes
    refine ⟨n, run.widen (Int.le_refl a) room, ?_⟩
    by_cases links : op.links = true
    · rw [linked links]
      exact arrives
    · rw [if_neg links] at arrives ⊢
      exact arrives

end Src32.Asm
