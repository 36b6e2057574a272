import Src32.Backend.CtxPieces
import Src32.Cpu.UserMode

namespace Src32.Backend

open Cpu
open Supervisor (set_word set_reg)

/-!
# The context switch

The trap stub saves what was interrupted, calls `kernel_trap` with it and resumes
the frame it returns.  The pieces of the listing run one behind the other; the
code is what startup laid out, and nothing writes to it.
-/

/-! ## The listing in memory -/

section Listing

variable {k : Labels} {s : Supervisor} {code : Word -> Instruction} {t : Supervisor}

theorem place_add (n m : Nat) : k.place n + BitVec.ofNat 32 (4 * m) = k.place (n + m) := by
  unfold Labels.place
  rw [BitVec.add_assoc, ← BitVec.ofNat_add, ← Nat.mul_add]

theorem place_next (n : Nat) : k.place n + 4 = k.place (n + 1) := place_add n 1

theorem branch_ahead (n : Nat) {m : Nat} (small : m < 8192) :
    Machine.branchTarget (k.place n + 4) (ahead m) = k.place (n + 1 + m) := by
  rw [place_next, ← place_add (n + 1) m]
  exact addSigned_slot (k.place (n + 1)) small

theorem split_laid {n stop : Nat} {first second : List Instruction} (laid : Laid code (k.place n) (first ++ second))
    (ends : n + first.length = stop) : Laid code (k.place n) first ∧ Laid code (k.place stop) second := by
  refine ⟨laid.left, ?_⟩
  rw [← ends, ← place_add]
  exact laid.right

/-- A piece of the listing runs to its end. -/
theorem gets_piece {n stop : Nat} {list : List Instruction} (laid : Laid code (k.place n) list)
    (ends : n + list.length = stop) (done : s.effects list = some t) : Gets code (k.place n) s (k.place stop) t := by
  have runs := Gets.effects laid done
  rwa [place_add, ends] at runs

/-- The pieces of the listing and the branches between them. -/
structure Listed (code : Word -> Instruction) (k : Labels) : Prop where
  opening : Laid code (k.place 0) k.opening
  busy : code (k.place 6) = .bne 2 0 (ahead 120)
  choosing : Laid code (k.place 7) k.choosing
  registers : Laid code (k.place 10) (storeRegisters savedRegisters)
  scratch : Laid code (k.place 36) savingScratch
  state : Laid code (k.place 41) savingState
  fromSupervisor : code (k.place 49) = .beq 3 0 (ahead 7)
  user : Laid code (k.place 50) savingUser
  saved : code (k.place 56) = .jmp (ahead 3)
  supervisor : Laid code (k.place 57) savingSupervisor
  calling : Laid code (k.place 60) k.calling
  call : code (k.place 71) = .jalr 12
  returning : Laid code (k.place 72) k.returning
  restoring : Laid code (k.place 78) restoringState
  toSupervisor : code (k.place 86) = .beq 3 0 (ahead 9)
  restoringUser : Laid code (k.place 87) k.restoringUser
  restored : code (k.place 95) = .jmp (ahead 2)
  restoringSupervisor : Laid code (k.place 96) restoringSupervisor
  loading : Laid code (k.place 98) loading
  iret : code (k.place 126) = .iret
  panicking : Laid code (k.place 127) k.panicking
  panic : code (k.place 134) = .jalr 12

theorem listed (laid : Laid code k.entry k.stub) : Listed code k := by
  have whole : Laid code (k.place 0) k.stub := by
    rwa [show k.place 0 = k.entry from BitVec.add_zero _]
  simp only [Labels.stub, Labels.front, Labels.back, List.append_assoc] at whole
  obtain ⟨opening, whole⟩ := split_laid whole (show _ = 6 from rfl)
  obtain ⟨busy, whole⟩ := split_laid whole (show _ = 7 from rfl)
  obtain ⟨choosing, whole⟩ := split_laid whole (show _ = 10 from rfl)
  obtain ⟨registers, whole⟩ := split_laid whole (show _ = 36 from rfl)
  obtain ⟨scratch, whole⟩ := split_laid whole (show _ = 41 from rfl)
  obtain ⟨state, whole⟩ := split_laid whole (show _ = 49 from rfl)
  obtain ⟨fromSupervisor, whole⟩ := split_laid whole (show _ = 50 from rfl)
  obtain ⟨user, whole⟩ := split_laid whole (show _ = 56 from rfl)
  obtain ⟨saved, whole⟩ := split_laid whole (show _ = 57 from rfl)
  obtain ⟨supervisor, whole⟩ := split_laid whole (show _ = 60 from rfl)
  obtain ⟨calling, whole⟩ := split_laid whole (show _ = 71 from rfl)
  obtain ⟨call, whole⟩ := split_laid whole (show _ = 72 from rfl)
  obtain ⟨returning, whole⟩ := split_laid whole (show _ = 78 from rfl)
  obtain ⟨restoring, whole⟩ := split_laid whole (show _ = 86 from rfl)
  obtain ⟨toSupervisor, whole⟩ := split_laid whole (show _ = 87 from rfl)
  obtain ⟨restoringUser, whole⟩ := split_laid whole (show _ = 95 from rfl)
  obtain ⟨restored, whole⟩ := split_laid whole (show _ = 96 from rfl)
  obtain ⟨restoringSupervisor, whole⟩ := split_laid whole (show _ = 98 from rfl)
  obtain ⟨loading, whole⟩ := split_laid whole (show _ = 126 from rfl)
  obtain ⟨iret, whole⟩ := split_laid whole (show _ = 127 from rfl)
  obtain ⟨panicking, panic⟩ := split_laid whole (show _ = 134 from rfl)
  exact ⟨opening, busy.head, choosing, registers, scratch, state, fromSupervisor.head, user, saved.head, supervisor, calling,
    call.head, returning, restoring, toSupervisor.head, restoringUser, restored.head, restoringSupervisor, loading, iret.head,
    panicking, panic.head⟩

/-! ## From the trap to the kernel -/

/-- The words that the stub works with, apart from frames. -/
structure Globals (k : Labels) : Prop where
  current : Usable k.current
  depth : Usable k.depth
  argument : Usable (k.stackTop - 8)
  distinct : k.current ≠ k.depth
  currentArgument : k.current ≠ k.stackTop - 8
  depthArgument : k.depth ≠ k.stackTop - 8

/-- A frame of the kernel. -/
structure FrameAt (k : Labels) (f : Word) : Prop where
  usable : ∀ i < frameWords, Usable (slotAt f i)
  current : Outside f k.current
  depth : Outside f k.depth

/-- The two scratch words from `top` on are memory of the interrupted stack. -/
structure ScratchAt (k : Labels) (top : Word) : Prop where
  low : Usable top
  high : Usable (slotAt top 1)
  currentLow : k.current ≠ top
  currentHigh : k.current ≠ slotAt top 1
  depthLow : k.depth ≠ top
  depthHigh : k.depth ≠ slotAt top 1

/-- What a frame holds. -/
structure Context where
  reg : Nat -> Word
  cause : Word
  epc : Word
  status : Word

/-- The frame at `f` holds the context. -/
structure Holds (word : Word -> Word) (f : Word) (context : Context) : Prop where
  reg : ∀ i, 0 < i -> i < 32 -> word (slotAt f i) = context.reg i
  cause : word (slotAt f ctxCause) = context.cause
  epc : word (slotAt f ctxEpc) = context.epc
  status : word (slotAt f ctxStatus) = context.status

/-- What was interrupted, as the entry of the stub finds it. -/
def trapped (s : Supervisor) : Context where
  reg := fun i => if s.sys.pu = true ∧ 28 ≤ i ∧ i < 31 then bankAt s.sys.otherBank (i - 28) else s.reg i
  cause := s.sys.cause
  epc := s.sys.epc
  status := s.sys.status

theorem pu_bit (sys : SystemState) : sys.status &&& statusPU = 0 ↔ sys.pu = false := by
  rw [← not_iff_not, Bool.not_eq_false]
  exact (status_bits sys).2.2.2.1

variable {top f : Word}

/-- Behind the opening the depth was 0. -/
theorem gets_opening (listed : Listed code k) (stack : s.reg 28 = top + 8) (zero : s.reg 0 = 0)
    (scratch : ScratchAt k top) (globals : Globals k) (idle : s.word k.depth = 0) :
    ∃ t, Gets code (k.place 0) s (k.place 7) t ∧ t.sys = s.sys ∧ t.reg 28 = top ∧
      (∀ i, i ≠ 1 -> i ≠ 2 -> i ≠ 28 -> t.reg i = s.reg i) ∧ t.word top = s.reg 1 ∧
      t.word (slotAt top 1) = s.reg 2 ∧ ∀ a, a ≠ top -> a ≠ slotAt top 1 -> t.word a = s.word a := by
  obtain ⟨t, done, sys, depth, there, kept, low, high, frame⟩ :=
    opening_effects (k := k) stack scratch.low scratch.high globals.depth scratch.depthLow scratch.depthHigh
  have goes := Gets.bne (s := t) listed.busy
  have equal : t.reg (2 : BitVec 5).toNat = t.reg (0 : BitVec 5).toNat := by
    change t.reg 2 = t.reg 0
    rw [depth, idle, kept 0 (by decide) (by decide) (by decide), zero]
  rw [if_pos equal, place_next] at goes
  exact ⟨t, (gets_piece listed.opening rfl done).trans goes, sys, there, kept, low, high, frame⟩

/-- A trap while the kernel runs. -/
theorem gets_panic (listed : Listed code k) (stack : s.reg 28 = top + 8) (zero : s.reg 0 = 0)
    (scratch : ScratchAt k top) (globals : Globals k) (below : Usable (top - 8))
    (above : Usable (slotAt (top - 8) 1)) (busy : s.word k.depth ≠ 0) :
    ∃ t, Gets code (k.place 0) s k.panic t ∧ t.reg 28 = top - 8 ∧ t.word (top - 8) = s.sys.cause ∧
      t.word (slotAt (top - 8) 1) = s.sys.epc ∧ t.sys = s.sys ∧
      ∀ a, a ≠ top -> a ≠ slotAt top 1 -> a ≠ top - 8 -> a ≠ slotAt (top - 8) 1 -> t.word a = s.word a := by
  obtain ⟨t, done, sys, depth, there, kept, _, _, frame⟩ :=
    opening_effects (k := k) stack scratch.low scratch.high globals.depth scratch.depthLow scratch.depthHigh
  have goes := Gets.bne (s := t) listed.busy
  have different : ¬ t.reg (2 : BitVec 5).toNat = t.reg (0 : BitVec 5).toNat := by
    change ¬ t.reg 2 = t.reg 0
    rw [depth, kept 0 (by decide) (by decide) (by decide), zero]
    exact busy
  rw [if_neg different, branch_ahead 6 (by decide)] at goes
  have down : t.reg 28 = top - 8 + 8 := by
    rw [there]
    bv_omega
  obtain ⟨u, panics, sysU, target, low, cause, epc, frameU⟩ := panicking_effects (k := k) down below above
  have calls := Gets.jalr (s := u) listed.panic
  rw [show u.reg (12 : BitVec 5).toNat = k.panic from target] at calls
  refine ⟨u.set 31 (k.place 134 + 4), ((gets_piece listed.opening rfl done).trans goes).trans ((gets_piece listed.panicking rfl panics).trans calls),
    ?_, ?_, ?_, ?_, ?_⟩
  · rw [set_reg, if_neg (by decide), low]
  · rw [set_word, cause, sys]
  · rw [set_word, epc, sys]
  · rw [Supervisor.set_sys, sysU, sys]
  · intro a one two three four
    rw [set_word, frameU a three four, frame a one two]

/-- Up to the question where the trap came from. -/
theorem gets_state (listed : Listed code k) (stack : s.reg 28 = top) (zero : s.reg 0 = 0)
    (supervisor : s.sys.user = false) (scratch : ScratchAt k top) (globals : Globals k)
    (current : s.word k.current = f) (frameAt : FrameAt k f) (apartLow : Outside f top)
    (apartHigh : Outside f (slotAt top 1)) :
    ∃ t, Gets code (k.place 7) s (k.place 49) t ∧ t.sys = s.sys ∧ t.reg 1 = f ∧ t.reg 3 = s.sys.status &&& statusPU ∧
      t.reg 28 = top + 8 ∧ (∀ i, i ≠ 1 -> i ≠ 2 -> i ≠ 3 -> i ≠ 28 -> t.reg i = s.reg i) ∧
      (∀ i, 2 < i -> i < 28 ∨ i = 31 -> t.word (slotAt f i) = s.reg i) ∧ t.word (slotAt f 1) = s.word top ∧
      t.word (slotAt f 2) = s.word (slotAt top 1) ∧ t.word (slotAt f ctxCause) = s.sys.cause ∧
      t.word (slotAt f ctxEpc) = s.sys.epc ∧ t.word (slotAt f ctxStatus) = s.sys.status ∧
      ∀ a, Outside f a -> t.word a = s.word a := by
  obtain ⟨a, choosing, sysA, baseA, keptA, wordA⟩ := choosing_effects (k := k) (s := s) globals.current
  rw [current] at baseA
  have bounds : ∀ r ∈ savedRegisters, 2 < r ∧ r < 32 := by decide
  have inFrame : ∀ r ∈ savedRegisters, r < frameWords := fun r member => Nat.lt_trans (bounds r member).2 (by decide)
  obtain ⟨b, registers, regB, sysB, storedB, frameB⟩ := storeRegisters_effects (s := a) savedRegisters
    (fun r member => (bounds r member).2) (by
      intro r member
      rw [baseA]
      exact frameAt.usable r (inFrame r member))
  rw [baseA] at storedB frameB
  have baseB : b.reg 1 = f := by rw [regB, baseA]
  obtain ⟨c, scratched, sysC, stackC, keptC, oneC, twoC, frameC⟩ := savingScratch_effects (s := b)
    (show b.reg 28 = top by rw [regB, keptA 28 (by decide), stack]) scratch.low scratch.high (by rw [baseB]; exact frameAt.usable)
    (by rw [baseB]; exact apartHigh)
  rw [baseB] at oneC twoC frameC
  have baseC : c.reg 1 = f := (keptC 1 (by decide) (by decide)).trans baseB
  obtain ⟨d, saved, sysD, puD, keptD, causeD, epcD, statusD, frameD⟩ := savingState_effects (s := c)
    (by rw [sysC, sysB, sysA]; exact supervisor)
    (by rw [keptC 0 (by decide) (by decide), regB, keptA 0 (by decide), zero])
    (by rw [baseC]; exact frameAt.usable)
  rw [baseC] at causeD epcD statusD frameD
  have sysAll : c.sys = s.sys := (sysC.trans sysB).trans sysA
  rw [sysAll] at puD causeD epcD statusD
  refine ⟨d, (((gets_piece listed.choosing rfl choosing).trans (gets_piece listed.registers rfl registers)).trans
    (gets_piece listed.scratch rfl scratched)).trans (gets_piece listed.state rfl saved), ?_⟩
  refine ⟨sysD.trans sysAll, (keptD 1 (by decide) (by decide)).trans baseC, puD, ?_, ?_, ?_, ?_, ?_, causeD, epcD, statusD, ?_⟩
  · rw [keptD 28 (by decide) (by decide), stackC]
  · intro i one two three stack
    rw [keptD i two three, keptC i two stack, regB, keptA i one]
  · intro i above inside
    have member : i ∈ savedRegisters := by
      unfold savedRegisters
      rw [List.mem_append, List.mem_range'_1, List.mem_singleton]
      omega
    have small : i < frameWords := inFrame i member
    rw [frameD _ (slotAt_ne small (by decide) (by unfold ctxCause; omega))
        (slotAt_ne small (by decide) (by unfold ctxEpc; omega)) (slotAt_ne small (by decide) (by unfold ctxStatus; omega)),
      frameC _ (slotAt_ne small (by decide) (by omega)) (slotAt_ne small (by decide) (by omega)), storedB i member,
      keptA i (by omega)]
  · rw [frameD _ (slotAt_ne (by decide) (by decide) (by decide)) (slotAt_ne (by decide) (by decide) (by decide))
        (slotAt_ne (by decide) (by decide) (by decide)), oneC, frameB top fun r member => apartLow r (inFrame r member), wordA]
  · rw [frameD _ (slotAt_ne (by decide) (by decide) (by decide)) (slotAt_ne (by decide) (by decide) (by decide))
        (slotAt_ne (by decide) (by decide) (by decide)), twoC, frameB _ fun r member => apartHigh r (inFrame r member), wordA]
  · intro x outside
    rw [frameD x (outside _ (by decide)) (outside _ (by decide)) (outside _ (by decide)),
      frameC x (outside _ (by decide)) (outside _ (by decide)), frameB x fun r member => outside r (inFrame r member), wordA]

/-- The banked registers follow, from where the trap came. -/
theorem gets_banked (listed : Listed code k) (base : s.reg 1 = f) (zero : s.reg 0 = 0)
    (supervisor : s.sys.user = false) (bit : s.reg 3 = s.sys.status &&& statusPU) (frameAt : FrameAt k f) :
    ∃ t, Gets code (k.place 49) s (k.place 60) t ∧ t.sys = s.sys ∧ (∀ i, i ≠ 2 -> t.reg i = s.reg i) ∧
      (∀ i, 28 ≤ i -> i < 31 -> t.word (slotAt f i) = if s.sys.pu = true then bankAt s.sys.otherBank (i - 28) else s.reg i) ∧
      ∀ a, (∀ i, 28 ≤ i -> i < 31 -> a ≠ slotAt f i) -> t.word a = s.word a := by
  have goes := Gets.beq (s := s) listed.fromSupervisor
  cases user : s.sys.pu with
  | true =>
    have different : ¬ s.reg (3 : BitVec 5).toNat = s.reg (0 : BitVec 5).toNat := by
      change ¬ s.reg 3 = s.reg 0
      rw [bit, zero, pu_bit, user]
      exact Bool.noConfusion
    rw [if_neg different, place_next] at goes
    obtain ⟨t, saving, sys, kept, stored, frame⟩ := savingUser_effects (s := s) supervisor (by rw [base]; exact frameAt.usable)
    rw [base] at stored frame
    have jumps := Gets.jmp (s := t) listed.saved
    rw [branch_ahead 56 (by decide)] at jumps
    refine ⟨t, (goes.trans (gets_piece listed.user rfl saving)).trans jumps, sys, kept, fun i above below => ?_,
      fun a apart => ?_⟩
    · obtain ⟨j, rfl⟩ := Nat.exists_eq_add_of_le above
      rw [if_pos rfl, Nat.add_sub_cancel_left]
      exact stored j (by omega)
    · exact frame a fun i inside => apart (28 + i) (by omega) (by omega)
  | false =>
    have equal : s.reg (3 : BitVec 5).toNat = s.reg (0 : BitVec 5).toNat := by
      change s.reg 3 = s.reg 0
      rw [bit, zero, pu_bit, user]
    rw [if_pos equal, branch_ahead 49 (by decide)] at goes
    have bounds : ∀ r ∈ [28, 29, 30], 28 ≤ r ∧ r < 31 := by decide
    obtain ⟨t, saving, reg, sys, stored, frame⟩ := storeRegisters_effects (s := s) [28, 29, 30]
      (fun r member => Nat.lt_trans (bounds r member).2 (by decide)) (by
        intro r member
        rw [base]
        exact frameAt.usable r (Nat.lt_trans (bounds r member).2 (by decide)))
    rw [base] at stored frame
    refine ⟨t, goes.trans (gets_piece listed.supervisor rfl saving), sys, fun i _ => congrFun reg i, fun i above below => ?_,
      fun a apart => ?_⟩
    · rw [if_neg Bool.false_ne_true]
      refine stored i ?_
      rcases (by omega : i = 28 ∨ i = 29 ∨ i = 30) with rfl | rfl | rfl
      · decide
      · decide
      · decide
    · exact frame a fun r member => apart r (bounds r member).1 (bounds r member).2

/-- The entry of the stub, with the kernel idle: `kernel_trap` is called with the
frame that holds what was interrupted. -/
theorem gets_call (listed : Listed code k) (stack : s.reg 28 = top + 8) (zero : s.reg 0 = 0)
    (supervisor : s.sys.user = false) (scratch : ScratchAt k top) (globals : Globals k)
    (current : s.word k.current = f) (frameAt : FrameAt k f) (apartLow : Outside f top)
    (apartHigh : Outside f (slotAt top 1)) (apartArgument : Outside f (k.stackTop - 8)) (idle : s.word k.depth = 0) :
    ∃ t, Gets code (k.place 0) s k.trap t ∧ t.sys = s.sys ∧ Holds t.word f (trapped s) ∧ t.reg 1 = f ∧
      t.reg 28 = k.stackTop - 8 ∧ t.word (k.stackTop - 8) = f ∧ t.reg 29 = 0 ∧ t.reg 30 = s.reg 30 ∧
      t.reg 31 = k.place 72 ∧ t.word k.depth = 1 ∧
      ∀ a, Outside f a -> a ≠ top -> a ≠ slotAt top 1 -> a ≠ k.depth -> a ≠ k.stackTop - 8 -> t.word a = s.word a := by
  obtain ⟨a, opens, sysA, stackA, keptA, oneA, twoA, frameA⟩ := gets_opening listed stack zero scratch globals idle
  have zeroA : a.reg 0 = 0 := (keptA 0 (by decide) (by decide) (by decide)).trans zero
  have currentA : a.word k.current = f := (frameA _ scratch.currentLow scratch.currentHigh).trans current
  obtain ⟨b, saves, sysB, baseB, bitB, stackB, keptB, regsB, oneB, twoB, causeB, epcB, statusB, frameB⟩ :=
    gets_state listed stackA zeroA (by rw [sysA]; exact supervisor) scratch globals currentA frameAt apartLow apartHigh
  rw [oneA] at oneB
  rw [twoA] at twoB
  rw [sysA] at causeB epcB statusB bitB sysB
  have zeroB : b.reg 0 = 0 := (keptB 0 (by decide) (by decide) (by decide) (by decide)).trans zeroA
  obtain ⟨c, banks, sysC, keptC, banksC, frameC⟩ := gets_banked listed baseB zeroB (by rw [sysB]; exact supervisor)
    (by rw [sysB]; exact bitB) frameAt
  rw [sysB] at banksC sysC
  have stackTop : k.stackTop = k.stackTop - 8 + 8 := by bv_omega
  obtain ⟨d, calling, sysD, targetD, stackD, fpD, keptD, depthD, argumentD, frameD⟩ := calling_effects (k := k) (s := c)
    ((keptC 0 (by decide)).trans zeroB) stackTop globals.depth globals.argument globals.depthArgument
  have baseC : c.reg 1 = f := (keptC 1 (by decide)).trans baseB
  have calls := Gets.jalr (s := d) listed.call
  rw [show d.reg (12 : BitVec 5).toNat = k.trap from targetD, place_next] at calls
  -- A word of the frame survives the call sequence.
  have survives : ∀ i < frameWords, d.word (slotAt f i) = c.word (slotAt f i) := by
    intro i inside
    exact frameD _ (Ne.symm (frameAt.depth i inside)) (Ne.symm (apartArgument i inside))
  have outsideBank : ∀ i < frameWords, i < 28 ∨ 31 ≤ i -> c.word (slotAt f i) = b.word (slotAt f i) := by
    intro i inside outside
    refine frameC _ fun j above below => slotAt_ne inside (by unfold frameWords; omega) (by omega)
  have zeroth : ∀ i, 0 < i -> i < 32 -> d.word (slotAt f i) = (trapped s).reg i := by
    intro i positive small
    have inside : i < frameWords := Nat.lt_trans small (by decide)
    rw [survives i inside]
    unfold trapped
    dsimp only
    by_cases banked : 28 ≤ i ∧ i < 31
    · rw [banksC i banked.1 banked.2]
      cases user : s.sys.pu with
      | true => rw [if_pos rfl, if_pos ⟨rfl, banked⟩]
      | false =>
        rw [if_neg Bool.false_ne_true, if_neg fun both => Bool.false_ne_true both.1]
        by_cases sp : i = 28
        · rw [sp, stackB, stack]
        · rw [keptB i (by omega) (by omega) (by omega) sp, keptA i (by omega) (by omega) sp]
    · rw [if_neg fun both => banked both.2, outsideBank i inside (by omega)]
      rcases (by omega : i = 1 ∨ i = 2 ∨ 2 < i) with rfl | rfl | above
      · exact oneB
      · exact twoB
      · rw [regsB i above (by omega), keptA i (by omega) (by omega) (by omega)]
  refine ⟨d.set 31 (k.place 72), ((((opens.trans saves).trans banks).trans (gets_piece listed.calling rfl calling)).trans calls),
    ?_, ⟨?_, ?_, ?_, ?_⟩, ?_, ?_, ?_, ?_, ?_, ?_, ?_, ?_⟩
  · rw [Supervisor.set_sys, sysD, sysC]
  · rw [set_word]
    exact zeroth
  · rw [set_word, survives _ (by decide), outsideBank _ (by decide) (by decide), causeB]
    rfl
  · rw [set_word, survives _ (by decide), outsideBank _ (by decide) (by decide), epcB]
    rfl
  · rw [set_word, survives _ (by decide), outsideBank _ (by decide) (by decide), statusB]
    rfl
  · rw [set_reg, if_neg (by decide), keptD 1 (by decide) (by decide) (by decide) (by decide) (by decide), baseC]
  · rw [set_reg, if_neg (by decide), stackD]
  · rw [set_word, argumentD, baseC]
  · rw [set_reg, if_neg (by decide), fpD]
  · rw [set_reg, if_neg (by decide), keptD 30 (by decide) (by decide) (by decide) (by decide) (by decide),
      keptC 30 (by decide), keptB 30 (by decide) (by decide) (by decide) (by decide),
      keptA 30 (by decide) (by decide) (by decide)]
  · rw [set_reg, if_pos ⟨by decide, rfl⟩]
  · rw [set_word, depthD]
  · intro x outside low high depth argument
    have apart : ∀ i, 28 ≤ i -> i < 31 -> x ≠ slotAt f i := fun i _ below => outside i (by unfold frameWords; omega)
    rw [set_word, frameD x depth argument, frameC x apart, frameB x outside, frameA x low high]

/-! ## From the kernel back -/

/-- The frame that R1 holds is restored up to IRET. -/
theorem gets_restored (listed : Listed code k) {g : Word} (base : s.reg 1 = g) (zero : s.reg 0 = 0)
    (supervisor : s.sys.user = false) (masked : s.sys.ie = false) (usable : ∀ i < frameWords, Usable (slotAt g i)) :
    ∃ t bank, Gets code (k.place 78) s (k.place 126) t ∧
      t.sys = { { s.sys with epc := s.word (slotAt g ctxEpc) }.setStatus (s.word (slotAt g ctxStatus) &&& 0x1A) with
        otherBank := bank } ∧
      (∀ i, 0 < i -> i < 28 ∨ i = 31 -> t.reg i = s.word (slotAt g i)) ∧ t.reg 30 = s.reg 30 ∧
      (s.word (slotAt g ctxStatus) &&& statusPU ≠ 0 ->
        (∀ i < 3, bankAt bank i = s.word (slotAt g (28 + i))) ∧ t.reg 28 = k.stackTop) ∧
      (s.word (slotAt g ctxStatus) &&& statusPU = 0 ->
        bank = s.sys.otherBank ∧ t.reg 28 = s.word (slotAt g 28) ∧ t.reg 29 = s.word (slotAt g 29)) ∧
      t.word = s.word := by
  obtain ⟨a, restoring, sysA, bitA, keptA, wordA⟩ := restoringState_effects (s := s) masked zero (by rw [base]; exact usable)
  rw [base] at sysA bitA
  have baseA : a.reg 1 = g := (keptA 1 (by decide) (by decide)).trans base
  have goes := Gets.beq (s := a) listed.toSupervisor
  have userA : a.sys.user = false := by
    rw [sysA]
    exact supervisor
  have maskedA : a.sys.ie = false := by
    rw [sysA]
    unfold SystemState.setStatus
    dsimp only
    rw [(restored_bits _).1]
    rfl
  have first := (gets_piece listed.restoring rfl restoring).trans goes
  by_cases bit : s.word (slotAt g ctxStatus) &&& statusPU = 0
  · have equal : a.reg (3 : BitVec 5).toNat = a.reg (0 : BitVec 5).toNat := by
      change a.reg 3 = a.reg 0
      rw [bitA, bit, keptA 0 (by decide) (by decide), zero]
    rw [if_pos equal, branch_ahead 86 (by decide)] at first
    have bounds : ∀ r ∈ [28, 29], 1 < r ∧ r < 32 := by decide
    obtain ⟨b, restored, wordB, sysB, loadedB, keptB⟩ := loadRegisters_effects (s := a) [28, 29] bounds (by
      intro r member
      rw [baseA]
      exact usable r (Nat.lt_trans (bounds r member).2 (by decide)))
    have baseB : b.reg 1 = g := (keptB 1 (by decide)).trans baseA
    obtain ⟨c, loads, sysC, loadedC, keptC, wordC⟩ := loading_effects (s := b) (by rw [baseB]; exact usable)
    rw [baseB, wordB, wordA] at loadedC
    rw [baseA, wordA] at loadedB
    refine ⟨c, s.sys.otherBank, (first.trans (gets_piece listed.restoringSupervisor rfl restored)).trans
      (gets_piece listed.loading rfl loads), ?_, loadedC, ?_, fun wrong => absurd bit wrong, fun _ => ⟨rfl, ?_, ?_⟩, ?_⟩
    · rw [sysC, sysB, sysA]
      rfl
    · rw [keptC 30 (by decide) (by decide), keptB 30 (by decide), keptA 30 (by decide) (by decide)]
    · rw [keptC 28 (by decide) (by decide), loadedB 28 (by decide)]
    · rw [keptC 29 (by decide) (by decide), loadedB 29 (by decide)]
    · rw [wordC, wordB, wordA]
  · have different : ¬ a.reg (3 : BitVec 5).toNat = a.reg (0 : BitVec 5).toNat := by
      change ¬ a.reg 3 = a.reg 0
      rw [bitA, keptA 0 (by decide) (by decide), zero]
      exact bit
    rw [if_neg different, place_next] at first
    obtain ⟨b, bank, restored, sysB, banked, stackB, keptB, wordB⟩ := restoringUser_effects (k := k) (s := a) userA maskedA
      (by rw [baseA]; exact usable)
    rw [baseA, wordA] at banked
    have jumps := Gets.jmp (s := b) listed.restored
    rw [branch_ahead 95 (by decide)] at jumps
    have baseB : b.reg 1 = g := (keptB 1 (by decide) (by decide)).trans baseA
    obtain ⟨c, loads, sysC, loadedC, keptC, wordC⟩ := loading_effects (s := b) (by rw [baseB]; exact usable)
    rw [baseB, wordB, wordA] at loadedC
    refine ⟨c, bank, ((first.trans (gets_piece listed.restoringUser rfl restored)).trans jumps).trans
      (gets_piece listed.loading rfl loads), ?_, loadedC, ?_, fun _ => ⟨banked, ?_⟩, fun wrong => absurd wrong bit, ?_⟩
    · rw [sysC, sysB, sysA]
    · rw [keptC 30 (by decide) (by decide), keptB 30 (by decide) (by decide), keptA 30 (by decide) (by decide)]
    · rw [keptC 28 (by decide) (by decide), stackB]
    · rw [wordC, wordB, wordA]

/-- The return of `kernel_trap` makes its frame the current one. -/
theorem gets_returned (listed : Listed code k) {g : Word} (base : s.reg 1 = g) (zero : s.reg 0 = 0) (globals : Globals k) :
    ∃ t, Gets code (k.place 72) s (k.place 78) t ∧ t.sys = s.sys ∧ (∀ i, i ≠ 2 -> t.reg i = s.reg i) ∧
      t.word k.current = g ∧ t.word k.depth = 0 ∧ ∀ a, a ≠ k.current -> a ≠ k.depth -> t.word a = s.word a := by
  obtain ⟨t, returns, sys, kept, current, depth, frame⟩ := returning_effects (k := k) (s := s) zero globals.current
    globals.depth globals.distinct
  exact ⟨t, gets_piece listed.returning rfl returns, sys, kept, current.trans base, depth, frame⟩

end Listing

/-! ## The interrupted machine -/

/-- A register of supervisor mode: R28 to R30 are banked. -/
def supervisorReg (m : Machine) (i : Nat) : Word :=
  if m.sys.user = true ∧ 28 ≤ i ∧ i < 31 then bankAt m.sys.otherBank (i - 28) else m.readReg i

/-- What kernel code sees of a machine. -/
def view (m : Machine) : Supervisor := ⟨m.readReg, m.bus.readU32Be, m.sys⟩

theorem readReg_zero (m : Machine) : m.readReg 0 = 0 := rfl

theorem readReg_setBank {m n : Machine} {bank : Vector Word 3} (same : n.reg = setBank m.reg bank) (i : Nat) :
    n.readReg i = if 28 ≤ i ∧ i < 31 then bankAt bank (i - 28) else m.readReg i := by
  have whole : n.reg[i]? = if 28 ≤ i ∧ i < 31 then bank[i - 28]? else m.reg[i]? := by
    rw [same]
    unfold setBank
    by_cases sp : i = 28
    · subst sp
      simp
    by_cases fp : i = 29
    · subst fp
      simp
    by_cases gp : i = 30
    · subst gp
      simp
    rw [Vector.getElem?_set_ne _ (Ne.symm gp), Vector.getElem?_set_ne _ (Ne.symm fp), Vector.getElem?_set_ne _ (Ne.symm sp),
      if_neg (by omega)]
  unfold Machine.readReg bankAt
  rw [whole]
  by_cases zero : i = 0
  · rw [if_pos zero, if_pos zero, if_neg (by omega)]
  · rw [if_neg zero, if_neg zero]
    split_ifs
    · rfl
    · rfl

/-- A bank that holds the live registers. -/
theorem bankAt_live (m : Machine) {i : Nat} (inside : i < 3) :
    bankAt (Vector.ofFn fun index : Fin 3 => getElem m.reg (28 + index.val) (banked index)) i = m.readReg (28 + i) := by
  unfold bankAt Machine.readReg
  rw [if_neg (by omega), Vector.getElem?_ofFn, dif_pos inside, Vector.getElem?_eq_getElem (by omega)]

section Entry

variable {x entered : Machine} {origin epc : Word}

/-- What the entry of a trap does to registers, bank and memory. -/
structure EntryShown (x entered : Machine) : Prop where
  reg : ∀ i, entered.readReg i = supervisorReg x i
  bus : entered.bus = x.bus
  normal : entered.instrMode = .normal
  bank : ∀ i < 3, x.sys.user = true -> bankAt entered.sys.otherBank i = x.readReg (28 + i)
  kept : x.sys.user = false -> entered.sys.otherBank = x.sys.otherBank

theorem enterTrap_shown {s : SystemState} (user : s.user = x.sys.user) (bank : s.otherBank = x.sys.otherBank)
    (epc cause : Word) (mode : InstructionMode) (regs : entered.reg = (s.enterTrap x.reg epc cause mode).2)
    (sys : entered.sys = (s.enterTrap x.reg epc cause mode).1) (bus : entered.bus = x.bus)
    (normal : entered.instrMode = .normal) : EntryShown x entered := by
  cases from_ : x.sys.user with
  | true =>
    rw [Machine.enterTrap_user (user.trans from_), bank] at regs
    rw [Machine.enterTrap_user (user.trans from_)] at sys
    refine ⟨fun i => ?_, bus, normal, fun i inside _ => ?_, fun wrong => absurd wrong (by rw [from_]; exact Bool.noConfusion)⟩
    · rw [readReg_setBank regs]
      unfold supervisorReg
      rw [from_]
      simp only [true_and]
    · rw [sys]
      exact bankAt_live x inside
  | false =>
    rw [Machine.enterTrap_supervisor (user.trans from_)] at regs sys
    refine ⟨fun i => ?_, bus, normal, fun i _ wrong => absurd wrong (by rw [from_]; exact Bool.noConfusion), fun _ => ?_⟩
    · unfold supervisorReg
      rw [from_, if_neg fun both => Bool.false_ne_true both.1]
      unfold Machine.readReg
      rw [regs]
    · rw [sys]
      exact bank

theorem entry_shown (entry : Machine.TrapEntry origin x epc entered) : EntryShown x entered := by
  cases entry with
  | irq accepts =>
    have opened : x.acceptPendingIrq = _ := if_pos accepts
    rw [opened]
    exact enterTrap_shown (s := x.sys) rfl rfl x.pc (x.irqPendingNumber.setWidth 32) x.instrMode rfl rfl rfl rfl
  | exception exception latched =>
    exact enterTrap_shown (s := x.sys.recordFault exception.faultAddr) rfl rfl origin exception.cause x.instrMode rfl rfl rfl rfl
  | syscall imm =>
    exact enterTrap_shown (s := x.sys.recordFault none) rfl rfl (origin + 4) (Raised.syscall imm).cause x.instrMode
      rfl rfl rfl rfl

end Entry

/-! ## The switch -/

section Switch

variable {code : Word -> Instruction} {k : Labels} {x entered : Machine} {origin epc : Word}

/-- What startup set up: the listing is where it belongs, every vector leads to it
and R30 of the supervisor holds its address. -/
structure Installed (code : Word -> Instruction) (k : Labels) (x : Machine) : Prop where
  laid : Laid code k.entry k.stub
  exceptions : ∀ raised : Raised, x.memory.readU32Be raised.vector = k.entry
  interrupts : ∀ number : BitVec 4, code (irqVectorBase + number.setWidth 32 * 4) = .jr 30
  handler : supervisorReg x 30 = k.entry

/-- A trap gets to the entry of the stub. -/
theorem gets_entry (installed : Installed code k x) (entry : Machine.TrapEntry origin x epc entered) :
    ∃ n, Executes code entered n ∧ Shows n (k.place 0) (view entered) := by
  have shown := entry_shown entry
  have here : ∀ pc, entered.pc = pc -> Shows entered pc (view entered) := fun pc same =>
    ⟨fun _ => rfl, fun _ _ => rfl, rfl, same, entry.user, entry.masked, shown.normal⟩
  have start : k.place 0 = k.entry := BitVec.add_zero _
  rw [start]
  have handler : entered.readReg 30 = k.entry := (shown.reg 30).trans installed.handler
  cases entry with
  | irq accepts =>
    have slot : x.acceptPendingIrq.pc = irqVectorBase + x.irqPendingNumber.setWidth 32 * 4 := by
      have opened : x.acceptPendingIrq = _ := if_pos accepts
      rw [opened]
    have goes := Gets.jr (s := view x.acceptPendingIrq) (installed.interrupts x.irqPendingNumber)
    rw [show (view x.acceptPendingIrq).reg (30 : BitVec 5).toNat = k.entry from handler] at goes
    exact goes x.acceptPendingIrq (here _ slot)
  | exception exception latched => exact ⟨_, .refl, here _ (installed.exceptions exception)⟩
  | syscall imm => exact ⟨_, .refl, here _ (installed.exceptions (.syscall imm))⟩

/-- The context of the interrupted program. -/
def interrupted (x entered : Machine) : Context where
  reg := x.readReg
  cause := entered.sys.cause
  epc := entered.sys.epc
  status := entered.sys.status

theorem trapped_view (entry : Machine.TrapEntry origin x epc entered) {i : Nat} :
    (trapped (view entered)).reg i = x.readReg i := by
  have shown := entry_shown entry
  have saved := entry.saved
  change (if entered.sys.pu = true ∧ 28 ≤ i ∧ i < 31 then bankAt entered.sys.otherBank (i - 28) else entered.readReg i) = _
  rw [saved.pu, shown.reg]
  unfold supervisorReg
  by_cases banked : x.sys.user = true ∧ 28 ≤ i ∧ i < 31
  · rw [if_pos banked, shown.bank (i - 28) (by omega) banked.1, show 28 + (i - 28) = i by omega]
  · rw [if_neg banked, if_neg banked]

/-- `kernel_trap` is called: the frame holds what was interrupted, R1 and the word
on the fresh stack are the frame, and R31 is where to return to. -/
structure Called (k : Labels) (x entered : Machine) (f : Word) (c : Machine) : Prop where
  pc : c.pc = k.trap
  supervisor : c.sys.user = false
  masked : c.sys.ie = false
  normal : c.instrMode = .normal
  holds : Holds c.bus.readU32Be f (interrupted x entered)
  stack : c.readReg 28 = k.stackTop - 8
  argument : c.bus.readU32Be (k.stackTop - 8) = f
  register : c.readReg 1 = f
  handler : c.readReg 30 = supervisorReg x 30
  returns : c.readReg 31 = k.place 72
  depth : c.bus.readU32Be k.depth = 1

/-- `kernel_trap` returns a frame in R1, with interrupts still disabled. -/
structure Returned (c r : Machine) (g : Word) : Prop where
  pc : r.pc = c.readReg 31
  supervisor : r.sys.user = false
  masked : r.sys.ie = false
  normal : r.instrMode = .normal
  result : r.readReg 1 = g

/-- The machine goes on with what the frame at `g` holds. -/
structure Resumes (k : Labels) (r : Machine) (g : Word) (z : Machine) : Prop where
  pc : z.pc = r.bus.readU32Be (slotAt g ctxEpc)
  mode : z.sys.user = decide (r.bus.readU32Be (slotAt g ctxStatus) &&& statusPU ≠ 0)
  instrMode : z.instrMode = if r.bus.readU32Be (slotAt g ctxStatus) &&& statusPSM ≠ 0 then .short else .normal
  enable : z.sys.ie = decide (r.bus.readU32Be (slotAt g ctxStatus) &&& statusPIE ≠ 0)
  registers : ∀ i, 0 < i -> i < 32 -> (i = 30 -> z.sys.user = true) -> z.readReg i = r.bus.readU32Be (slotAt g i)
  handler : supervisorReg z 30 = r.readReg 30
  stack : z.sys.user = true -> supervisorReg z 28 = k.stackTop
  userBank : z.sys.user = false -> z.sys.otherBank = r.sys.otherBank
  current : z.bus.readU32Be k.current = g
  depth : z.bus.readU32Be k.depth = 0
  memory : ∀ a, Usable a -> a ≠ k.current -> a ≠ k.depth -> z.bus.readU32Be a = r.bus.readU32Be a

/-- As if it had not been interrupted.  R30 of supervisor code is the one that the
kernel leaves. -/
structure Continues (x : Machine) (epc : Word) (z : Machine) : Prop where
  pc : z.pc = epc
  mode : z.sys.user = x.sys.user
  instrMode : z.instrMode = x.instrMode
  enable : z.sys.ie = x.sys.ie
  registers : ∀ i, 0 < i -> i < 32 -> (i = 30 -> x.sys.user = true) -> z.readReg i = x.readReg i

variable {r : Machine} {g : Word}

/-- What the IRET at the end of the listing does. -/
theorem iret_resumes {n : Machine} {s t : Supervisor} {bank : Vector Word 3} (shows_ : Shows n (k.place 126) t)
    (sys : t.sys = { { s.sys with epc := s.word (slotAt g ctxEpc) }.setStatus (s.word (slotAt g ctxStatus) &&& 0x1A) with
        otherBank := bank }) (supervisor : s.sys.user = false) :
    (n.executeNormal .iret).pc = s.word (slotAt g ctxEpc) ∧
      (n.executeNormal .iret).sys.user = decide (s.word (slotAt g ctxStatus) &&& statusPU ≠ 0) ∧
      (n.executeNormal .iret).instrMode = (if s.word (slotAt g ctxStatus) &&& statusPSM ≠ 0 then .short else .normal) ∧
      (n.executeNormal .iret).sys.ie = decide (s.word (slotAt g ctxStatus) &&& statusPIE ≠ 0) ∧
      (n.executeNormal .iret).bus = n.bus ∧
      (s.word (slotAt g ctxStatus) &&& statusPU ≠ 0 ->
        (∀ i, (n.executeNormal .iret).readReg i = if 28 ≤ i ∧ i < 31 then bankAt bank (i - 28) else t.reg i) ∧
        ∀ i < 3, bankAt (n.executeNormal .iret).sys.otherBank i = t.reg (28 + i)) ∧
      (s.word (slotAt g ctxStatus) &&& statusPU = 0 ->
        (∀ i, (n.executeNormal .iret).readReg i = t.reg i) ∧ (n.executeNormal .iret).sys.otherBank = bank) := by
  obtain ⟨_, pie, pu, psm⟩ := restored_bits (s.word (slotAt g ctxStatus))
  have own : n.sys = _ := shows_.sys.trans sys
  have epc : n.sys.epc = s.word (slotAt g ctxEpc) := by rw [own]; rfl
  have enable : n.sys.pie = decide (s.word (slotAt g ctxStatus) &&& statusPIE ≠ 0) := by
    rw [← pie, own]
    rfl
  have user : n.sys.pu = decide (s.word (slotAt g ctxStatus) &&& statusPU ≠ 0) := by
    rw [← pu, own]
    rfl
  have mode : n.sys.psm = if s.word (slotAt g ctxStatus) &&& statusPSM ≠ 0 then .short else .normal := by
    rw [← psm, own]
    rfl
  have banked : n.sys.otherBank = bank := by rw [own]
  have runs : n.executeNormal .iret = { n with
      sys := (n.sys.leaveTrap n.reg).1
      reg := (n.sys.leaveTrap n.reg).2.1
      pc := (n.sys.leaveTrap n.reg).2.2.1
      instrMode := (n.sys.leaveTrap n.reg).2.2.2 } := by
    rw [executeNormal_supervisor shows_.supervisor]
    rfl
  by_cases bit : s.word (slotAt g ctxStatus) &&& statusPU = 0
  · have staying : n.sys.pu = false := by
      rw [user, decide_eq_false_iff_not, not_not]
      exact bit
    rw [runs, Machine.leaveTrap_staying staying]
    refine ⟨epc, ?_, mode, enable, rfl, fun wrong => absurd bit wrong, fun _ => ⟨fun i => shows_.reg i, banked⟩⟩
    exact shows_.supervisor.trans (decide_eq_false (not_not.mpr bit)).symm
  · have returning : n.sys.pu = true := by
      rw [user, decide_eq_true_iff]
      exact bit
    rw [runs, Machine.leaveTrap_returning shows_.supervisor returning]
    refine ⟨epc, (decide_eq_true bit).symm, mode, enable, rfl, fun _ => ⟨fun i => ?_, fun i inside => ?_⟩,
      fun wrong => absurd wrong bit⟩
    · rw [readReg_setBank (m := n) (show _ = setBank n.reg n.sys.otherBank from rfl), banked, shows_.reg]
    · exact (bankAt_live n inside).trans (shows_.reg _)

/-- From the return of `kernel_trap` the frame it returned is resumed. -/
theorem resumes_frame (listed : Listed code k) (globals : Globals k) {c : Machine}
    (place : c.readReg 31 = k.place 72) (returned : Returned c r g) (frameAt : FrameAt k g) :
    ∃ z, Executes code r z ∧ Resumes k r g z := by
  obtain ⟨a, returns, sysA, keptA, currentA, depthA, frameA⟩ := gets_returned (s := view r) listed returned.result
    (readReg_zero r) globals
  have framed : ∀ i < frameWords, a.word (slotAt g i) = r.bus.readU32Be (slotAt g i) := fun i inside =>
    frameA _ (Ne.symm (frameAt.current i inside)) (Ne.symm (frameAt.depth i inside))
  have userA : a.sys.user = false := by
    rw [sysA]
    exact returned.supervisor
  obtain ⟨b, bank, restores, sysB, loadedB, handlerB, userB, supervisorB, wordB⟩ := gets_restored listed
    ((keptA 1 (by decide)).trans returned.result) ((keptA 0 (by decide)).trans (readReg_zero r)) userA
    (by rw [sysA]; exact returned.masked) frameAt.usable
  obtain ⟨n, reached, shows_⟩ := (returns.trans restores) r
    ⟨fun _ => rfl, fun _ _ => rfl, rfl, returned.pc.trans place, returned.supervisor, returned.masked, returned.normal⟩
  obtain ⟨pc, mode, instrMode, enable, bus, userZ, supervisorZ⟩ := iret_resumes shows_ sysB userA
  rw [framed _ (by decide)] at pc mode instrMode enable userB supervisorB userZ supervisorZ
  have words : ∀ x, Usable x -> (n.executeNormal .iret).bus.readU32Be x = a.word x := by
    intro x usable
    rw [bus, shows_.word x usable, wordB]
  have regs : ∀ i, 0 < i -> i < 28 ∨ i = 31 -> b.reg i = r.bus.readU32Be (slotAt g i) := by
    intro i positive inside
    rw [loadedB i positive inside, framed i (by unfold frameWords; omega)]
  refine ⟨n.executeNormal .iret, .tail reached ⟨shows_.masked, ?_⟩, ?_⟩
  · rw [shows_.pc, listed.iret]
  by_cases bit : r.bus.readU32Be (slotAt g ctxStatus) &&& statusPU = 0
  · obtain ⟨sameBank, stackB, fpB⟩ := supervisorB bit
    obtain ⟨regZ, bankZ⟩ := supervisorZ bit
    have modeZ : (n.executeNormal .iret).sys.user = false := mode.trans (decide_eq_false (not_not.mpr bit))
    refine ⟨pc, mode, instrMode, enable, fun i positive small thirty => ?_, ?_, fun wrong => ?_, fun _ => ?_, ?_, ?_,
      fun x usable apartCurrent apartDepth => ?_⟩
    · rw [regZ]
      have other : i ≠ 30 := fun same => Bool.false_ne_true (modeZ.symm.trans (thirty same))
      by_cases sp : i = 28
      · rw [sp, stackB, framed _ (by decide)]
      by_cases fp : i = 29
      · rw [fp, fpB, framed _ (by decide)]
      exact regs i positive (by omega)
    · unfold supervisorReg
      rw [if_neg fun both => Bool.false_ne_true (modeZ.symm.trans both.1), regZ, handlerB, keptA 30 (by decide)]
      rfl
    · exact absurd (modeZ.symm.trans wrong) Bool.false_ne_true
    · rw [bankZ, sameBank, sysA]
      rfl
    · rw [words _ globals.current, currentA]
    · rw [words _ globals.depth, depthA]
    · rw [words x usable, frameA x apartCurrent apartDepth]
      rfl
  · obtain ⟨banked, stackB⟩ := userB bit
    obtain ⟨regZ, bankZ⟩ := userZ bit
    have modeZ : (n.executeNormal .iret).sys.user = true := mode.trans (decide_eq_true bit)
    refine ⟨pc, mode, instrMode, enable, fun i positive small _ => ?_, ?_, fun _ => ?_, fun wrong => ?_, ?_, ?_,
      fun x usable apartCurrent apartDepth => ?_⟩
    · rw [regZ]
      by_cases inside : 28 ≤ i ∧ i < 31
      · rw [if_pos inside, banked (i - 28) (by omega), show 28 + (i - 28) = i by omega, framed i (by unfold frameWords; omega)]
      · rw [if_neg inside]
        exact regs i positive (by omega)
    · unfold supervisorReg
      rw [if_pos ⟨modeZ, by decide, by decide⟩, bankZ _ (by decide)]
      exact handlerB.trans (keptA 30 (by decide))
    · unfold supervisorReg
      rw [if_pos ⟨modeZ, by decide, by decide⟩, bankZ _ (by decide)]
      exact stackB
    · exact absurd (modeZ.symm.trans wrong) Bool.noConfusion
    · rw [words _ globals.current, currentA]
    · rw [words _ globals.depth, depthA]
    · rw [words x usable, frameA x apartCurrent apartDepth]
      rfl

/-- A frame that still holds what was interrupted goes on with it. -/
theorem continues_frame (entry : Machine.TrapEntry origin x epc entered) {z : Machine} (resumed : Resumes k r g z)
    (holds : Holds r.bus.readU32Be g (interrupted x entered)) : Continues x epc z := by
  have saved := entry.saved
  obtain ⟨_, pie, _, pu, psm⟩ := status_bits entered.sys
  have mode : z.sys.user = x.sys.user := by
    rw [resumed.mode, holds.status, ← saved.pu, Bool.eq_iff_iff, decide_eq_true_iff]
    exact pu
  refine ⟨?_, mode, ?_, ?_, fun i positive small thirty => ?_⟩
  · rw [resumed.pc, holds.epc]
    exact saved.epc
  · rw [resumed.instrMode, holds.status, ← saved.psm]
    cases short : entered.sys.psm with
    | short => exact if_pos (psm.mpr short)
    | normal =>
      refine if_neg fun set_ => ?_
      exact InstructionMode.noConfusion (short.symm.trans (psm.mp set_))
  · rw [resumed.enable, holds.status, ← saved.pie, Bool.eq_iff_iff, decide_eq_true_iff]
    exact pie
  · rw [resumed.registers i positive small fun same => mode.trans (thirty same), holds.reg i positive small]
    rfl

/-- The trap stub switches contexts: an idle kernel is called with the frame that
holds what was interrupted, and the frame it returns is resumed, as if it had not
been interrupted when nothing in it has changed; a busy kernel is taken to
`kernel_panic`, and nothing but the words below its stack has changed. -/
theorem stub_switches (installed : Installed code k x) (globals : Globals k)
    (entry : Machine.TrapEntry origin x epc entered) {top : Word} (stack : supervisorReg x 28 = top + 8)
    (scratch : ScratchAt k top) :
    (x.bus.readU32Be k.depth = 0 -> ∀ f, x.bus.readU32Be k.current = f -> FrameAt k f -> Outside f top ->
      Outside f (slotAt top 1) -> Outside f (k.stackTop - 8) ->
      ∃ c, Executes code entered c ∧ Called k x entered f c ∧
        (∀ a, Usable a -> Outside f a -> a ≠ top -> a ≠ slotAt top 1 -> a ≠ k.depth -> a ≠ k.stackTop - 8 ->
          c.bus.readU32Be a = x.bus.readU32Be a) ∧
        ∀ r g, Returned c r g -> FrameAt k g -> ∃ z, Executes code r z ∧ Resumes k r g z ∧
          (Holds r.bus.readU32Be g (interrupted x entered) -> Continues x epc z)) ∧
    (x.bus.readU32Be k.depth ≠ 0 -> Usable (top - 8) -> Usable (slotAt (top - 8) 1) ->
      ∃ c, Executes code entered c ∧ c.pc = k.panic ∧ c.sys.user = false ∧ c.readReg 28 = top - 8 ∧
        c.bus.readU32Be (top - 8) = entered.sys.cause ∧ c.bus.readU32Be (slotAt (top - 8) 1) = entered.sys.epc ∧
        ∀ a, Usable a -> a ≠ top -> a ≠ slotAt top 1 -> a ≠ top - 8 -> a ≠ slotAt (top - 8) 1 ->
          c.bus.readU32Be a = x.bus.readU32Be a) := by
  have listed := listed installed.laid
  have shown := entry_shown entry
  have words : ∀ a, (view entered).word a = x.bus.readU32Be a := fun a => congrArg (fun bus : Bus => bus.readU32Be a) shown.bus
  have stackV : (view entered).reg 28 = top + 8 := (shown.reg 28).trans stack
  obtain ⟨n, started, shows_⟩ := gets_entry installed entry
  constructor
  · intro idle f current frameAt apartLow apartHigh apartArgument
    obtain ⟨t, calls, sysT, holdsT, argumentT, stackT, stackedT, _, handlerT, returnsT, depthT, frameT⟩ :=
      gets_call listed stackV (readReg_zero entered) entry.user scratch globals ((words _).trans current) frameAt apartLow
        apartHigh apartArgument ((words _).trans idle)
    obtain ⟨c, reached, showsC⟩ := calls n shows_
    have word : ∀ i < frameWords, c.bus.readU32Be (slotAt f i) = t.word (slotAt f i) := fun i inside =>
      showsC.word _ (frameAt.usable i inside)
    have returns : c.readReg 31 = k.place 72 := (showsC.reg 31).trans returnsT
    refine ⟨c, started.trans reached, ⟨showsC.pc, showsC.supervisor, showsC.masked, showsC.normal, ⟨?_, ?_, ?_, ?_⟩, ?_, ?_, ?_,
      ?_, returns, ?_⟩, fun a usable outside low high depth argument => ?_, fun r g returned frameG => ?_⟩
    · intro i positive small
      rw [word i (Nat.lt_trans small (by decide)), holdsT.reg i positive small]
      exact trapped_view entry
    · rw [word _ (by decide), holdsT.cause]
      rfl
    · rw [word _ (by decide), holdsT.epc]
      rfl
    · rw [word _ (by decide), holdsT.status]
      rfl
    · exact (showsC.reg 28).trans stackT
    · exact (showsC.word _ globals.argument).trans stackedT
    · exact (showsC.reg 1).trans argumentT
    · exact ((showsC.reg 30).trans handlerT).trans (shown.reg 30)
    · exact (showsC.word _ globals.depth).trans depthT
    · exact ((showsC.word a usable).trans (frameT a outside low high depth argument)).trans (words a)
    · obtain ⟨z, resumed, resumes⟩ := resumes_frame listed globals returns returned frameG
      exact ⟨z, resumed, resumes, continues_frame entry resumes⟩
  · intro busy below above
    obtain ⟨t, panics, lowT, causeT, epcT, sysT, frameT⟩ := gets_panic listed stackV (readReg_zero entered) scratch globals
      below above (fun idle => busy ((words _).symm.trans idle))
    obtain ⟨c, reached, showsC⟩ := panics n shows_
    refine ⟨c, started.trans reached, showsC.pc, showsC.supervisor, (showsC.reg 28).trans lowT,
      (showsC.word _ below).trans causeT, (showsC.word _ above).trans epcT, fun a usable one two three four => ?_⟩
    exact ((showsC.word a usable).trans (frameT a one two three four)).trans (words a)

/-! ### A run -/

/-- The listing at 0, and the vectors behind it. -/
def kernelLabels : Labels := ⟨0, 0x1000, 0x1004, 0x2000, 0x3000, 0x4000⟩

def kernelCode (pc : Word) : Instruction := (kernelLabels.stub[pc.toNat / 4]?).getD (.jr 30)

/-- Supervisor code with its stack at 0x5008, and memory that is zero. -/
def idleMachine : Machine := (Machine.reset (Machine.programBus []) 0x6000).setGpr 28 0x5008

theorem kernelCode_installed : Installed kernelCode kernelLabels idleMachine := by
  have length : kernelLabels.stub.length = 137 := by decide +kernel
  refine ⟨fun i insn found => ?_, fun raised => ?_, by decide +kernel, by decide +kernel⟩
  · have inside := (List.getElem?_eq_some_iff.mp found).1
    have start : kernelLabels.entry + BitVec.ofNat 32 (4 * i) = BitVec.ofNat 32 (4 * i) := BitVec.zero_add _
    have place : (kernelLabels.entry + BitVec.ofNat 32 (4 * i)).toNat / 4 = i := by
      rw [start, BitVec.toNat_ofNat]
      omega
    unfold kernelCode
    rw [place, found]
    rfl
  · cases raised with
    | illegalInstruction => decide +kernel
    | privilegedInstruction => decide +kernel
    | denied exception =>
      change idleMachine.memory.readU32Be busErrorVector = kernelLabels.entry
      decide +kernel
    | syscall imm =>
      change idleMachine.memory.readU32Be syscallVector = kernelLabels.entry
      decide +kernel

theorem stub_switches_idle : ∃ c, Executes kernelCode (idleMachine.enterException (.syscall 0) 0x6004) c ∧
    c.pc = 0x3000 ∧ c.readReg 28 = 0x1FF8 ∧ c.readReg 31 = kernelLabels.place 72 := by
  have globals : Globals kernelLabels := ⟨by decide, by decide, by decide, by decide, by decide, by decide⟩
  have scratch : ScratchAt kernelLabels 0x5000 := ⟨by decide, by decide, by decide, by decide, by decide, by decide⟩
  have frameAt : FrameAt kernelLabels 0 := ⟨by decide +kernel, by decide +kernel, by decide +kernel⟩
  have entry : Machine.TrapEntry 0x6000 idleMachine (0x6000 + 4) (idleMachine.enterException (.syscall 0) (0x6000 + 4)) :=
    .syscall 0
  have stack : supervisorReg idleMachine 28 = 0x5000 + 8 := by decide +kernel
  have switches := stub_switches kernelCode_installed globals entry stack scratch
  obtain ⟨c, reached, called, _⟩ := switches.1 (by decide +kernel) 0 (by decide +kernel) frameAt (by decide +kernel)
    (by decide +kernel) (by decide +kernel)
  exact ⟨c, reached, called.pc, called.stack, called.returns⟩

end Switch

end Src32.Backend
