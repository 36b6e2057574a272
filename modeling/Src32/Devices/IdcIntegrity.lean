import Src32.Devices.IdcTransfer

namespace Src32.Devices

/-!
# Transfers in every run of the disk controller

The invariant of the transfers holds in every state the controller reaches while
no command is moved by the processor and by a DMA channel at once.  A command
that is active always has something that moves it on, only DATA and ABORT reach
it, and cycles may be counted in one go as long as nothing is due.
-/

variable {drives : Fin 4 -> Option Drive} {s : Idc} {a : ActiveCommand}

/-! ## Steps -/

theorem Sound.new : Sound drives (Idc.new drives) := by
  refine ⟨⟨rfl, rfl, fun e member => ?_, fun a active => ?_⟩, fun a active => ?_⟩
  · cases member
  · cases active
  · cases active

theorem Sound.tick (sound : Sound drives s) (fails : Bool) (io : WriteIo) : Sound drives (s.tick fails io).2 := by
  have later : Sound drives { s with cycle := satAdd s.cycle 1 } := sound.aside rfl rfl rfl rfl
  unfold Idc.tick
  dsimp only
  cases here : s.active with
  | none =>
    rw [here] at later
    exact later
  | some a =>
    dsimp only
    cases drive : s.drives a.start.slot with
    | none => exact sound.aside rfl rfl here.symm rfl
    | some d =>
      dsimp only
      cases direction : a.start.direction with
      | deviceToMemory =>
        dsimp only
        split_ifs with due
        · exact (sound.aside rfl rfl here.symm rfl : Sound drives
            { s with cycle := satAdd s.cycle 1, active := some a }).load rfl direction due.1 due.2 drive fails
        · exact sound.aside rfl rfl here.symm rfl
      | memoryToDevice =>
        dsimp only
        split_ifs with due
        · exact (sound.aside rfl rfl here.symm rfl : Sound drives
            { s with cycle := satAdd s.cycle 1, active := some a }).commit rfl direction due.1 due.2 drive io
        · exact sound.aside rfl rfl here.symm rfl

namespace Idc

/-- The processor reads no byte of a command that a DMA channel serves. -/
def Unmixed (s : Idc) (action : Action) : Prop :=
  match action with
  | .readData => ∀ a ∈ s.active, a.dmaChannel = none
  | _ => True

end Idc

theorem Sound.step (sound : Sound drives s) {action : Idc.Action} (unmixed : s.Unmixed action) :
    Sound drives (s.step action) := by
  cases action with
  | write register lane value => exact sound.writeByte register lane value
  | readData => exact sound.readDataByte unmixed
  | attach channel => exact sound.attachDma channel
  | readBeat channel => exact sound.dmaReadBeat channel
  | readCompleted channel => exact sound.dmaReadCompleted channel
  | writeBeat channel value => exact sound.dmaWriteBeat channel value
  | dmaFailed channel | dmaStartFailed => exact sound.error_if _ 5
  | abortBoundary channel => exact sound.abortDmaAtBoundary channel
  | tick fails io => exact sound.tick fails io
  | advance cycles =>
    unfold Idc.step
    dsimp only
    split_ifs
    · exact sound.aside rfl rfl rfl rfl
    · exact sound

theorem transfers_of_reachable (reached : ((Idc.machine drives).within Idc.Unmixed).Reachable s) : Sound drives s := by
  refine reached.invariant ?_ ?_
  · rintro start rfl
    exact Sound.new
  · rintro first action second sound ⟨unmixed, rfl⟩
    exact sound.step unmixed

/-! ## What moves a command on -/

theorem deadline_le (start : Nat) (d : Drive) (completed : Nat) : deadline start d completed ≤ cycleMax :=
  Nat.min_le_right _ _

/-- A command can move a byte, waits for a cycle that the counter reaches, or has
a byte between the two beats of its DMA channel. -/
def ActiveCommand.Moving (a : ActiveCommand) : Prop :=
  a.ready = true ∨ a.waits = true ∧ a.nextDeadlineCycle ≤ cycleMax ∨ a.taken ≠ none ∧ a.dmaChannel ≠ none

theorem Going.moving (going : Going a) {d : Drive} (drive : a.before a.start.slot = some d) : a.Moving := by
  have finite : a.nextDeadlineCycle ≤ cycleMax := by
    rw [going.deadline d drive]
    exact deadline_le ..
  unfold ActiveCommand.Moving ActiveCommand.ready ActiveCommand.waits
  cases direction : a.start.direction with
  | deviceToMemory =>
    dsimp only
    cases ready : a.readReady with
    | false => exact Or.inr (Or.inl ⟨rfl, finite⟩)
    | true =>
      obtain ⟨_, _, full, attached⟩ := going.staged direction
      by_cases below : a.cursor < sectorSize
      · exact Or.inl (decide_eq_true below)
      · have outstanding := full (Nat.le_antisymm going.cursor (Nat.le_of_not_lt below))
        exact Or.inr (Or.inr ⟨outstanding, (attached outstanding).1⟩)
  | memoryToDevice =>
    dsimp only
    by_cases below : a.cursor < sectorSize
    · exact Or.inl (decide_eq_true below)
    · exact Or.inr (Or.inl ⟨decide_eq_true (Nat.le_antisymm going.cursor (Nat.le_of_not_lt below)), finite⟩)

/-! ## Register writes -/

/-- The byte completes an ABORT. -/
def Idc.Aborts (s : Idc) (register : Word) (lane : Fin 4) (value : Byte) : Prop :=
  register = 0x18 ∧ lane.val = 3 ∧ Idc.setLane s.commandWord 0 (value.setWidth 32) = 4

/-- A byte of a register other than DATA, unless it completes an ABORT, does not
reach a running command. -/
theorem writeByte_busy (here : s.active = some a) {register : Word} {lane : Fin 4} {value : Byte}
    (data : register ≠ 0x24) (abort : ¬ s.Aborts register lane value) :
    (s.writeByte register lane value).active = some a ∧ (s.writeByte register lane value).drives = s.drives ∧
      (s.writeByte register lane value).ended = s.ended := by
  let busy (t : Idc) : Prop := t.active = some a ∧ t.drives = s.drives ∧ t.ended = s.ended
  have same : ∀ {t : Idc}, t.active = s.active -> t.drives = s.drives -> t.ended = s.ended -> busy t :=
    fun active drives ended => ⟨active.trans here, drives, ended⟩
  change busy (s.writeByte register lane value)
  unfold Idc.writeByte
  refine iteInduction (fun _ => same rfl rfl rfl) fun _ => ?_
  refine iteInduction (fun _ => same rfl rfl rfl) fun _ => ?_
  refine iteInduction (fun _ => same rfl rfl rfl) fun _ => ?_
  refine iteInduction (fun _ => same rfl rfl rfl) fun _ => ?_
  refine iteInduction (fun _ => same rfl rfl rfl) fun _ => ?_
  refine iteInduction (fun command => ?_) fun _ => ?_
  · unfold Idc.writeCommand
    dsimp only
    split_ifs with last
    · rw [Idc.executeCommand, if_neg, if_pos]
      · exact same rfl rfl rfl
      · exact Or.inl (congrArg Option.isSome here)
      · rw [last]
        intro four
        exact abort ⟨command, congrArg Fin.val last, (congrArg (Idc.setLane s.commandWord 0) (BitVec.shiftLeft_zero _).symm).trans four⟩
    · exact same rfl rfl rfl
  refine iteInduction (fun _ => same rfl rfl rfl) fun _ => ?_
  refine iteInduction (fun _ => same rfl rfl rfl) fun _ => ?_
  exact iteInduction (fun written => absurd written.1 data) fun _ => same rfl rfl rfl

/-! ## Cycles in one go -/

/-- Ticks, with what the medium does in each. -/
def Idc.ticks (s : Idc) (inputs : List (Bool × WriteIo)) : Idc :=
  inputs.foldl (fun s input => (s.tick input.1 input.2).2) s

/-- A tick within `cycles_without_event` counts a cycle and no more. -/
theorem tick_idle (quiet : 0 < s.cyclesWithoutEvent) (fails : Bool) (io : WriteIo) :
    s.tick fails io = (none, s.advanceIdleCycles 1) := by
  unfold Idc.cyclesWithoutEvent at quiet
  unfold Idc.tick Idc.advanceIdleCycles
  have small := Nat.min_le_left (s.cycle + 1) cycleMax
  cases here : s.active with
  | none => rfl
  | some a =>
    rw [here] at quiet
    dsimp only at quiet ⊢
    have idle : a.waits = true -> ¬ a.nextDeadlineCycle ≤ satAdd s.cycle 1 := by
      intro waits late
      have soon : a.nextDeadlineCycle ≤ s.cycle + 1 := Nat.le_trans late small
      rw [if_pos waits] at quiet
      split_ifs at quiet <;> omega
    unfold ActiveCommand.waits at idle
    cases s.drives a.start.slot with
    | none => rfl
    | some d =>
      dsimp only
      cases direction : a.start.direction with
      | deviceToMemory =>
        rw [direction] at idle
        dsimp only at idle ⊢
        rw [if_neg]
        rintro ⟨unready, late⟩
        rw [unready] at idle
        exact idle rfl late
      | memoryToDevice =>
        rw [direction] at idle
        dsimp only at idle ⊢
        rw [if_neg]
        rintro ⟨full, late⟩
        exact idle (decide_eq_true full) late

theorem satAdd_add (a b c : Nat) : satAdd (satAdd a b) c = satAdd a (b + c) := by
  unfold satAdd
  omega

/-- Counting some of the idle cycles leaves the rest. -/
theorem cyclesWithoutEvent_advance (cycles : Nat) (quiet : cycles + 1 ≤ s.cyclesWithoutEvent) :
    cycles ≤ (s.advanceIdleCycles 1).cyclesWithoutEvent := by
  have small := Nat.min_le_left (s.cycle + 1) cycleMax
  unfold Idc.cyclesWithoutEvent at quiet ⊢
  unfold Idc.advanceIdleCycles satAdd
  cases here : s.active with
  | none =>
    rw [here] at quiet
    exact Nat.le_of_succ_le quiet
  | some a =>
    rw [here] at quiet
    dsimp only at quiet ⊢
    split_ifs at quiet ⊢ <;> omega

/-- The counter is a 128-bit number. -/
theorem ticks_eq_advance (counter : s.cycle ≤ cycleMax) (inputs : List (Bool × WriteIo))
    (quiet : inputs.length ≤ s.cyclesWithoutEvent) : s.ticks inputs = s.advanceIdleCycles inputs.length := by
  induction inputs generalizing s with
  | nil =>
    unfold Idc.ticks Idc.advanceIdleCycles satAdd
    rw [List.foldl_nil, List.length_nil, Nat.add_zero, Nat.min_eq_left counter]
  | cons input rest ih =>
    rw [List.length_cons] at quiet
    have step := tick_idle (Nat.lt_of_lt_of_le (Nat.succ_pos _) quiet) input.1 input.2
    have rest_ := ih (Nat.min_le_right _ _) (cyclesWithoutEvent_advance rest.length quiet)
    unfold Idc.ticks at rest_ ⊢
    rw [List.foldl_cons, step, rest_]
    unfold Idc.advanceIdleCycles
    rw [satAdd_add, List.length_cons, Nat.add_comm]

/-! ## The counter -/

namespace Idc

@[simp] theorem settle_cycle (outcome : Outcome) : (s.settle outcome).cycle = s.cycle := rfl

@[simp] theorem finishSuccess_cycle : s.finishSuccess.cycle = s.cycle := rfl

@[simp] theorem finishError_cycle (code : Word) : (s.finishError code).cycle = s.cycle := rfl

@[simp] theorem nextDeadline_cycle : (s.nextDeadline a).cycle = s.cycle := by
  unfold nextDeadline
  cases s.drives a.start.slot <;> rfl

@[simp] theorem sectorRead_cycle : (s.sectorRead a).cycle = s.cycle := by
  unfold sectorRead
  dsimp only
  split_ifs <;> simp

@[simp] theorem readDataByte_cycle : s.readDataByte.2.cycle = s.cycle := by
  unfold readDataByte
  cases s.active with
  | none => rfl
  | some a =>
    dsimp only
    split_ifs <;> simp

@[simp] theorem writeDataByte_cycle (value : Byte) : (s.writeDataByte value).cycle = s.cycle := by
  unfold writeDataByte
  cases s.active with
  | none => rfl
  | some a =>
    dsimp only
    split_ifs <;> rfl

@[simp] theorem byteCompleted_cycle : (s.byteCompleted a).cycle = s.cycle := by
  unfold byteCompleted
  dsimp only
  split_ifs <;> simp

@[simp] theorem startTransfer_cycle (direction : DmaDirection) : (s.startTransfer direction).cycle = s.cycle := by
  unfold startTransfer
  split_ifs with small
  · rfl
  · dsimp only
    cases s.drives ⟨s.driveSelect.toNat, small⟩ with
    | none => rfl
    | some d =>
      dsimp only
      split_ifs <;> simp
  · rfl

@[simp] theorem identify_cycle : s.identify.cycle = s.cycle := by
  unfold identify
  dsimp only
  split_ifs with small
  · cases s.drives ⟨s.driveSelect.toNat, small⟩ <;> rfl
  · rfl

@[simp] theorem abort_cycle : s.abort.cycle = s.cycle := by
  unfold abort
  cases s.active with
  | none => rfl
  | some a =>
    dsimp only
    split_ifs <;> rfl

@[simp] theorem executeCommand_cycle (command : Word) : (s.executeCommand command).cycle = s.cycle := by
  unfold executeCommand
  simp [apply_ite Idc.cycle]

@[simp] theorem writeByte_cycle (register : Word) (lane : Fin 4) (value : Byte) :
    (s.writeByte register lane value).cycle = s.cycle := by
  unfold writeByte writeCommand
  simp [apply_ite Idc.cycle]

/-- Only ticks count cycles. -/
theorem step_cycle_le (counter : s.cycle ≤ cycleMax) (action : Action) : (s.step action).cycle ≤ cycleMax := by
  have dma : ∀ {t : Idc}, t.cycle = s.cycle -> t.cycle ≤ cycleMax := fun same => Nat.le_trans (Nat.le_of_eq same) counter
  have counted : ∀ {t : Idc}, t.cycle = satAdd s.cycle 1 -> t.cycle ≤ cycleMax := fun same =>
    Nat.le_trans (Nat.le_of_eq same) (Nat.min_le_right _ _)
  cases action with
  | write register lane value => exact dma (writeByte_cycle ..)
  | readData => exact dma readDataByte_cycle
  | attach channel =>
    apply dma
    unfold step attachDma
    cases s.active with
    | none => rfl
    | some a =>
      dsimp only
      split_ifs <;> rfl
  | readBeat channel =>
    apply dma
    unfold step dmaReadBeat
    cases s.active with
    | none => rfl
    | some a =>
      dsimp only
      split_ifs <;> rfl
  | readCompleted channel =>
    apply dma
    unfold step dmaReadCompleted
    cases s.active with
    | none => rfl
    | some a =>
      dsimp only
      split_ifs <;> simp
  | writeBeat channel value =>
    apply dma
    unfold step dmaWriteBeat
    cases s.active with
    | none => rfl
    | some a =>
      dsimp only
      split_ifs <;> simp
  | dmaFailed channel =>
    apply dma
    unfold step dmaFailed
    dsimp only
    split_ifs <;> rfl
  | dmaStartFailed =>
    apply dma
    unfold step dmaStartFailed
    dsimp only
    split_ifs <;> rfl
  | abortBoundary channel =>
    apply dma
    unfold step abortDmaAtBoundary
    cases s.active with
    | none => rfl
    | some a =>
      dsimp only
      split_ifs <;> rfl
  | tick fails io =>
    apply counted
    unfold step tick
    dsimp only
    cases s.active with
    | none => rfl
    | some a =>
      dsimp only
      cases s.drives a.start.slot with
      | none => rfl
      | some d =>
        dsimp only
        cases a.start.direction with
        | deviceToMemory =>
          dsimp only
          split_ifs
          · unfold load
            cases d.readSector (a.start.lba + a.completedSectors) fails <;> rfl
          · rfl
        | memoryToDevice =>
          dsimp only
          split_ifs
          · unfold commit
            dsimp only
            split_ifs <;> simp
          · rfl
  | advance cycles =>
    unfold step
    dsimp only
    split_ifs
    · exact Nat.min_le_right _ _
    · exact counter

end Idc

theorem cycle_le_of_reachable (reached : ((Idc.machine drives).within Idc.Unmixed).Reachable s) : s.cycle ≤ cycleMax := by
  refine reached.invariant (motive := fun s => s.cycle ≤ cycleMax) ?_ ?_
  · rintro start rfl
    exact Nat.zero_le _
  · rintro first action second counter ⟨_, rfl⟩
    exact Idc.step_cycle_le counter action

/-! ## Integrity -/

/-- What the controller guarantees in a state. -/
structure Integrity (drives : Fin 4 -> Option Drive) (s : Idc) : Prop where
  transfers : Accounted drives s
  moving : ∀ a ∈ s.active, a.Moving
  busy : ∀ a ∈ s.active, ∀ register lane value, register ≠ 0x24 -> ¬ s.Aborts register lane value ->
    (s.writeByte register lane value).active = some a ∧ (s.writeByte register lane value).drives = s.drives ∧
      (s.writeByte register lane value).ended = s.ended
  idle : ∀ inputs : List (Bool × WriteIo), inputs.length ≤ s.cyclesWithoutEvent ->
    s.ticks inputs = s.advanceIdleCycles inputs.length

/-- A run of actions that may be taken in every state. -/
theorem reachable_of_actions (actions : List Idc.Action)
    (reached : ((Idc.machine drives).within Idc.Unmixed).Reachable s)
    (apart : ∀ action ∈ actions, ∀ s : Idc, s.Unmixed action) :
    ((Idc.machine drives).within Idc.Unmixed).Reachable (actions.foldl Idc.step s) := by
  induction actions generalizing s with
  | nil => exact reached
  | cons action rest ih =>
    apply ih
    · have moves : ((Idc.machine drives).within Idc.Unmixed).step s action (s.step action) :=
        ⟨apart action List.mem_cons_self s, rfl⟩
      exact reached.next moves
    · exact fun later member => apart later (List.mem_cons_of_mem action member)

/-- A disk of one sector, whose image may end in a partial one. -/
def smallDisk (trailing : Fin 2) : Drive where
  kind := 1
  medium := .file
  image := fun _ => 0
  capacitySectors := 1
  trailingBytes := trailing
  readOnly := false
  transferRate := 512000
  accessLatencyMs := 0
  tail_lt := Nat.lt_trans trailing.isLt (by unfold sectorSize; decide)

def smallDisks (trailing : Fin 2) : Fin 4 -> Option Drive := fun slot =>
  if slot.val = 0 then some (smallDisk trailing) else none

theorem lane_zero : 0 < 4 := by decide

/-- The processor writes a sector of ones; the commit ends with `io`. -/
def writeOnes (io : WriteIo) : List Idc.Action :=
  [.write 0x20 (Fin.last 3) 1, .write 0x18 (Fin.last 3) 2] ++ List.replicate 512 (.write 0x24 ⟨0, lane_zero⟩ 0xFF) ++ [.advance 47999, .tick false io]

theorem writeOnes_reachable (trailing : Fin 2) (io : WriteIo) :
    ((Idc.machine (smallDisks trailing)).within Idc.Unmixed).Reachable
      ((writeOnes io).foldl Idc.step (Idc.new (smallDisks trailing))) := by
  apply reachable_of_actions _ (System.Reachable.start rfl)
  intro action member s
  unfold writeOnes at member
  simp only [List.mem_append, List.mem_cons, List.mem_replicate, List.not_mem_nil, or_false] at member
  rcases member with ((rfl | rfl) | ⟨_, rfl⟩) | rfl | rfl <;> exact trivial

/-- The image holds the first `count` sectors of what was received, and what it held
before in the rest of the range. -/
def Ended.Committed (e : Ended) (count : Nat) : Prop :=
  ∀ d d', e.before e.start.slot = some d -> e.after e.start.slot = some d' -> ∀ i < e.start.count * sectorSize,
    d'.image (e.start.lba * sectorSize + i) =
      if i < count * sectorSize then e.moved.getD i 0 else d.image (e.start.lba * sectorSize + i)

/-- A byte of the range before and after the command, and as it was received. -/
def Ended.byteOf (e : Ended) (place : Nat) : Start × Outcome × Option Byte × Option Byte × Byte :=
  (e.start, e.outcome, (e.before e.start.slot).map fun d => d.image place,
    (e.after e.start.slot).map fun d => d.image place, e.moved.getD place 0)

/-- What a commit of the first sector makes of a byte. -/
theorem Ended.Committed.byteOf {e : Ended} {count place : Nat} (committed : e.Committed count) (small : place < sectorSize)
    {direction : DmaDirection} {slot : Fin 4} {cycle : Nat} {outcome : Outcome} {old new received : Byte}
    (seen : e.byteOf place = (⟨direction, slot, 0, 1, cycle⟩, outcome, some old, some new, received)) :
    new = if place < count * sectorSize then received else old := by
  simp only [Ended.byteOf, Prod.mk.injEq, Option.map_eq_some_iff] at seen
  obtain ⟨start, _, ⟨d, before, rfl⟩, ⟨d', after, rfl⟩, rfl⟩ := seen
  have lba : e.start.lba * sectorSize + place = place := by
    rw [start, Nat.zero_mul, Nat.zero_add]
  have inside : place < e.start.count * sectorSize := by
    rw [start, Nat.one_mul]
    exact small
  have same := committed d d' before after place inside
  rw [lba] at same
  exact same

end Src32.Devices
