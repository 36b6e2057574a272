import Src32.Devices.RtcCycles
import Src32.Devices.TimerCycles

namespace Src32.Devices

open BitVec (ofNat)

/-!
# The PeC timing unit

`PeCTimingState` of `pec/timing.rs`: four timers and the clock, its registers byte by
byte, and the two functions by which the run loop skips cycles.
-/

/-- `PeCTimingState`, with the clock's fields in a record of their own. -/
@[ext] structure PecTiming where
  timers : Fin 4 -> HardwareTimer
  timerEnable : Byte
  rtc : Rtc

namespace HardwareTimer

/-- A byte of a timer's register is written. -/
def writeRegister (t : HardwareTimer) (register byte : Nat) (value : Byte) : HardwareTimer :=
  if register = 0x00 then t.writeControl (mergeU32Byte t.control byte value)
  else if register = 0x08 then { t with counter := updateU64Byte t.counter (byte + 4) value }
  else if register = 0x0C then { t with counter := updateU64Byte t.counter byte value }
  else if register = 0x10 then { t with compare := updateU64Byte t.compare (byte + 4) value, compareArmed := true }
  else if register = 0x14 then { t with compare := updateU64Byte t.compare byte value, compareArmed := true }
  else if register = 0x18 then { t with reload := updateU64Byte t.reload (byte + 4) value }
  else if register = 0x1C then { t with reload := updateU64Byte t.reload byte value }
  else if register = 0x20 then
    { t with
      prescaler := (mergeU32Byte (ofNat 32 t.prescaler) byte value).toNat
      prescalerPhase := 0 }
  else t

/-- The value of a timer's register. -/
def readRegister (t : HardwareTimer) (register : Nat) : Word :=
  if register = 0x00 then t.control
  else if register = 0x04 then ofNat 32 (t.enabled.toNat + 2 * t.pending.toNat)
  else if register = 0x08 then ofNat 32 t.counter
  else if register = 0x0C then ofNat 32 (t.counter / 2 ^ 32)
  else if register = 0x10 then ofNat 32 t.compare
  else if register = 0x14 then ofNat 32 (t.compare / 2 ^ 32)
  else if register = 0x18 then ofNat 32 t.reload
  else if register = 0x1C then ofNat 32 (t.reload / 2 ^ 32)
  else if register = 0x20 then ofNat 32 t.prescaler
  else 0

end HardwareTimer

namespace PecTiming

/-- `default`. -/
def initial : PecTiming where
  timers := fun _ => .initial
  timerEnable := 0
  rtc := .initial

variable (s : PecTiming)

/-- The timer of a channel counts. -/
def Running (channel : Fin 4) : Prop := s.timerEnable.getLsbD channel.val = true ∧ (s.timers channel).enabled = true

instance (channel : Fin 4) : Decidable (s.Running channel) :=
  inferInstanceAs (Decidable (_ ∧ _))

/-- `advance_system_cycles`, with the host's clock as it reads then. -/
def advanceSystemCycles (host : Int) (cycles : Nat) : PecTiming where
  timers := fun channel => if s.Running channel then (s.timers channel).passCycles cycles else s.timers channel
  timerEnable := s.timerEnable
  rtc := s.rtc.advance host cycles

/-- `irq_asserted`. -/
def irqAsserted : Bool :=
  ((List.finRange 4).any fun channel => (s.timers channel).pending && (s.timers channel).irqEnabled) ||
    s.rtc.alarmPending && s.rtc.alarmIrqEnabled

/-- The first match of a timer that may interrupt. -/
def timerCycles : Option Nat :=
  ((List.finRange 4).filterMap fun channel : Fin 4 =>
    if s.timerEnable.getLsbD channel.val then (s.timers channel).cyclesUntilMatch else none).min?

/-- The alarm, if it may interrupt. -/
def rtcCycles : Option Nat :=
  if s.rtc.enabled = true ∧ s.rtc.realtime = false ∧ s.rtc.alarmPending = false ∧ s.rtc.alarmArmed = true ∧
      s.rtc.alarmIrqEnabled = true then
    let secondsToAlarm := s.rtc.alarmSeconds - s.rtc.seconds
    let untilAlarm := if secondsToAlarm = 0 then 1 else secondsToAlarm * masterClock - s.rtc.subsecondCycles
    some (min untilAlarm u64Max)
  else none

/-- `cycles_until_irq`. -/
def cyclesUntilIrq : Option Nat :=
  match s.timerCycles, s.rtcCycles with
  | some timer, some rtc => some (min timer rtc)
  | some timer, none => some timer
  | none, some rtc => some rtc
  | none, none => none

/-- The timer of a channel is replaced. -/
def withTimer (channel : Nat) (change : HardwareTimer -> HardwareTimer) : PecTiming :=
  { s with timers := fun other => if other.val = channel then change (s.timers other) else s.timers other }

/-- `write_byte`. -/
def writeByte (offset : Nat) (value : Byte) (host : Nat -> Int) : PecTiming :=
  let byte := offset % 4
  let register := offset - byte
  if register = 0x184 then
    { s with timerEnable := (mergeU32Byte (s.timerEnable.zeroExtend 32) byte value).setWidth 8 &&& 15 }
  else if register = 0x18C then
    { s with
      timers := fun channel : Fin 4 =>
        if (value.zeroExtend 32 <<< ((3 - byte) * 8)).getLsbD channel.val then { s.timers channel with pending := false }
        else s.timers channel }
  else if register = 0x200 then { s with rtc := s.rtc.writeControl (mergeU32Byte s.rtc.control byte value) host }
  else if register = 0x21C then
    { s with rtc := { s.rtc with irqControl := mergeU32Byte s.rtc.irqControl byte value &&& 1 } }
  else if register = 0x220 then
    if byte = 3 ∧ value.getLsbD 0 = true then { s with rtc := { s.rtc with alarmPending := false } } else s
  else if register = 0x208 then { s with rtc := s.rtc.writeSeconds (byte + 4) value host }
  else if register = 0x20C then { s with rtc := s.rtc.writeSeconds byte value host }
  else if register = 0x214 then { s with rtc := s.rtc.writeAlarm (byte + 4) value host }
  else if register = 0x218 then { s with rtc := s.rtc.writeAlarm byte value host }
  else if 0x400 ≤ register ∧ register < 0x500 then
    s.withTimer ((register - 0x400) / 0x40) fun t => t.writeRegister ((register - 0x400) % 0x40) byte value
  else s

/-- `timer_pending`. -/
def timerPending : Nat :=
  (List.finRange 4).foldl (fun mask channel => mask ||| (s.timers channel).pending.toNat <<< channel.val) 0

/-- `read_register`: the value, and the state with the alarm checked. -/
def readRegister (offset : Nat) (host : Nat -> Int) : Word × PecTiming :=
  let s := { s with rtc := s.rtc.checkAlarm (host 0) }
  let value : Word :=
    if offset = 0x180 then 0x51540001
    else if offset = 0x184 then s.timerEnable.zeroExtend 32
    else if offset = 0x188 then ofNat 32 s.timerPending
    else if offset = 0x200 then s.rtc.control
    else if offset = 0x204 then ofNat 32 (s.rtc.alarmPending.toNat + 2 * s.rtc.alarmArmed.toNat)
    else if offset = 0x208 then ofNat 32 (s.rtc.currentSeconds (host 1))
    else if offset = 0x20C then ofNat 32 (s.rtc.currentSeconds (host 1) / 2 ^ 32)
    else if offset = 0x210 then ofNat 32 (s.rtc.currentNanoseconds (host 1))
    else if offset = 0x214 then ofNat 32 s.rtc.alarmSeconds
    else if offset = 0x218 then ofNat 32 (s.rtc.alarmSeconds / 2 ^ 32)
    else if offset = 0x21C then s.rtc.irqControl
    else if bound : 0x400 ≤ offset ∧ offset < 0x500 then
      (s.timers ⟨(offset - 0x400) / 0x40, by omega⟩).readRegister ((offset - 0x400) % 0x40)
    else 0
  (value, s)

/-! ## The states that register accesses reach -/

/-- What happens to the unit: bytes of registers are written, registers are read, and
cycles pass. -/
inductive Event where
  | write (offset : Nat) (value : Byte) (host : Nat -> Int)
  | read (offset : Nat) (host : Nat -> Int)
  | advance (cycles : BitVec 64) (host : Int)

/-- The unit behind an event. -/
def after : Event -> PecTiming
  | .write offset value host => s.writeByte offset value host
  | .read offset host => (s.readRegister offset host).2
  | .advance cycles host => s.advanceSystemCycles host cycles.toNat

/-- The unit behind a list of events. -/
def run (events : List Event) : PecTiming := events.foldl after s

/-- The timers and the clock are lawful. -/
structure Lawful : Prop where
  timers : ∀ channel, (s.timers channel).Lawful
  rtc : s.rtc.Lawful

end PecTiming

namespace HardwareTimer

variable {t : HardwareTimer}

theorem initial_lawful : initial.Lawful :=
  ⟨Nat.zero_le _, Nat.zero_le _, Nat.zero_le _, Nat.le_refl _, by decide⟩

theorem writeRegister_lawful (lawful : t.Lawful) (register byte : Nat) (value : Byte) :
    (t.writeRegister register byte value).Lawful := by
  obtain ⟨counter, compare, reload, phase, rate⟩ := lawful
  unfold writeRegister
  refine iteInduction (fun _ => ?_) fun _ => ?_
  · unfold writeControl
    dsimp only
    split_ifs
    · exact ⟨Nat.zero_le _, compare, reload, Nat.zero_le _, rate⟩
    · exact ⟨counter, compare, reload, phase, rate⟩
  refine iteInduction (fun _ => ⟨updateU64Byte_le _ _ _, compare, reload, phase, rate⟩) fun _ => ?_
  refine iteInduction (fun _ => ⟨updateU64Byte_le _ _ _, compare, reload, phase, rate⟩) fun _ => ?_
  refine iteInduction (fun _ => ⟨counter, updateU64Byte_le _ _ _, reload, phase, rate⟩) fun _ => ?_
  refine iteInduction (fun _ => ⟨counter, updateU64Byte_le _ _ _, reload, phase, rate⟩) fun _ => ?_
  refine iteInduction (fun _ => ⟨counter, compare, updateU64Byte_le _ _ _, phase, rate⟩) fun _ => ?_
  refine iteInduction (fun _ => ⟨counter, compare, updateU64Byte_le _ _ _, phase, rate⟩) fun _ => ?_
  refine iteInduction (fun _ => ⟨counter, compare, reload, Nat.zero_le _, BitVec.isLt _⟩) fun _ => ?_
  exact ⟨counter, compare, reload, phase, rate⟩

/-- A batch leaves a lawful timer, also where it stops it. -/
theorem passCycles_lawful (lawful : t.Lawful) {cycles : Nat} (bound : cycles ≤ u64Max) : (t.passCycles cycles).Lawful := by
  have fields : (t.advance (t.ticksIn cycles)).counter ≤ u64Max ∧ (t.advance (t.ticksIn cycles)).compare ≤ u64Max ∧
      (t.advance (t.ticksIn cycles)).reload = t.reload ∧ (t.advance (t.ticksIn cycles)).prescaler = t.prescaler := by
    by_cases goes : t.Stops (t.ticksIn cycles)
    · rcases goes with ⟨oneShot, past⟩ | ⟨periodic, past, ends⟩
      · rw [advance_oneShot_match oneShot past]
        exact ⟨max_le lawful.counter_le lawful.compare_le, lawful.compare_le, rfl, rfl⟩
      · rw [advance_periodic_match lawful periodic past, if_pos ends]
        exact ⟨min_le_right _ _, lawful.compare_le, rfl, rfl⟩
    · obtain ⟨-, rate, -, reload, counter, compare⟩ := advance_control lawful goes
      exact ⟨counter, compare, reload, rate⟩
  obtain ⟨counter, compare, reload, rate⟩ := fields
  rw [passCycles_eq lawful bound]
  refine ⟨counter, compare, ?_, ?_, ?_⟩
  · show (t.advance (t.ticksIn cycles)).reload ≤ u64Max
    rw [reload]
    exact lawful.reload_le
  · show t.phaseIn cycles ≤ (t.advance (t.ticksIn cycles)).prescaler
    rw [rate]
    exact phaseIn_le cycles
  · show (t.advance (t.ticksIn cycles)).prescaler < 2 ^ 32
    rw [rate]
    exact lawful.prescaler_lt

end HardwareTimer

namespace PecTiming

variable {s : PecTiming}

theorem initial_lawful : initial.Lawful where
  timers := fun _ => HardwareTimer.initial_lawful
  rtc := ⟨Nat.zero_le _, masterClock_pos, Nat.zero_le _, fun on => Bool.noConfusion on, fun _ _ on => Bool.noConfusion on⟩

theorem withTimer_lawful (lawful : s.Lawful) (channel : Nat) {change : HardwareTimer -> HardwareTimer}
    (keeps : ∀ t : HardwareTimer, t.Lawful -> (change t).Lawful) : (s.withTimer channel change).Lawful := by
  refine ⟨fun other => ?_, lawful.rtc⟩
  unfold withTimer
  dsimp only
  split
  · exact keeps _ (lawful.timers other)
  · exact lawful.timers other

theorem writeByte_lawful (lawful : s.Lawful) (offset : Nat) (value : Byte) (host : Nat -> Int) :
    (s.writeByte offset value host).Lawful := by
  have clock := lawful.rtc
  have clocked : ∀ c : Rtc, c.Lawful -> ({ s with rtc := c } : PecTiming).Lawful := fun c law => ⟨lawful.timers, law⟩
  unfold writeByte
  refine iteInduction (fun _ => ⟨lawful.timers, clock⟩) fun _ => ?_
  refine iteInduction (fun _ => ⟨fun channel => ?_, clock⟩) fun _ => ?_
  · obtain ⟨counter, compare, reload, phase, rate⟩ := lawful.timers channel
    dsimp only
    split
    · exact ⟨counter, compare, reload, phase, rate⟩
    · exact ⟨counter, compare, reload, phase, rate⟩
  refine iteInduction (fun _ => clocked _ (Rtc.writeControl_lawful clock _ _)) fun _ => ?_
  refine iteInduction (fun _ => clocked _ ⟨clock.seconds_le, clock.sub_lt, clock.alarm_le, clock.armed, clock.ahead⟩) fun _ => ?_
  refine iteInduction (fun _ => iteInduction (fun _ => ?_) fun _ => lawful) fun _ => ?_
  · exact clocked _ ⟨clock.seconds_le, clock.sub_lt, clock.alarm_le, fun _ => rfl, clock.ahead⟩
  refine iteInduction (fun _ => clocked _ (Rtc.writeSeconds_lawful clock _ _ _)) fun _ => ?_
  refine iteInduction (fun _ => clocked _ (Rtc.writeSeconds_lawful clock _ _ _)) fun _ => ?_
  refine iteInduction (fun _ => clocked _ (Rtc.writeAlarm_lawful clock _ _ _)) fun _ => ?_
  refine iteInduction (fun _ => clocked _ (Rtc.writeAlarm_lawful clock _ _ _)) fun _ => ?_
  refine iteInduction (fun _ => withTimer_lawful lawful _ ?_) fun _ => lawful
  exact fun t law => HardwareTimer.writeRegister_lawful law _ _ _

theorem advance_lawful (lawful : s.Lawful) (host : Int) {cycles : Nat} (bound : cycles ≤ u64Max) :
    (s.advanceSystemCycles host cycles).Lawful := by
  refine ⟨fun channel => ?_, Rtc.advance_lawful lawful.rtc host cycles⟩
  unfold advanceSystemCycles
  dsimp only
  split
  · exact HardwareTimer.passCycles_lawful (lawful.timers channel) bound
  · exact lawful.timers channel

theorem toNat_le_u64Max (cycles : BitVec 64) : cycles.toNat ≤ u64Max := by
  have bound : cycles.toNat < 2 ^ 64 := cycles.isLt
  rw [← u64Max_succ] at bound
  exact Nat.le_of_lt_succ bound

/-- Every event keeps the unit lawful. -/
theorem after_lawful (lawful : s.Lawful) (event : Event) : (s.after event).Lawful := by
  cases event with
  | write offset value host => exact writeByte_lawful lawful offset value host
  | read offset host =>
    exact ⟨lawful.timers, Rtc.checkAlarm_lawful (host 0) lawful.rtc.seconds_le lawful.rtc.sub_lt lawful.rtc.alarm_le
      lawful.rtc.armed⟩
  | advance cycles host => exact advance_lawful lawful host (toNat_le_u64Max cycles)

theorem run_lawful (lawful : s.Lawful) (events : List Event) : (s.run events).Lawful := by
  induction events generalizing s with
  | nil => exact lawful
  | cons event rest ih => exact ih (after_lawful lawful event)

end PecTiming
end Src32.Devices
