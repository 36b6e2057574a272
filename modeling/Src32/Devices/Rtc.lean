import Src32.Devices.HardwareTimer

namespace Src32.Devices

/-!
# The real-time clock

The `rtc_` fields of `PeCTimingState` and what works on them.  The clock counts
master cycles; in real-time mode it follows the host's clock instead.  Each reading
of the host's clock, in nanoseconds, is an argument.
-/

/-- `MASTER_CLOCK`, cycles per second. -/
def masterClock : Nat := 48000000

theorem masterClock_pos : 0 < masterClock := by
  decide

/-- `NANOS_PER_SECOND`. -/
def nanosPerSecond : Nat := 1000000000

/-- `merge_u32_byte`. -/
def mergeU32Byte (value : Word) (byte : Nat) (next : Byte) : Word :=
  let shift := (3 - byte) * 8
  (value &&& ~~~(0xFF#32 <<< shift)) ||| (next.zeroExtend 32 <<< shift)

/-- `update_u64_byte`. -/
def updateU64Byte (value byte : Nat) (next : Byte) : Nat :=
  let shift := if byte < 4 then 32 + (3 - byte) * 8 else (7 - byte) * 8
  ((BitVec.ofNat 64 value &&& ~~~(0xFF#64 <<< shift)) ||| (next.zeroExtend 64 <<< shift)).toNat

theorem updateU64Byte_le (value byte : Nat) (next : Byte) : updateU64Byte value byte next ≤ u64Max := by
  have bound : updateU64Byte value byte next < 2 ^ 64 := BitVec.isLt _
  rw [← u64Max_succ] at bound
  exact Nat.le_of_lt_succ bound

/-- The clock's part of `PeCTimingState`. -/
structure Rtc where
  control : Word
  seconds : Nat
  subsecondCycles : Nat
  hostOffsetNs : Int
  irqControl : Word
  alarmSeconds : Nat
  alarmPending : Bool
  alarmArmed : Bool
  secondsShadow : Nat
  secondsWriteMask : Byte
  hostAlarmPollCycles : Nat
  alarmShadow : Nat
  alarmWriteMask : Byte

namespace Rtc

/-- `default`. -/
def initial : Rtc where
  control := 1
  seconds := 0
  subsecondCycles := 0
  hostOffsetNs := 0
  irqControl := 0
  alarmSeconds := 0
  alarmPending := false
  alarmArmed := false
  secondsShadow := 0
  secondsWriteMask := 0
  hostAlarmPollCycles := 0
  alarmShadow := 0
  alarmWriteMask := 0

variable (r : Rtc)

/-- `rtc_enabled`. -/
def enabled : Bool := r.control.getLsbD 0

/-- `RTC_SET_ENABLE` is set. -/
def setEnabled : Bool := r.control.getLsbD 1

/-- `rtc_realtime`. -/
def realtime : Bool := r.control.getLsbD 2

/-- `RTC_ALARM_IRQ_ENABLE` is set. -/
def alarmIrqEnabled : Bool := r.irqControl.getLsbD 0

/-- `internal_time_ns`. -/
def internalTimeNs : Nat := r.seconds * nanosPerSecond + r.subsecondCycles * nanosPerSecond / masterClock

/-- `current_time_ns`. -/
def currentTimeNs (host : Int) : Nat :=
  if r.enabled && r.realtime then (host + r.hostOffsetNs).toNat else r.internalTimeNs

/-- `set_internal_time_ns`. -/
def setInternalTimeNs (value : Nat) : Rtc :=
  let seconds := value / nanosPerSecond
  if u64Max < seconds then { r with seconds := u64Max, subsecondCycles := 0, secondsShadow := u64Max }
  else
    { r with
      seconds := seconds
      subsecondCycles := value % nanosPerSecond * masterClock / nanosPerSecond
      secondsShadow := seconds }

/-- The seconds of `current_clock_time`. -/
def currentSeconds (host : Int) : Nat := min (r.currentTimeNs host / nanosPerSecond) u64Max

/-- The nanoseconds of `current_clock_time`. -/
def currentNanoseconds (host : Int) : Nat := r.currentTimeNs host % nanosPerSecond

/-- `check_rtc_alarm`. -/
def checkAlarm (host : Int) : Rtc :=
  if r.enabled = true ∧ r.alarmArmed = true ∧ r.alarmPending = false ∧ r.alarmSeconds ≤ r.currentSeconds host then
    { r with alarmPending := true, alarmArmed := false }
  else r

/-- The clock's cycles in `advance_system_cycles`. -/
def advanceClock (cycles : Nat) : Rtc :=
  let accumulated := r.subsecondCycles + cycles
  if cycles ≠ 0 ∧ r.enabled = true ∧ r.realtime = false ∧ accumulated ≤ u64Max ∧ accumulated < masterClock then
    { r with subsecondCycles := accumulated }
  else if cycles ≠ 0 ∧ r.enabled = true ∧ r.realtime = false then
    if u64Max - r.seconds < accumulated / masterClock then { r with seconds := u64Max, subsecondCycles := 0 }
    else { r with seconds := r.seconds + accumulated / masterClock, subsecondCycles := accumulated % masterClock }
  else r

/-- The alarm in `advance_system_cycles`, which looks at the host's clock once in a
millisecond. -/
def pollAlarm (cycles : Nat) (host : Int) : Rtc :=
  if r.enabled = true ∧ r.realtime = true ∧ r.alarmArmed = true ∧ r.alarmPending = false ∧ cycles ≠ 0 then
    let pollCycles := masterClock / 1000
    let accumulated := r.hostAlarmPollCycles + cycles
    if pollCycles ≤ accumulated then { r with hostAlarmPollCycles := accumulated % pollCycles }.checkAlarm host
    else { r with hostAlarmPollCycles := accumulated }
  else { r with hostAlarmPollCycles := 0 }.checkAlarm host

/-- What `advance_system_cycles` does with the clock. -/
def advance (host : Int) (cycles : Nat) : Rtc := (r.advanceClock cycles).pollAlarm cycles host

/-- `write_rtc_control`, which reads the host's clock up to three times. -/
def writeControl (value : Word) (host : Nat -> Int) : Rtc :=
  let oldTime := r.currentTimeNs (host 0)
  let new := value &&& 7
  let newEnabled := new.getLsbD 0
  let newRealtime := new.getLsbD 2
  let r' := if r.enabled && !newEnabled then r.setInternalTimeNs oldTime else r
  let r' :=
    if newEnabled && newRealtime && (!r.enabled || !r.realtime) then { r' with hostOffsetNs := oldTime - host 1 }
    else if newEnabled && !newRealtime && r.realtime then r'.setInternalTimeNs oldTime
    else r'
  { r' with control := new }.checkAlarm (host 2)

/-- `write_rtc_seconds`. -/
def writeSeconds (byte : Nat) (value : Byte) (host : Nat -> Int) : Rtc :=
  if r.setEnabled = false then r
  else
    let shadow := updateU64Byte r.secondsShadow byte value
    let mask := r.secondsWriteMask ||| (1#8 <<< byte)
    if mask = 0xFF then
      let r := { r with secondsShadow := shadow, seconds := shadow, subsecondCycles := 0, secondsWriteMask := 0 }
      let r :=
        if r.enabled && r.realtime then { r with hostOffsetNs := (shadow * nanosPerSecond : Nat) - host 0 } else r
      r.checkAlarm (host 1)
    else { r with secondsShadow := shadow, secondsWriteMask := mask }

/-- `write_rtc_alarm`. -/
def writeAlarm (byte : Nat) (value : Byte) (host : Nat -> Int) : Rtc :=
  let shadow := updateU64Byte r.alarmShadow byte value
  let mask := r.alarmWriteMask ||| (1#8 <<< byte)
  if mask = 0xFF then
    { r with
      alarmShadow := shadow
      alarmSeconds := shadow
      alarmPending := false
      alarmArmed := true
      alarmWriteMask := 0 }.checkAlarm (host 0)
  else { r with alarmShadow := shadow, alarmWriteMask := mask }

/-! ## Lawful clocks -/

/-- The registers are 64-bit numbers, less than a second is left over, and outside
real-time mode an armed alarm lies ahead. -/
structure Lawful : Prop where
  seconds_le : r.seconds ≤ u64Max
  sub_lt : r.subsecondCycles < masterClock
  alarm_le : r.alarmSeconds ≤ u64Max
  armed : r.alarmArmed = true -> r.alarmPending = false
  ahead : r.enabled = true -> r.realtime = false -> r.alarmArmed = true -> r.seconds < r.alarmSeconds

variable {r}

/-- Outside real-time mode the clock shows its own seconds. -/
theorem currentSeconds_eq (seconds_le : r.seconds ≤ u64Max) (sub_lt : r.subsecondCycles < masterClock)
    (apart : r.enabled = true -> r.realtime = false) (host : Int) : r.currentSeconds host = r.seconds := by
  have internal : r.currentTimeNs host = r.internalTimeNs := by
    unfold currentTimeNs
    cases on : r.enabled with
    | false => rfl
    | true => rw [apart on]; rfl
  unfold currentSeconds
  rw [internal]
  unfold internalTimeNs
  have part : r.subsecondCycles * nanosPerSecond / masterClock < nanosPerSecond := by
    unfold nanosPerSecond masterClock at *
    omega
  have whole : (r.seconds * nanosPerSecond + r.subsecondCycles * nanosPerSecond / masterClock) / nanosPerSecond =
      r.seconds := by
    rw [Nat.mul_comm, Nat.mul_add_div (by decide), Nat.div_eq_of_lt part, Nat.add_zero]
  rw [whole, min_eq_left seconds_le]

/-- A check makes a lawful clock of one whose alarm may be due. -/
theorem checkAlarm_lawful (host : Int) (seconds_le : r.seconds ≤ u64Max) (sub_lt : r.subsecondCycles < masterClock)
    (alarm_le : r.alarmSeconds ≤ u64Max) (armed : r.alarmArmed = true -> r.alarmPending = false) :
    (r.checkAlarm host).Lawful := by
  unfold checkAlarm
  split
  · exact ⟨seconds_le, sub_lt, alarm_le, fun on => Bool.noConfusion on, fun _ _ on => Bool.noConfusion on⟩
  · next kept =>
      refine ⟨seconds_le, sub_lt, alarm_le, armed, fun on apart set => ?_⟩
      by_contra due
      refine kept ⟨on, set, armed set, ?_⟩
      rw [currentSeconds_eq seconds_le sub_lt (fun _ => apart)]
      exact Nat.not_lt.mp due

theorem setInternalTimeNs_fields (value : Nat) : (r.setInternalTimeNs value).seconds ≤ u64Max ∧
    (r.setInternalTimeNs value).subsecondCycles < masterClock ∧
    (r.setInternalTimeNs value).alarmSeconds = r.alarmSeconds ∧
    (r.setInternalTimeNs value).alarmArmed = r.alarmArmed ∧
    (r.setInternalTimeNs value).alarmPending = r.alarmPending := by
  unfold setInternalTimeNs
  dsimp only
  split
  · exact ⟨Nat.le_refl _, masterClock_pos, rfl, rfl, rfl⟩
  · next fits =>
      refine ⟨Nat.not_lt.mp fits, ?_, rfl, rfl, rfl⟩
      have part := Nat.mod_lt value (show 0 < nanosPerSecond by decide)
      show value % nanosPerSecond * masterClock / nanosPerSecond < masterClock
      rw [Nat.div_lt_iff_lt_mul (by decide), Nat.mul_comm]
      exact Nat.mul_lt_mul_of_pos_left part (by decide)

theorem writeControl_lawful (lawful : r.Lawful) (value : Word) (host : Nat -> Int) :
    (r.writeControl value host).Lawful := by
  have fields := setInternalTimeNs_fields (r := r) (r.currentTimeNs (host 0))
  unfold writeControl
  dsimp only
  refine checkAlarm_lawful (host 2) ?_ ?_ ?_ ?_
  · split_ifs
    all_goals first | exact lawful.seconds_le | exact (setInternalTimeNs_fields _).1
  · split_ifs
    all_goals first | exact lawful.sub_lt | exact (setInternalTimeNs_fields _).2.1
  · have all : ∀ c : Rtc, c.alarmSeconds ≤ u64Max -> ∀ time, (c.setInternalTimeNs time).alarmSeconds ≤ u64Max := by
      intro c le time
      rw [(setInternalTimeNs_fields time).2.2.1]
      exact le
    split_ifs
    all_goals first | exact lawful.alarm_le | exact all _ lawful.alarm_le _ | exact all _ (all _ lawful.alarm_le _) _
  · have all : ∀ c : Rtc, (c.alarmArmed = true -> c.alarmPending = false) -> ∀ time,
        ((c.setInternalTimeNs time).alarmArmed = true -> (c.setInternalTimeNs time).alarmPending = false) := by
      intro c clear time
      rw [(setInternalTimeNs_fields time).2.2.2.1, (setInternalTimeNs_fields time).2.2.2.2]
      exact clear
    split_ifs
    all_goals first | exact lawful.armed | exact all _ lawful.armed _ | exact all _ (all _ lawful.armed _) _

theorem writeSeconds_lawful (lawful : r.Lawful) (byte : Nat) (value : Byte) (host : Nat -> Int) :
    (r.writeSeconds byte value host).Lawful := by
  unfold writeSeconds
  dsimp only
  split
  · exact lawful
  · split
    · split
      · exact checkAlarm_lawful _ (updateU64Byte_le _ _ _) masterClock_pos lawful.alarm_le lawful.armed
      · exact checkAlarm_lawful _ (updateU64Byte_le _ _ _) masterClock_pos lawful.alarm_le lawful.armed
    · exact ⟨lawful.seconds_le, lawful.sub_lt, lawful.alarm_le, lawful.armed, lawful.ahead⟩

theorem writeAlarm_lawful (lawful : r.Lawful) (byte : Nat) (value : Byte) (host : Nat -> Int) :
    (r.writeAlarm byte value host).Lawful := by
  unfold writeAlarm
  dsimp only
  split
  · exact checkAlarm_lawful _ lawful.seconds_le lawful.sub_lt (updateU64Byte_le _ _ _) (fun _ => rfl)
  · exact ⟨lawful.seconds_le, lawful.sub_lt, lawful.alarm_le, lawful.armed, lawful.ahead⟩

theorem advanceClock_fields (lawful : r.Lawful) (cycles : Nat) : (r.advanceClock cycles).seconds ≤ u64Max ∧
    (r.advanceClock cycles).subsecondCycles < masterClock ∧
    (r.advanceClock cycles).alarmSeconds = r.alarmSeconds ∧
    (r.advanceClock cycles).alarmArmed = r.alarmArmed ∧
    (r.advanceClock cycles).alarmPending = r.alarmPending ∧
    (r.advanceClock cycles).control = r.control ∧
    (r.realtime = true -> r.advanceClock cycles = r) := by
  have small := lawful.seconds_le
  unfold advanceClock
  dsimp only
  split
  · next fast =>
      refine ⟨lawful.seconds_le, fast.2.2.2.2, rfl, rfl, rfl, rfl, fun real => ?_⟩
      rw [fast.2.2.1] at real
      exact Bool.noConfusion real
  · split
    · next counts =>
        have not_real : r.realtime = true -> False := by
          intro real
          rw [counts.2.2] at real
          exact Bool.noConfusion real
        split
        · exact ⟨Nat.le_refl _, masterClock_pos, rfl, rfl, rfl, rfl, fun real => (not_real real).elim⟩
        · refine ⟨?_, Nat.mod_lt _ (by decide), rfl, rfl, rfl, rfl, fun real => (not_real real).elim⟩
          show r.seconds + _ ≤ u64Max
          omega
    · exact ⟨lawful.seconds_le, lawful.sub_lt, rfl, rfl, rfl, rfl, fun _ => rfl⟩

theorem advance_lawful (lawful : r.Lawful) (host : Int) (cycles : Nat) : (r.advance host cycles).Lawful := by
  obtain ⟨seconds_le, sub_lt, alarm, armed, pending, -⟩ := advanceClock_fields lawful cycles
  have alarm_le : (r.advanceClock cycles).alarmSeconds ≤ u64Max := alarm ▸ lawful.alarm_le
  have clear : (r.advanceClock cycles).alarmArmed = true -> (r.advanceClock cycles).alarmPending = false := by
    rw [armed, pending]
    exact lawful.armed
  unfold advance pollAlarm
  dsimp only
  split
  · next polls =>
      split
      · exact checkAlarm_lawful _ seconds_le sub_lt alarm_le clear
      · refine ⟨seconds_le, sub_lt, alarm_le, clear, fun _ apart => ?_⟩
        change (r.advanceClock cycles).realtime = false at apart
        rw [polls.2.1] at apart
        exact Bool.noConfusion apart
  · exact checkAlarm_lawful _ seconds_le sub_lt alarm_le clear

end Rtc
end Src32.Devices
