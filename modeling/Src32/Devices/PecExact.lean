import Mathlib.Tactic.IntervalCases
import Src32.Devices.PecBatches

namespace Src32.Devices.PecTiming

/-!
# What the registers show of the timing unit

Two states behave alike if no later accesses and cycles tell them apart.  The
registers show the counters and the clock, and the phase of a prescaler shows once
its timer is made to count freely.
-/

variable {s t : PecTiming}

/-- Whatever happens to the unit later, every register reads the same and the
interrupt is the same. -/
def Alike (s t : PecTiming) : Prop :=
  ∀ later : List Event, (∀ offset host, ((s.run later).readRegister offset host).1 = ((t.run later).readRegister offset host).1) ∧
    (s.run later).irqAsserted = (t.run later).irqAsserted

/-! ## A timer's registers -/

/-- Where a timer's register is. -/
def timerOffset (channel : Fin 4) (register : Nat) : Nat := 0x400 + 0x40 * channel.val + register

theorem readRegister_timer (s : PecTiming) (channel : Fin 4) {register : Nat} (small : register < 0x40) (host : Nat -> Int) :
    (s.readRegister (timerOffset channel register) host).1 = (s.timers channel).readRegister register := by
  have bound := channel.isLt
  have inside : 0x400 ≤ timerOffset channel register ∧ timerOffset channel register < 0x500 := by
    unfold timerOffset
    omega
  have place : (timerOffset channel register - 0x400) / 0x40 = channel.val := by
    unfold timerOffset
    omega
  have rest : (timerOffset channel register - 0x400) % 0x40 = register := by
    unfold timerOffset
    omega
  unfold readRegister
  dsimp only
  rw [if_neg (by omega), if_neg (by omega), if_neg (by omega), if_neg (by omega), if_neg (by omega), if_neg (by omega),
    if_neg (by omega), if_neg (by omega), if_neg (by omega), if_neg (by omega), if_neg (by omega), dif_pos inside, rest]
  exact congrArg (fun place => (s.timers place).readRegister register) (Fin.ext place)

theorem writeByte_timer (s : PecTiming) (channel : Fin 4) {register byte : Nat} (small : register < 0x40)
    (whole : register % 4 = 0) (lane : byte < 4) (value : Byte) (host : Nat -> Int) :
    s.writeByte (timerOffset channel register + byte) value host =
      s.withTimer channel.val fun t => t.writeRegister register byte value := by
  have bound := channel.isLt
  have part : (timerOffset channel register + byte) % 4 = byte := by
    unfold timerOffset
    omega
  have place : timerOffset channel register + byte - byte = timerOffset channel register := Nat.add_sub_cancel _ _
  have inside : 0x400 ≤ timerOffset channel register ∧ timerOffset channel register < 0x500 := by
    unfold timerOffset
    omega
  have index : (timerOffset channel register - 0x400) / 0x40 = channel.val := by
    unfold timerOffset
    omega
  have rest : (timerOffset channel register - 0x400) % 0x40 = register := by
    unfold timerOffset
    omega
  unfold writeByte
  dsimp only
  rw [part, place, if_neg (by omega), if_neg (by omega), if_neg (by omega), if_neg (by omega), if_neg (by omega),
    if_neg (by omega), if_neg (by omega), if_neg (by omega), if_neg (by omega), if_pos inside, index, rest]

variable {second cycles first : Nat}

/-- A number of 64 bits by its two words. -/
theorem eq_of_words (first_le : first ≤ u64Max) (second_le : second ≤ u64Max)
    (low : BitVec.ofNat 32 first = BitVec.ofNat 32 second)
    (high : BitVec.ofNat 32 (first / 2 ^ 32) = BitVec.ofNat 32 (second / 2 ^ 32)) : first = second := by
  have top := u64Max_succ
  have low' := congrArg BitVec.toNat low
  have high' := congrArg BitVec.toNat high
  rw [BitVec.toNat_ofNat, BitVec.toNat_ofNat] at low' high'
  omega

theorem Alike.register (alike : Alike s t) (later : List Event) (channel : Fin 4) {register : Nat} (small : register < 0x40) :
    ((s.run later).timers channel).readRegister register = ((t.run later).timers channel).readRegister register := by
  have same := (alike later).1 (timerOffset channel register) (fun _ => 0)
  rwa [readRegister_timer _ channel small, readRegister_timer _ channel small] at same

/-- States that behave alike count alike. -/
theorem Alike.counter (alike : Alike s t) (first : s.Lawful) (second : t.Lawful) (later : List Event) (channel : Fin 4) :
    ((s.run later).timers channel).counter = ((t.run later).timers channel).counter := by
  have low := alike.register later channel (show 0x08 < 0x40 by decide)
  have high := alike.register later channel (show 0x0C < 0x40 by decide)
  exact eq_of_words ((run_lawful first later).timers channel).counter_le ((run_lawful second later).timers channel).counter_le
    low high

theorem Alike.compare (alike : Alike s t) (first : s.Lawful) (second : t.Lawful) (channel : Fin 4) :
    (s.timers channel).compare = (t.timers channel).compare := by
  have low := alike.register [] channel (show 0x10 < 0x40 by decide)
  have high := alike.register [] channel (show 0x14 < 0x40 by decide)
  exact eq_of_words (first.timers channel).compare_le (second.timers channel).compare_le low high

theorem Alike.prescaler (alike : Alike s t) (first : s.Lawful) (second : t.Lawful) (channel : Fin 4) :
    (s.timers channel).prescaler = (t.timers channel).prescaler := by
  have same := congrArg BitVec.toNat (alike.register [] channel (show 0x20 < 0x40 by decide))
  have small := (first.timers channel).prescaler_lt
  have small' := (second.timers channel).prescaler_lt
  change (s.timers channel).prescaler % 2 ^ 32 = (t.timers channel).prescaler % 2 ^ 32 at same
  omega

/-! ## The phase of a prescaler -/

/-- A byte in the last lane replaces the low bits of a word. -/
theorem mergeU32Byte_last (value : Word) (next : Byte) {bit : Nat} (low : bit < 8) :
    (mergeU32Byte value 3 next).getLsbD bit = next.getLsbD bit := by
  unfold mergeU32Byte
  simp only [BitVec.getLsbD_or, BitVec.getLsbD_and, BitVec.zeroExtend_eq_setWidth, Nat.sub_self, Nat.zero_mul,
    BitVec.shiftLeft_zero, BitVec.getLsbD_setWidth]
  have mask : (~~~(0xFF#32)).getLsbD bit = false := by interval_cases bit <;> decide
  have wide : decide (bit < 32) = true := decide_eq_true (by omega)
  rw [mask, wide, Bool.and_false, Bool.false_or, Bool.true_and]

/-- A timer made to count freely. -/
theorem writeRegister_free (timer : HardwareTimer) :
    timer.writeRegister 0x00 3 0x06 = { timer with control := 0x06 } := by
  have control : mergeU32Byte timer.control 3 0x06 &&& 15 = 0x06 := by
    apply BitVec.eq_of_getLsbD_eq
    intro bit bound
    rw [BitVec.getLsbD_and]
    by_cases low : bit < 4
    · rw [mergeU32Byte_last _ _ (by omega)]
      interval_cases bit <;> decide
    · have out : (15 : Word).getLsbD bit = false := by interval_cases bit <;> decide
      have out' : (0x06 : Word).getLsbD bit = false := by interval_cases bit <;> decide
      rw [out, out', Bool.and_false]
  have no_reset : (mergeU32Byte timer.control 3 0x06).getLsbD 4 = false := by
    rw [mergeU32Byte_last _ _ (by decide)]
    decide
  unfold HardwareTimer.writeRegister HardwareTimer.writeControl
  dsimp only
  rw [if_pos rfl, control, no_reset]
  rfl

/-- Every channel enabled. -/
theorem writeByte_enable (s : PecTiming) (host : Nat -> Int) (channel : Fin 4) :
    (s.writeByte 0x187 0x0F host).timerEnable.getLsbD channel.val = true ∧
      (s.writeByte 0x187 0x0F host).timers = s.timers := by
  have enabled : (s.writeByte 0x187 0x0F host) =
      { s with timerEnable := (mergeU32Byte (s.timerEnable.zeroExtend 32) 3 0x0F).setWidth 8 &&& 15 } := by
    unfold writeByte
    exact if_pos (by decide)
  rw [enabled]
  refine ⟨?_, rfl⟩
  have bound := channel.isLt
  show ((mergeU32Byte (s.timerEnable.zeroExtend 32) 3 0x0F).setWidth 8 &&& 15).getLsbD channel.val = true
  rw [BitVec.getLsbD_and, BitVec.getLsbD_setWidth, mergeU32Byte_last _ _ (by omega)]
  revert bound
  generalize channel.val = place
  intro bound
  interval_cases place <;> decide

/-- Make a timer count freely and let it. -/
def freeRun (channel : Fin 4) (cycles : BitVec 64) : List Event :=
  [.write (timerOffset channel 0x00 + 3) 0x06 fun _ => 0, .write 0x187 0x0F fun _ => 0, .advance cycles 0]

/-- The count of a timer that was made to count freely. -/
theorem freeRun_counter (lawful : s.Lawful) (channel : Fin 4) (cycles : BitVec 64) :
    ((s.run (freeRun channel cycles)).timers channel).counter =
      ((s.timers channel).counter + (s.timers channel).ticksIn cycles.toNat) % 2 ^ 64 := by
  obtain ⟨bit, timers⟩ := writeByte_enable (s.writeByte (timerOffset channel 0x00 + 3) 0x06 fun _ => 0) (fun _ => 0) channel
  have first := writeByte_timer s channel (show 0x00 < 0x40 by decide) (by decide) (show 3 < 4 by decide) 0x06 (fun _ => 0)
  have free : ((s.writeByte (timerOffset channel 0x00 + 3) 0x06 fun _ => 0).writeByte 0x187 0x0F fun _ => 0).timers channel =
      { s.timers channel with control := 0x06 } := by
    rw [timers, first, ← writeRegister_free]
    exact if_pos rfl
  have law : ({ s.timers channel with control := 0x06 } : HardwareTimer).Lawful := by
    obtain ⟨counter, compare, reload, phase, rate⟩ := lawful.timers channel
    exact ⟨counter, compare, reload, phase, rate⟩
  have running : ((s.writeByte (timerOffset channel 0x00 + 3) 0x06 fun _ => 0).writeByte 0x187 0x0F fun _ => 0).Running
      channel := by
    refine ⟨bit, ?_⟩
    rw [free]
    show (0x06 : Word).getLsbD 2 = true
    decide
  show ((((s.writeByte (timerOffset channel 0x00 + 3) 0x06 fun _ => 0).writeByte 0x187 0x0F fun _ => 0).advanceSystemCycles 0
    cycles.toNat).timers channel).counter = _
  unfold advanceSystemCycles
  dsimp only
  rw [if_pos running, free, HardwareTimer.passCycles_eq law (toNat_le_u64Max cycles)]
  show (({ s.timers channel with control := 0x06 } : HardwareTimer).advance
    (({ s.timers channel with control := 0x06 } : HardwareTimer).ticksIn cycles.toNat)).counter = _
  rw [HardwareTimer.advance_freeRunning law (show ((0x06 : Word) &&& 3).toNat = 2 by decide)]
  rfl

/-- Phases below one divisor that always tick together are the same. -/
theorem phase_le_of_ticks {divisor : Nat} (first_lt : first < divisor) (small : divisor ≤ 2 ^ 32)
    (together : ∀ cycles, cycles < 2 ^ 64 -> (first + cycles) / divisor = (second + cycles) / divisor) :
    second ≤ first := by
  by_contra later
  have tick := together (divisor - second) (by omega)
  have one : 1 ≤ (second + (divisor - second)) / divisor := by
    rw [Nat.le_div_iff_mul_le (by omega)]
    omega
  have none : (first + (divisor - second)) / divisor = 0 := by
    by_cases inside : second ≤ divisor
    · exact Nat.div_eq_of_lt (by omega)
    · exact Nat.div_eq_of_lt (by omega)
  omega

theorem ticks_le {phase divisor : Nat} (phase_lt : phase < divisor) (small : divisor ≤ 2 ^ 32)
    (bound : cycles < 2 ^ 64) : (phase + cycles) / divisor < 2 ^ 64 := by
  by_cases one : divisor = 1
  · subst one
    rw [Nat.div_one]
    omega
  · have more : 2 ≤ divisor := by omega
    calc (phase + cycles) / divisor ≤ (phase + cycles) / 2 := Nat.div_le_div_left more (by decide)
      _ < 2 ^ 64 := by omega

/-- States that behave alike have their prescalers in the same phase. -/
theorem Alike.phase (alike : Alike s t) (first : s.Lawful) (second : t.Lawful) (channel : Fin 4) :
    (s.timers channel).prescalerPhase = (t.timers channel).prescalerPhase := by
  have counter := alike.counter first second [] channel
  have rate := alike.prescaler first second channel
  have phase := (first.timers channel).phase_le
  have phase' := (second.timers channel).phase_le
  have small := (first.timers channel).prescaler_lt
  have together : ∀ cycles, cycles < 2 ^ 64 ->
      ((s.timers channel).prescalerPhase + cycles) / ((s.timers channel).prescaler + 1) =
        ((t.timers channel).prescalerPhase + cycles) / ((s.timers channel).prescaler + 1) := by
    intro cycles bound
    have counts := alike.counter first second (freeRun channel (BitVec.ofNat 64 cycles)) channel
    rw [freeRun_counter first, freeRun_counter second, BitVec.toNat_ofNat, Nat.mod_eq_of_lt bound] at counts
    change ((s.timers channel).counter + ((s.timers channel).prescalerPhase + cycles) / ((s.timers channel).prescaler + 1)) %
      2 ^ 64 = ((t.timers channel).counter +
        ((t.timers channel).prescalerPhase + cycles) / ((t.timers channel).prescaler + 1)) % 2 ^ 64 at counts
    change (s.timers channel).counter = (t.timers channel).counter at counter
    rw [← rate, ← counter] at counts
    have few := ticks_le (Nat.lt_succ_of_le phase) (Nat.succ_le_of_lt small) bound
    have few' := ticks_le (Nat.lt_succ_of_le (rate ▸ phase')) (Nat.succ_le_of_lt small) bound
    change ((s.timers channel).prescalerPhase + cycles) / ((s.timers channel).prescaler + 1) < 2 ^ 64 at few
    change ((t.timers channel).prescalerPhase + cycles) / ((s.timers channel).prescaler + 1) < 2 ^ 64 at few'
    generalize ((s.timers channel).prescalerPhase + cycles) / ((s.timers channel).prescaler + 1) = ticks at *
    generalize ((t.timers channel).prescalerPhase + cycles) / ((s.timers channel).prescaler + 1) = ticks' at *
    omega
  apply Nat.le_antisymm
  · exact phase_le_of_ticks (Nat.lt_succ_of_le (rate ▸ phase')) (Nat.succ_le_of_lt small)
      (fun cycles bound => (together cycles bound).symm)
  · exact phase_le_of_ticks (Nat.lt_succ_of_le phase) (Nat.succ_le_of_lt small) together

/-! ## The clock -/

/-- Nanoseconds tell apart the cycles of a second. -/
theorem cycles_of_nanoseconds (same : first * nanosPerSecond / masterClock = second * nanosPerSecond / masterClock) :
    first = second := by
  unfold nanosPerSecond masterClock at same
  omega

/-- The nanoseconds of a clock outside real-time mode. -/
theorem readRegister_subsec (lawful : s.Lawful) (apart : s.rtc.realtime = false) (host : Nat -> Int) :
    (s.readRegister 0x210 host).1 = BitVec.ofNat 32 (s.rtc.subsecondCycles * nanosPerSecond / masterClock) := by
  have fields : (s.rtc.checkAlarm (host 0)).control = s.rtc.control ∧ (s.rtc.checkAlarm (host 0)).seconds = s.rtc.seconds ∧
      (s.rtc.checkAlarm (host 0)).subsecondCycles = s.rtc.subsecondCycles := by
    unfold Rtc.checkAlarm
    split
    · exact ⟨rfl, rfl, rfl⟩
    · exact ⟨rfl, rfl, rfl⟩
  obtain ⟨control, seconds, sub⟩ := fields
  have internal : (s.rtc.checkAlarm (host 0)).currentTimeNs (host 1) =
      s.rtc.seconds * nanosPerSecond + s.rtc.subsecondCycles * nanosPerSecond / masterClock := by
    unfold Rtc.currentTimeNs
    rw [Rtc.realtime_congr control, apart, Bool.and_false]
    unfold Rtc.internalTimeNs
    rw [seconds, sub]
    rfl
  have part : s.rtc.subsecondCycles * nanosPerSecond / masterClock < nanosPerSecond := by
    have small := lawful.rtc.sub_lt
    unfold nanosPerSecond masterClock at *
    omega
  show BitVec.ofNat 32 ((s.rtc.checkAlarm (host 0)).currentNanoseconds (host 1)) = _
  unfold Rtc.currentNanoseconds
  rw [internal, Nat.mul_comm, Nat.mul_add_mod, Nat.mod_eq_of_lt part]

/-- States that behave alike are at the same part of a second. -/
theorem Alike.subsecond (alike : Alike s t) (first : s.Lawful) (second : t.Lawful) (apart : s.rtc.realtime = false)
    (apart' : t.rtc.realtime = false) : s.rtc.subsecondCycles = t.rtc.subsecondCycles := by
  have same := congrArg BitVec.toNat ((alike []).1 0x210 (fun _ => 0))
  change ((s.readRegister 0x210 fun _ => 0).1).toNat = ((t.readRegister 0x210 fun _ => 0).1).toNat at same
  rw [readRegister_subsec first apart, readRegister_subsec second apart', BitVec.toNat_ofNat, BitVec.toNat_ofNat] at same
  have small := first.rtc.sub_lt
  have small' := second.rtc.sub_lt
  apply cycles_of_nanoseconds
  unfold nanosPerSecond masterClock at *
  omega

/-!
## Which batches of the timing unit are exact

A batch behaves as its single cycles unless a timer goes on counting behind the tick
that stops it, or the clock passes its last second.  The deadline that the run loop
skips to is exact in every state.
-/

theorem iterate_keeps (lawful : s.Lawful) (apart : s.rtc.realtime = false) (cycles : Nat) :
    (cycle^[cycles] s).Lawful ∧ (cycle^[cycles] s).rtc.realtime = false := by
  induction cycles with
  | zero => exact ⟨lawful, apart⟩
  | succ cycles ih =>
    rw [Function.iterate_succ_apply']
    exact ⟨cycle_lawful ih.1, advance_apart ih.1 ih.2 0 1⟩

/-- The part of a second that the cycles of a batch leave, one by one and at once. -/
theorem rtc_exact_of_subsecond (lawful : s.Lawful) (apart : s.rtc.realtime = false) (some_cycles : cycles ≠ 0)
    (host : Int) (same : (Rtc.cycle^[cycles] s.rtc).subsecondCycles = (s.rtc.advance host cycles).subsecondCycles) :
    s.rtc.Exact cycles := by
  obtain ⟨before, rfl⟩ := Nat.exists_eq_succ_of_ne_zero some_cycles
  intro on
  by_cases within : (s.rtc.subsecondCycles + before.succ) / masterClock ≤ u64Max - s.rtc.seconds
  · exact .inl within
  · rw [Rtc.cycle_iterate lawful.rtc apart, Rtc.advance_eq lawful.rtc apart, Rtc.settle_fields.2.2.1,
      Rtc.settle_fields.2.2.1, Rtc.advanceClock_over apart on within] at same
    have counted : (s.rtc.elapse (before + 1)).subsecondCycles = (s.rtc.subsecondCycles + (before + 1)) % masterClock := by
      unfold Rtc.elapse
      rw [if_pos on]
    exact .inr (counted.symm.trans same)

/-- A batch that later behaves as its cycles is exact. -/
theorem exact_of_alike (lawful : s.Lawful) (apart : s.rtc.realtime = false) (host : Int) (bound : cycles ≤ u64Max)
    (some_cycles : cycles ≠ 0) (alike : Alike (cycle^[cycles] s) (s.advanceSystemCycles host cycles)) :
    s.ExactBatch cycles := by
  obtain ⟨first, first_apart⟩ := iterate_keeps lawful apart cycles
  have second := advance_lawful lawful host bound
  have second_apart := advance_apart lawful apart host cycles
  refine ⟨fun channel running => ?_, ?_, fun none => absurd none some_cycles⟩
  · have single : (cycle^[cycles] s).timers channel = HardwareTimer.cycle^[cycles] (s.timers channel) := by
      rw [cycle_iterate]
      exact if_pos running.1
    have batch : (s.advanceSystemCycles host cycles).timers channel = (s.timers channel).passCycles cycles := if_pos running
    have counts : ((cycle^[cycles] s).timers channel).counter = ((s.advanceSystemCycles host cycles).timers channel).counter :=
      alike.counter first second [] channel
    have compares := alike.compare first second channel
    have phases := alike.phase first second channel
    rw [single, batch] at counts compares phases
    exact HardwareTimer.exact_of_shows (lawful.timers channel) running.2 bound counts compares phases
  · have same := alike.subsecond first second first_apart second_apart
    rw [cycle_iterate] at same
    exact rtc_exact_of_subsecond lawful apart some_cycles host same

/-- The unit interrupts at the cycle that `cycles_until_irq` tells, as far as 64 bits
go, and not before. -/
theorem irq_exact (lawful : s.Lawful) (apart : s.rtc.realtime = false) (quiet : s.irqAsserted = false) :
    (∀ found, s.cyclesUntilIrq = some found -> ∃ first, found = min first u64Max ∧
      ∀ hosts : List Int, (singles hosts s).irqAsserted = true ↔ first ≤ hosts.length) ∧
    (s.cyclesUntilIrq = none -> ∀ hosts : List Int, (singles hosts s).irqAsserted = false) := by
  constructor
  · intro found result
    obtain ⟨first, deadline, least, clamped⟩ := cyclesUntilIrq_least apart result
    refine ⟨first, clamped, fun hosts => ?_⟩
    rw [singles_eq lawful apart, irqAsserted_iterate lawful apart quiet]
    exact ⟨fun later => Nat.le_trans (least _ later.choose_spec.1) later.choose_spec.2, fun le => ⟨first, deadline, le⟩⟩
  · intro none hosts
    have never := (cyclesUntilIrq_mem apart).2 none
    cases raised : (singles hosts s).irqAsserted with
    | false => rfl
    | true =>
      rw [singles_eq lawful apart, irqAsserted_iterate lawful apart quiet] at raised
      exact absurd raised.choose_spec.1 (never _)

/-! ## The results -/

/-- A periodic timer without a reload value, set up to match at the first tick. -/
def overrun : List Event :=
  [.write 0x413 1 fun _ => 0, .write 0x403 5 fun _ => 0, .write 0x187 1 fun _ => 0]

end Src32.Devices.PecTiming
