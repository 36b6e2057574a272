import Src32.Devices.TimerTicks

namespace Src32.Devices.HardwareTimer

/-!
# A batch of cycles and its single cycles

A batch that does not stop a timer leaves it as its cycles one by one do.  One that
does stop it goes on counting: the batch and its cycles then agree only where no
cycle is left over and the timer ends with the tick that stopped it.
-/

variable {t : HardwareTimer}

/-- The ticks of so many cycles. -/
def ticksIn (t : HardwareTimer) (cycles : Nat) : Nat := (t.prescalerPhase + cycles) / (t.prescaler + 1)

/-- The phase of the prescaler behind so many cycles. -/
def phaseIn (t : HardwareTimer) (cycles : Nat) : Nat := (t.prescalerPhase + cycles) % (t.prescaler + 1)

/-- A running timer behind so many cycles that do not stop it. -/
def passed (t : HardwareTimer) (cycles : Nat) : HardwareTimer :=
  { t.advance (t.ticksIn cycles) with prescalerPhase := t.phaseIn cycles }

/-- One cycle, of a timer that may have stopped. -/
def cycle (t : HardwareTimer) : HardwareTimer := if t.enabled then t.passCycles 1 else t

variable {ticks cycles : Nat} {u : HardwareTimer}

/-- Both ways of the source to count a batch do the same. -/
theorem passCycles_eq (lawful : t.Lawful) (bound : cycles ≤ u64Max) :
    t.passCycles cycles = t.passed cycles := by
  have phase := lawful.phase_le
  have rate := lawful.prescaler_lt
  have top := u64Max_succ
  unfold passCycles passed ticksIn phaseIn
  dsimp only
  by_cases fits : t.prescalerPhase + cycles ≤ u64Max
  · rw [if_pos fits]
    by_cases early : t.prescalerPhase + cycles < t.prescaler + 1
    · rw [if_pos early, Nat.div_eq_of_lt early, Nat.mod_eq_of_lt early, advance_zero]
    · rw [if_neg early, advance_phase]
  · rw [if_neg fits]
    -- a batch that overflows has a divisor of at least two, so its ticks are a 64-bit number
    have few : (t.prescalerPhase + cycles) / (t.prescaler + 1) ≤ u64Max := by
      have more : 2 ≤ t.prescaler + 1 := by omega
      calc (t.prescalerPhase + cycles) / (t.prescaler + 1)
          ≤ (t.prescalerPhase + cycles) / 2 := Nat.div_le_div_left more (by decide)
        _ ≤ u64Max := by omega
    rw [min_eq_left few, advance_phase]

theorem phaseIn_le (cycles : Nat) : t.phaseIn cycles ≤ t.prescaler := Nat.le_of_lt_succ (Nat.mod_lt _ (Nat.succ_pos _))

theorem ticksIn_mono {first second : Nat} (le : first ≤ second) : t.ticksIn first ≤ t.ticksIn second :=
  Nat.div_le_div_right (Nat.add_le_add_left le _)

@[simp] theorem ticksIn_zero (lawful : t.Lawful) : t.ticksIn 0 = 0 :=
  Nat.div_eq_of_lt (Nat.lt_succ_of_le lawful.phase_le)

/-- A cycle more is no tick, or the tick that its predecessors were short of. -/
theorem ticksIn_succ (cycles : Nat) :
    t.ticksIn (cycles + 1) = t.ticksIn cycles ∧ t.phaseIn (cycles + 1) = t.phaseIn cycles + 1 ∨
      t.ticksIn (cycles + 1) = t.ticksIn cycles + 1 ∧ t.phaseIn (cycles + 1) = 0 ∧ t.phaseIn cycles = t.prescaler := by
  have whole := Nat.div_add_mod (t.prescalerPhase + cycles) (t.prescaler + 1)
  have small := Nat.mod_lt (t.prescalerPhase + cycles) (show 0 < t.prescaler + 1 from Nat.succ_pos _)
  unfold ticksIn phaseIn
  by_cases last : (t.prescalerPhase + cycles) % (t.prescaler + 1) = t.prescaler
  · have next : t.prescalerPhase + (cycles + 1) = (t.prescaler + 1) * ((t.prescalerPhase + cycles) / (t.prescaler + 1) + 1) := by
      rw [Nat.mul_add, Nat.mul_one]
      omega
    refine .inr ⟨?_, ?_, last⟩
    · rw [next, Nat.mul_div_cancel_left _ (Nat.succ_pos _)]
    · rw [next, Nat.mul_mod_right]
  · have next : t.prescalerPhase + (cycles + 1) =
        (t.prescaler + 1) * ((t.prescalerPhase + cycles) / (t.prescaler + 1)) +
          ((t.prescalerPhase + cycles) % (t.prescaler + 1) + 1) := by omega
    have inside : (t.prescalerPhase + cycles) % (t.prescaler + 1) + 1 < t.prescaler + 1 := by omega
    refine .inl ⟨?_, ?_⟩
    · rw [next, Nat.mul_add_div (Nat.succ_pos _), Nat.div_eq_of_lt inside, Nat.add_zero]
    · rw [next, Nat.mul_add_mod, Nat.mod_eq_of_lt inside]

theorem enabled_congr (same : u.control = t.control) : u.enabled = t.enabled := by
  unfold enabled
  rw [same]

theorem irqEnabled_congr (same : u.control = t.control) : u.irqEnabled = t.irqEnabled := by
  unfold irqEnabled
  rw [same]

/-- A timer that was not stopped is as before but for its count. -/
theorem passed_lawful (lawful : t.Lawful) (goes : ¬ t.Stops (t.ticksIn cycles)) :
    (t.passed cycles).Lawful ∧ (t.passed cycles).control = t.control ∧ (t.passed cycles).prescaler = t.prescaler := by
  have ahead := advance_lawful lawful goes
  obtain ⟨control, rate, -⟩ := advance_control lawful goes
  refine ⟨⟨ahead.counter_le, ahead.compare_le, ahead.reload_le, ?_, ahead.prescaler_lt⟩, control, rate⟩
  show t.phaseIn cycles ≤ (t.advance (t.ticksIn cycles)).prescaler
  rw [rate]
  exact phaseIn_le cycles

theorem one_le_u64Max : 1 ≤ u64Max := by
  have top := u64Max_succ
  omega

/-- One cycle of a timer that has passed some. -/
theorem passed_cycle (lawful : t.Lawful) (running : t.enabled = true) (goes : ¬ t.Stops (t.ticksIn cycles)) :
    (t.passed cycles).cycle =
      if t.phaseIn cycles = t.prescaler then { (t.advance (t.ticksIn cycles)).advance 1 with prescalerPhase := 0 }
      else { t.advance (t.ticksIn cycles) with prescalerPhase := t.phaseIn cycles + 1 } := by
  obtain ⟨ahead, control, rate⟩ := passed_lawful lawful goes
  have on : (t.passed cycles).enabled = true := (enabled_congr control).trans running
  have phase : (t.passed cycles).prescalerPhase = t.phaseIn cycles := rfl
  have small := phaseIn_le (t := t) cycles
  unfold cycle
  rw [if_pos on, passCycles_eq ahead one_le_u64Max]
  by_cases last : t.phaseIn cycles = t.prescaler
  · have ticks : (t.passed cycles).ticksIn 1 = 1 := by
      unfold ticksIn
      rw [phase, rate, last, Nat.div_self (Nat.succ_pos _)]
    have left : (t.passed cycles).phaseIn 1 = 0 := by
      unfold phaseIn
      rw [rate, phase, last, Nat.mod_self]
    rw [if_pos last]
    show { (t.passed cycles).advance ((t.passed cycles).ticksIn 1) with prescalerPhase := (t.passed cycles).phaseIn 1 } = _
    rw [ticks, left]
    show { ({ t.advance (t.ticksIn cycles) with prescalerPhase := t.phaseIn cycles } : HardwareTimer).advance 1 with
      prescalerPhase := 0 } = _
    rw [advance_phase]
  · have inside : t.phaseIn cycles + 1 < t.prescaler + 1 := by omega
    have ticks : (t.passed cycles).ticksIn 1 = 0 := by
      unfold ticksIn
      rw [phase, rate, Nat.div_eq_of_lt inside]
    have left : (t.passed cycles).phaseIn 1 = t.phaseIn cycles + 1 := by
      unfold phaseIn
      rw [rate, phase, Nat.mod_eq_of_lt inside]
      rfl
    rw [if_neg last]
    show { (t.passed cycles).advance ((t.passed cycles).ticksIn 1) with prescalerPhase := (t.passed cycles).phaseIn 1 } = _
    rw [ticks, left, advance_zero]
    rfl

theorem stop_enabled : t.stop.enabled = false := by
  unfold enabled stop
  dsimp only
  rw [BitVec.getLsbD_and, show (~~~(4 : Word)).getLsbD 2 = false by decide, Bool.and_false]

theorem stop_irqEnabled : t.stop.irqEnabled = t.irqEnabled := by
  unfold irqEnabled stop
  dsimp only
  rw [BitVec.getLsbD_and, show (~~~(4 : Word)).getLsbD 3 = true by decide, Bool.and_true]

/-- Behind the tick that stops it a timer is off, with its match pending. -/
theorem stopped (lawful : t.Lawful) (before : ¬ t.Stops ticks) (stops : t.Stops (ticks + 1)) :
    ((t.advance ticks).advance 1).enabled = false ∧ ((t.advance ticks).advance 1).pending = true ∧
      ((t.advance ticks).advance 1).irqEnabled = t.irqEnabled := by
  rw [advance_stop lawful before stops]
  by_cases oneShot : t.mode = 0
  · rw [if_pos oneShot]
    rcases stops with ⟨-, past⟩ | ⟨periodic, -⟩
    · rw [advance_oneShot_match oneShot past]
      exact ⟨stop_enabled, rfl, stop_irqEnabled⟩
    · rw [oneShot] at periodic
      exact absurd periodic (by decide)
  · rw [if_neg oneShot]
    split
    · exact ⟨stop_enabled, rfl, stop_irqEnabled⟩
    · exact ⟨stop_enabled, rfl, stop_irqEnabled⟩

/-- How a periodic timer comes to stop. -/
theorem Stops.periodic (stops : t.Stops ticks) (periodic : t.mode = 1) : t.firstMatch ≤ ticks ∧
    (t.reload = 0 ∨ u64Max < t.nextCompare (min (t.counter + ticks) u64Max)) := by
  rcases stops with ⟨oneShot, -⟩ | ⟨-, past, ends⟩
  · rw [periodic] at oneShot
    exact absurd oneShot (by decide)
  · exact ⟨past, ends⟩

/-- Single cycles of a running timer.  As long as it does not stop they are the
batch; when it does, they leave it at the tick that stopped it. -/
theorem cycle_iterate (lawful : t.Lawful) (running : t.enabled = true) (cycles : Nat) :
    (¬ t.Stops (t.ticksIn cycles) ∧ cycle^[cycles] t = t.passed cycles) ∨
      ∃ ticks, ticks + 1 ≤ t.ticksIn cycles ∧ ¬ t.Stops ticks ∧ t.Stops (ticks + 1) ∧
        cycle^[cycles] t = { (t.advance ticks).advance 1 with prescalerPhase := 0 } := by
  induction cycles with
  | zero =>
    refine .inl ⟨?_, ?_⟩
    · rw [ticksIn_zero lawful]
      exact fun stops => absurd (stops_pos stops) (Nat.lt_irrefl 0)
    · have phase : t.phaseIn 0 = t.prescalerPhase := Nat.mod_eq_of_lt (Nat.lt_succ_of_le lawful.phase_le)
      show t = { t.advance (t.ticksIn 0) with prescalerPhase := t.phaseIn 0 }
      rw [ticksIn_zero lawful, advance_zero, phase]
  | succ cycles ih =>
    rw [Function.iterate_succ_apply']
    rcases ih with ⟨goes, passes⟩ | ⟨ticks, reached, before, stops, stays⟩
    · rw [passes, passed_cycle lawful running goes]
      rcases ticksIn_succ (t := t) cycles with ⟨ticks, phase⟩ | ⟨ticks, phase, last⟩
      · -- no tick
        have inside : ¬ t.phaseIn cycles = t.prescaler := by
          have small := phaseIn_le (t := t) (cycles + 1)
          omega
        rw [if_neg inside]
        refine .inl ⟨ticks ▸ goes, ?_⟩
        unfold passed
        rw [ticks, phase]
      · rw [if_pos last]
        by_cases stops : t.Stops (t.ticksIn cycles + 1)
        · exact .inr ⟨t.ticksIn cycles, Nat.le_of_eq ticks.symm, goes, stops, rfl⟩
        · refine .inl ⟨ticks ▸ stops, ?_⟩
          unfold passed
          rw [ticks, phase, advance_succ lawful stops]
    · -- a stopped timer stays as it is
      have off : ({ (t.advance ticks).advance 1 with prescalerPhase := 0 } : HardwareTimer).enabled = false := by
        exact (stopped lawful before stops).1
      refine .inr ⟨ticks, Nat.le_trans reached (ticksIn_mono (Nat.le_succ _)), before, stops, ?_⟩
      rw [stays]
      unfold cycle
      rw [off]
      rfl

/-- The batch is as good as its cycles: where it stops the timer, no cycle is left
over, and a periodic timer stops at its first match and at the very end. -/
def Exact (t : HardwareTimer) (cycles : Nat) : Prop :=
  t.Stops (t.ticksIn cycles) ->
    t.phaseIn cycles = 0 ∧ (t.mode = 0 ∨ t.ticksIn cycles = t.firstMatch ∨ u64Max ≤ t.counter + t.firstMatch)

/-- A periodic timer whose registers show no difference between stopping one tick at
a time and stopping at once. -/
theorem stop_shows (lawful : t.Lawful) (periodic : t.mode = 1) {all : Nat} (reached : ticks + 1 ≤ all)
    (before : ¬ t.Stops ticks) (stops : t.Stops (ticks + 1))
    (counts : ((t.advance ticks).advance 1).counter = (t.advance all).counter)
    (compares : ((t.advance ticks).advance 1).compare = (t.advance all).compare) :
    all = t.firstMatch ∨ u64Max ≤ t.counter + t.firstMatch := by
  have other : t.mode ≠ 0 := by omega
  obtain ⟨past, ends⟩ := (stops.mono reached).periodic periodic
  have closed := advance_periodic_match lawful periodic past
  rw [if_pos ends] at closed
  rw [advance_stop lawful before stops, if_neg other, closed] at counts compares
  by_cases at_first : ticks + 1 = t.firstMatch
  · rw [if_pos at_first] at counts
    change min (t.counter + t.firstMatch) u64Max = min (t.counter + all) u64Max at counts
    omega
  · -- the timer reloaded before it stopped, which the batch does not do
    have past_before : t.firstMatch ≤ ticks := by
      have first := (stops.periodic periodic).1
      omega
    obtain ⟨reloads, -, -, -⟩ := advance_periodic_goes lawful periodic past_before before
    have ahead := lt_nextCompare reloads (le_of_firstMatch past_before)
    have behind := le_of_firstMatch past_before
    rw [if_neg at_first] at compares
    change t.nextCompare (t.counter + ticks) = t.compare at compares
    omega

/-- A periodic timer that stops within a batch, one tick at a time and at once. -/
theorem stop_eq_iff (lawful : t.Lawful) (periodic : t.mode = 1) {all : Nat} (reached : ticks + 1 ≤ all)
    (before : ¬ t.Stops ticks) (stops : t.Stops (ticks + 1)) :
    (t.advance ticks).advance 1 = t.advance all ↔ all = t.firstMatch ∨ u64Max ≤ t.counter + t.firstMatch := by
  constructor
  · intro same
    exact stop_shows lawful periodic reached before stops (congrArg HardwareTimer.counter same)
      (congrArg HardwareTimer.compare same)
  · intro ends_first
    have other : t.mode ≠ 0 := by omega
    obtain ⟨past, ends⟩ := (stops.mono reached).periodic periodic
    have closed := advance_periodic_match lawful periodic past
    rw [if_pos ends] at closed
    have at_first : ticks + 1 = t.firstMatch := by
      by_contra later
      have past_before : t.firstMatch ≤ ticks := by
        have first := (stops.periodic periodic).1
        omega
      obtain ⟨-, small, -, -⟩ := advance_periodic_goes lawful periodic past_before before
      omega
    have counts : min (t.counter + t.firstMatch) u64Max = min (t.counter + all) u64Max := by omega
    rw [advance_stop lawful before stops, if_neg other, if_pos at_first, closed, counts]

/-- Timers that differ in their phase alone. -/
theorem eq_of_phase {v : HardwareTimer} {first second : Nat}
    (same : ({ u with prescalerPhase := first } : HardwareTimer) = { v with prescalerPhase := second })
    (phase : u.prescalerPhase = v.prescalerPhase) : u = v := by
  obtain ⟨control, counter, compare, reload, rate, -, pending, armed⟩ := HardwareTimer.mk.inj same
  exact HardwareTimer.ext control counter compare reload rate phase pending armed

/-- A batch leaves a running timer as its cycles do exactly if it is `Exact`. -/
theorem passCycles_iff (lawful : t.Lawful) (running : t.enabled = true) (bound : cycles ≤ u64Max) :
    cycle^[cycles] t = t.passCycles cycles ↔ t.Exact cycles := by
  rw [passCycles_eq lawful bound]
  rcases cycle_iterate lawful running cycles with ⟨goes, passes⟩ | ⟨ticks, reached, before, stops, stays⟩
  · exact ⟨fun _ stops => absurd stops goes, fun _ => passes⟩
  · have stops_all := stops.mono reached
    rw [stays]
    have parts : ({ (t.advance ticks).advance 1 with prescalerPhase := 0 } : HardwareTimer) = t.passed cycles ↔
        t.phaseIn cycles = 0 ∧ (t.advance ticks).advance 1 = t.advance (t.ticksIn cycles) := by
      have phase_ticks : ∀ count, (t.advance count).prescalerPhase = t.prescalerPhase := by
        intro count
        have same := congrArg HardwareTimer.prescalerPhase (advance_phase (t := t) t.prescalerPhase count)
        exact same
      have phase_again : ((t.advance ticks).advance 1).prescalerPhase = t.prescalerPhase := by
        have same := congrArg HardwareTimer.prescalerPhase
          (advance_phase (t := t.advance ticks) (t.advance ticks).prescalerPhase 1)
        exact same.trans (phase_ticks ticks)
      constructor
      · intro same
        exact ⟨(congrArg HardwareTimer.prescalerPhase same).symm,
          eq_of_phase same (phase_again.trans (phase_ticks _).symm)⟩
      · rintro ⟨none_left, same⟩
        unfold passed
        rw [none_left, same]
    rw [parts]
    rcases stops with ⟨oneShot, past⟩ | ⟨periodic, past, ends⟩
    · have tick := advance_stop lawful before (.inl ⟨oneShot, past⟩)
      rw [if_pos oneShot, advance_oneShot_match oneShot past, ← advance_oneShot_match oneShot (Nat.le_trans past reached)] at tick
      exact ⟨fun both _ => ⟨both.1, .inl oneShot⟩, fun exact_batch => ⟨(exact_batch stops_all).1, tick⟩⟩
    · rw [stop_eq_iff lawful periodic reached before (.inr ⟨periodic, past, ends⟩)]
      constructor
      · exact fun both _ => ⟨both.1, .inr both.2⟩
      · intro exact_batch
        obtain ⟨none_left, either⟩ := exact_batch stops_all
        refine ⟨none_left, either.resolve_left (fun oneShot => ?_)⟩
        omega

/-- A batch whose outcome shows in no register and no phase is `Exact`. -/
theorem exact_of_shows (lawful : t.Lawful) (running : t.enabled = true) (bound : cycles ≤ u64Max)
    (counts : (cycle^[cycles] t).counter = (t.passCycles cycles).counter)
    (compares : (cycle^[cycles] t).compare = (t.passCycles cycles).compare)
    (phases : (cycle^[cycles] t).prescalerPhase = (t.passCycles cycles).prescalerPhase) : t.Exact cycles := by
  intro stops_all
  rw [passCycles_eq lawful bound] at counts compares phases
  rcases cycle_iterate lawful running cycles with ⟨goes, -⟩ | ⟨ticks, reached, before, stops, stays⟩
  · exact absurd stops_all goes
  · rw [stays] at counts compares phases
    refine ⟨phases.symm, ?_⟩
    rcases stops with ⟨oneShot, -⟩ | ⟨periodic, past, ends⟩
    · exact .inl oneShot
    · exact .inr (stop_shows lawful periodic reached before (.inr ⟨periodic, past, ends⟩) counts compares)

/-!
## When a timer matches

The cycle at which a running timer's match becomes pending, and that
`cycles_until_match` tells it.
-/

/-- The tick of the next match, if there will be one. -/
def matchTicks (t : HardwareTimer) : Option Nat :=
  if t.mode = 0 ∨ t.mode = 1 then some t.firstMatch
  else if t.mode = 2 ∧ t.compareArmed = true then some t.distance
  else none

/-- The cycle that brings so many ticks. -/
def cycleOf (t : HardwareTimer) (ticks : Nat) : Nat :=
  t.prescaler + 1 - t.prescalerPhase + (ticks - 1) * (t.prescaler + 1)

theorem distance_pos : 0 < t.distance := by
  unfold distance
  dsimp only
  split <;> omega

theorem matchTicks_pos (next : t.matchTicks = some ticks) : 0 < ticks := by
  unfold matchTicks at next
  split_ifs at next
  · exact Option.some.inj next ▸ firstMatch_pos
  · exact Option.some.inj next ▸ distance_pos

/-- A tick has come once its cycle has. -/
theorem le_ticksIn (lawful : t.Lawful) (some_ticks : 0 < ticks) :
    ticks ≤ t.ticksIn cycles ↔ t.cycleOf ticks ≤ cycles := by
  have phase := lawful.phase_le
  obtain ⟨before, rfl⟩ := Nat.exists_eq_succ_of_ne_zero (Nat.ne_of_gt some_ticks)
  unfold ticksIn cycleOf
  rw [Nat.le_div_iff_mul_le (show 0 < t.prescaler + 1 from Nat.succ_pos _), Nat.succ_mul, Nat.succ_sub_one]
  omega

/-- The ticks that make a match pending. -/
theorem advance_pending (lawful : t.Lawful) (goes : ¬ t.Stops ticks) (clear : t.pending = false) :
    (t.advance ticks).pending = true ↔ ∃ first, t.matchTicks = some first ∧ first ≤ ticks := by
  rcases (by omega : t.mode = 0 ∨ t.mode = 1 ∨ t.mode = 2 ∨ 3 ≤ t.mode) with oneShot | periodic | free | off
  · have early : ticks < t.firstMatch := Nat.not_le.mp fun past => goes (.inl ⟨oneShot, past⟩)
    have next : t.matchTicks = some t.firstMatch := if_pos (.inl oneShot)
    rw [advance_oneShot_early oneShot early]
    show t.pending = true ↔ _
    rw [clear, next]
    constructor
    · exact fun absurd_flag => Bool.noConfusion absurd_flag
    · rintro ⟨first, same, le⟩
      exact absurd (Option.some.inj same ▸ le) (Nat.not_le.mpr early)
  · have next : t.matchTicks = some t.firstMatch := if_pos (.inr periodic)
    by_cases early : ticks < t.firstMatch
    · rw [advance_periodic_early lawful periodic early]
      show t.pending = true ↔ _
      rw [clear, next]
      constructor
      · exact fun absurd_flag => Bool.noConfusion absurd_flag
      · rintro ⟨first, same, le⟩
        exact absurd (Option.some.inj same ▸ le) (Nat.not_le.mpr early)
    · obtain ⟨-, -, -, closed⟩ := advance_periodic_goes lawful periodic (Nat.not_lt.mp early) goes
      rw [closed]
      exact ⟨fun _ => ⟨_, next, Nat.not_lt.mp early⟩, fun _ => rfl⟩
  · have first : ¬ (t.mode = 0 ∨ t.mode = 1) := by omega
    rw [advance_freeRunning lawful free]
    show (t.pending || t.compareArmed && decide (t.distance ≤ ticks)) = true ↔ _
    rw [clear, Bool.false_or, Bool.and_eq_true, decide_eq_true_iff]
    unfold matchTicks
    rw [if_neg first]
    constructor
    · rintro ⟨armed, le⟩
      exact ⟨t.distance, if_pos ⟨free, armed⟩, le⟩
    · rintro ⟨ticks, next, le⟩
      split_ifs at next with armed
      exact ⟨armed.2, Option.some.inj next ▸ le⟩
  · rw [advance_off off, clear]
    unfold matchTicks
    rw [if_neg (by omega), if_neg (by omega)]
    constructor
    · exact fun absurd_flag => Bool.noConfusion absurd_flag
    · rintro ⟨first, same, -⟩
      exact absurd same.symm (Option.some_ne_none _)

/-- A running timer's match is pending from its cycle on. -/
theorem pending_iterate (lawful : t.Lawful) (running : t.enabled = true) (clear : t.pending = false) (cycles : Nat) :
    (cycle^[cycles] t).pending = true ↔ ∃ first, t.matchTicks = some first ∧ t.cycleOf first ≤ cycles := by
  have turn : (∃ first, t.matchTicks = some first ∧ t.cycleOf first ≤ cycles) ↔
      ∃ first, t.matchTicks = some first ∧ first ≤ t.ticksIn cycles := by
    constructor
    · rintro ⟨first, next, le⟩
      exact ⟨first, next, (le_ticksIn lawful (matchTicks_pos next)).mpr le⟩
    · rintro ⟨first, next, le⟩
      exact ⟨first, next, (le_ticksIn lawful (matchTicks_pos next)).mp le⟩
  rw [turn]
  rcases cycle_iterate lawful running cycles with ⟨goes, passes⟩ | ⟨ticks, reached, before, stops, stays⟩
  · rw [passes]
    exact advance_pending lawful goes clear
  · rw [stays]
    have flag := (stopped lawful before stops).2.1
    refine ⟨fun _ => ⟨t.firstMatch, ?_, ?_⟩, fun _ => flag⟩
    · rcases stops with ⟨oneShot, -⟩ | ⟨periodic, -⟩
      · exact if_pos (.inl oneShot)
      · exact if_pos (.inr periodic)
    · rcases stops with ⟨-, past⟩ | ⟨-, past, -⟩
      · exact Nat.le_trans past reached
      · exact Nat.le_trans past reached

/-- Cycles do not change whether a timer may interrupt. -/
theorem irqEnabled_iterate (lawful : t.Lawful) (cycles : Nat) : (cycle^[cycles] t).irqEnabled = t.irqEnabled := by
  by_cases running : t.enabled = true
  · rcases cycle_iterate lawful running cycles with ⟨goes, passes⟩ | ⟨ticks, -, before, stops, stays⟩
    · rw [passes]
      exact irqEnabled_congr (passed_lawful lawful goes).2.1
    · rw [stays]
      exact (stopped lawful before stops).2.2
  · have fixed : cycle t = t := if_neg running
    rw [Function.iterate_fixed fixed]

/-- `cycles_until_match` in terms of the cycle of the next match. -/
theorem cyclesUntilMatch_eq :
    t.cyclesUntilMatch =
      if t.enabled = false ∨ t.irqEnabled = false ∨ t.pending = true then none
      else t.matchTicks.map fun ticks => min (t.cycleOf ticks) u64Max := by
  have first : (if t.counter < t.compare then t.compare - t.counter else 1) = t.firstMatch := by
    unfold firstMatch
    split <;> omega
  unfold cyclesUntilMatch matchTicks
  dsimp only
  rw [first]
  rfl

end Src32.Devices.HardwareTimer
