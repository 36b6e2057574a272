import Src32.Devices.Rtc

namespace Src32.Devices.Rtc

/-!
# A batch of cycles of the clock

Outside real-time mode a batch leaves the clock as its cycles one by one do, unless
it goes beyond the last second the clock can show and not by whole seconds.
-/

variable {r : Rtc}

/-- The clock and nothing else some cycles later, as the single cycles count it. -/
def elapse (r : Rtc) (cycles : Nat) : Rtc :=
  if r.enabled then
    { r with
      seconds := min (r.seconds + (r.subsecondCycles + cycles) / masterClock) u64Max
      subsecondCycles := (r.subsecondCycles + cycles) % masterClock }
  else r

/-- The alarm behind cycles that pass outside real-time mode. -/
def settle (r : Rtc) : Rtc :=
  if r.enabled = true ∧ r.alarmArmed = true ∧ r.alarmPending = false ∧ r.alarmSeconds ≤ r.seconds then
    { r with hostAlarmPollCycles := 0, alarmPending := true, alarmArmed := false }
  else { r with hostAlarmPollCycles := 0 }

/-- One cycle, outside real-time mode. -/
def cycle (r : Rtc) : Rtc := r.advance 0 1

/-- The batch does not pass the last second, or it leaves no part of a second. -/
def Exact (r : Rtc) (cycles : Nat) : Prop :=
  r.enabled = true -> (r.subsecondCycles + cycles) / masterClock ≤ u64Max - r.seconds ∨
    (r.subsecondCycles + cycles) % masterClock = 0

theorem elapse_fields (cycles : Nat) : (r.elapse cycles).control = r.control ∧
    (r.elapse cycles).alarmSeconds = r.alarmSeconds ∧ (r.elapse cycles).alarmArmed = r.alarmArmed ∧
    (r.elapse cycles).alarmPending = r.alarmPending := by
  unfold elapse
  split
  · exact ⟨rfl, rfl, rfl, rfl⟩
  · exact ⟨rfl, rfl, rfl, rfl⟩

theorem enabled_congr {c : Rtc} (same : c.control = r.control) : c.enabled = r.enabled := by
  unfold enabled
  rw [same]

theorem realtime_congr {c : Rtc} (same : c.control = r.control) : c.realtime = r.realtime := by
  unfold realtime
  rw [same]

/-- The alarm of a batch outside real-time mode does not depend on the host. -/
theorem pollAlarm_eq (apart : r.realtime = false) (seconds_le : r.seconds ≤ u64Max)
    (sub_lt : r.subsecondCycles < masterClock) (cycles : Nat) (host : Int) : r.pollAlarm cycles host = r.settle := by
  have no_poll : ¬ (r.enabled = true ∧ r.realtime = true ∧ r.alarmArmed = true ∧ r.alarmPending = false ∧ cycles ≠ 0) := by
    rintro ⟨-, real, -⟩
    rw [apart] at real
    exact Bool.noConfusion real
  unfold pollAlarm settle checkAlarm
  dsimp only
  rw [if_neg no_poll, currentSeconds_eq (r := { r with hostAlarmPollCycles := 0 }) seconds_le sub_lt (fun _ => apart)]
  rfl

/-- What a batch does outside real-time mode. -/
theorem advance_eq (lawful : r.Lawful) (apart : r.realtime = false) (cycles : Nat) (host : Int) :
    r.advance host cycles = (r.advanceClock cycles).settle := by
  obtain ⟨seconds_le, sub_lt, -, -, -, control, -⟩ := advanceClock_fields lawful cycles
  exact pollAlarm_eq ((realtime_congr control).trans apart) seconds_le sub_lt cycles host

/-- The clock behind a batch that does not pass the last second. -/
theorem advanceClock_eq (lawful : r.Lawful) (apart : r.realtime = false) {cycles : Nat}
    (within : r.enabled = true -> (r.subsecondCycles + cycles) / masterClock ≤ u64Max - r.seconds) :
    r.advanceClock cycles = r.elapse cycles := by
  have small := lawful.seconds_le
  unfold advanceClock elapse
  dsimp only
  cases on : r.enabled with
  | false =>
    rw [if_neg (fun fast => Bool.noConfusion fast.2.1), if_neg (fun counts => Bool.noConfusion counts.2.1)]
    rfl
  | true =>
    have room := within on
    rw [if_pos rfl]
    by_cases none : cycles = 0
    · subst none
      rw [if_neg (fun fast => fast.1 rfl), if_neg (fun counts => counts.1 rfl), Nat.add_zero,
        Nat.div_eq_of_lt lawful.sub_lt, Nat.mod_eq_of_lt lawful.sub_lt, Nat.add_zero, min_eq_left small]
    · by_cases fast : r.subsecondCycles + cycles ≤ u64Max ∧ r.subsecondCycles + cycles < masterClock
      · rw [if_pos ⟨none, rfl, apart, fast.1, fast.2⟩, Nat.div_eq_of_lt fast.2, Nat.mod_eq_of_lt fast.2, Nat.add_zero,
          min_eq_left small]
      · rw [if_neg (fun all => fast ⟨all.2.2.2.1, all.2.2.2.2⟩), if_pos ⟨none, rfl, apart⟩, if_neg (Nat.not_lt.mpr room),
          min_eq_left (by omega)]

theorem one_div_masterClock (lawful : r.Lawful) : (r.subsecondCycles + 1) / masterClock ≤ 1 := by
  have small := lawful.sub_lt
  have bound : r.subsecondCycles + 1 ≤ masterClock * 1 := by omega
  exact Nat.div_le_of_le_mul bound

/-- One cycle counts as the single cycles do, also at the last second. -/
theorem advanceClock_one (lawful : r.Lawful) (apart : r.realtime = false) : r.advanceClock 1 = r.elapse 1 := by
  by_cases within : (r.subsecondCycles + 1) / masterClock ≤ u64Max - r.seconds
  · exact advanceClock_eq lawful apart (fun _ => within)
  · -- the clock is at its last second and the cycle completes it
    have small := lawful.seconds_le
    have sub := lawful.sub_lt
    have one := one_div_masterClock lawful
    have passes : (r.subsecondCycles + 1) / masterClock = 1 := by omega
    have full : r.subsecondCycles + 1 = masterClock := by
      have whole := Nat.div_add_mod (r.subsecondCycles + 1) masterClock
      rw [passes, Nat.mul_one] at whole
      omega
    unfold advanceClock elapse
    dsimp only
    cases on : r.enabled with
    | false =>
      rw [if_neg (fun fast => Bool.noConfusion fast.2.1), if_neg (fun counts => Bool.noConfusion counts.2.1)]
      rfl
    | true =>
      rw [if_neg (fun fast => absurd fast.2.2.2.2 (by omega)), if_pos ⟨Nat.one_ne_zero, rfl, apart⟩,
        if_pos (Nat.not_le.mp within), passes, full, Nat.mod_self, if_pos rfl, min_eq_right (by omega)]

theorem div_mod_more (sub cycles : Nat) : (sub + cycles) % masterClock + 1 + masterClock * ((sub + cycles) / masterClock) =
    sub + (cycles + 1) := by
  have whole := Nat.div_add_mod (sub + cycles) masterClock
  omega

theorem min_add_min (a b c bound : Nat) : min (min (a + b) bound + c) bound = min (a + (b + c)) bound := by
  omega

/-- Cycles and one more are one cycle more. -/
theorem elapse_succ (cycles : Nat) : (r.elapse cycles).elapse 1 = r.elapse (cycles + 1) := by
  cases on : r.enabled with
  | false =>
    have stays : ∀ count, r.elapse count = r := fun count => if_neg (by rw [on]; exact Bool.noConfusion)
    rw [stays, stays, stays]
  | true =>
    have again : (r.elapse cycles).enabled = true := (enabled_congr (elapse_fields cycles).1).trans on
    have counted : ∀ {c : Rtc}, c.enabled = true -> ∀ count, c.elapse count =
        { c with
          seconds := min (c.seconds + (c.subsecondCycles + count) / masterClock) u64Max
          subsecondCycles := (c.subsecondCycles + count) % masterClock } :=
      fun on count => if_pos on
    rw [counted again, counted on (cycles + 1), counted on cycles]
    dsimp only
    have more := div_mod_more r.subsecondCycles cycles
    have seconds : (r.subsecondCycles + (cycles + 1)) / masterClock =
        (r.subsecondCycles + cycles) / masterClock + ((r.subsecondCycles + cycles) % masterClock + 1) / masterClock := by
      rw [← more, Nat.add_mul_div_left _ _ masterClock_pos, Nat.add_comm]
    have rest : (r.subsecondCycles + (cycles + 1)) % masterClock =
        ((r.subsecondCycles + cycles) % masterClock + 1) % masterClock := by
      rw [← more, Nat.add_mul_mod_self_left]
    have top : min (min (r.seconds + (r.subsecondCycles + cycles) / masterClock) u64Max +
          ((r.subsecondCycles + cycles) % masterClock + 1) / masterClock) u64Max =
        min (r.seconds + (r.subsecondCycles + (cycles + 1)) / masterClock) u64Max := by
      rw [seconds]
      exact min_add_min _ _ _ _
    rw [top, rest]

theorem elapse_lawful (lawful : r.Lawful) (cycles : Nat) :
    (r.elapse cycles).seconds ≤ u64Max ∧ (r.elapse cycles).subsecondCycles < masterClock ∧
      r.seconds ≤ (r.elapse cycles).seconds := by
  have small := lawful.seconds_le
  unfold elapse
  split
  · refine ⟨min_le_right _ _, Nat.mod_lt _ masterClock_pos, ?_⟩
    exact le_min (Nat.le_add_right _ _) small
  · exact ⟨small, lawful.sub_lt, Nat.le_refl _⟩

theorem settle_fields : r.settle.control = r.control ∧ r.settle.seconds = r.seconds ∧
    r.settle.subsecondCycles = r.subsecondCycles ∧ r.settle.alarmSeconds = r.alarmSeconds := by
  unfold settle
  split
  · exact ⟨rfl, rfl, rfl, rfl⟩
  · exact ⟨rfl, rfl, rfl, rfl⟩

/-- An alarm that is due does not wait for a later check. -/
theorem settle_elapse (cycles : Nat) (small : r.seconds ≤ u64Max) :
    (r.settle.elapse cycles).settle = (r.elapse cycles).settle := by
  by_cases due : r.enabled = true ∧ r.alarmArmed = true ∧ r.alarmPending = false ∧ r.alarmSeconds ≤ r.seconds
  · obtain ⟨on, armed, clear, reached⟩ := due
    have first : r.settle = { r with hostAlarmPollCycles := 0, alarmPending := true, alarmArmed := false } :=
      if_pos ⟨on, armed, clear, reached⟩
    have later : (r.elapse cycles) =
        { r with
          seconds := min (r.seconds + (r.subsecondCycles + cycles) / masterClock) u64Max
          subsecondCycles := (r.subsecondCycles + cycles) % masterClock } := if_pos on
    have reached' : r.alarmSeconds ≤ min (r.seconds + (r.subsecondCycles + cycles) / masterClock) u64Max :=
      le_min (Nat.le_trans reached (Nat.le_add_right _ _)) (Nat.le_trans reached small)
    rw [first, later]
    have again : ({ r with hostAlarmPollCycles := 0, alarmPending := true, alarmArmed := false } : Rtc).elapse cycles =
        { r with
          hostAlarmPollCycles := 0
          alarmPending := true
          alarmArmed := false
          seconds := min (r.seconds + (r.subsecondCycles + cycles) / masterClock) u64Max
          subsecondCycles := (r.subsecondCycles + cycles) % masterClock } := if_pos on
    rw [again]
    unfold settle
    dsimp only
    rw [if_neg (fun due => Bool.noConfusion due.2.1), if_pos ⟨on, armed, clear, reached'⟩]
  · have first : r.settle = { r with hostAlarmPollCycles := 0 } := if_neg due
    rw [first]
    unfold elapse
    split
    · next on =>
        have on' : r.enabled = true := on
        rw [if_pos on']
        rfl
    · next off =>
        have off' : ¬ r.enabled = true := off
        rw [if_neg off']
        rfl

theorem cycle_eq (lawful : r.Lawful) (apart : r.realtime = false) : r.cycle = (r.elapse 1).settle := by
  unfold cycle
  rw [advance_eq lawful apart, advanceClock_one lawful apart]

theorem cycle_keeps (lawful : r.Lawful) (apart : r.realtime = false) : r.cycle.Lawful ∧ r.cycle.control = r.control := by
  refine ⟨advance_lawful lawful 0 1, ?_⟩
  rw [cycle_eq lawful apart, settle_fields.1, (elapse_fields 1).1]

/-- Single cycles outside real-time mode. -/
theorem cycle_iterate (lawful : r.Lawful) (apart : r.realtime = false) (cycles : Nat) :
    cycle^[cycles + 1] r = (r.elapse (cycles + 1)).settle := by
  have keeps : ∀ count, (cycle^[count] r).Lawful ∧ (cycle^[count] r).control = r.control := by
    intro count
    induction count with
    | zero => exact ⟨lawful, rfl⟩
    | succ count ih =>
      rw [Function.iterate_succ_apply']
      obtain ⟨next, control⟩ := cycle_keeps ih.1 ((realtime_congr ih.2).trans apart)
      exact ⟨next, control.trans ih.2⟩
  induction cycles with
  | zero => exact cycle_eq lawful apart
  | succ cycles ih =>
    have before := keeps (cycles + 1)
    rw [Function.iterate_succ_apply', cycle_eq before.1 ((realtime_congr before.2).trans apart), ih,
      settle_elapse 1 (elapse_lawful lawful _).1, elapse_succ]

/-- A batch of no cycles does nothing to a lawful clock but to restart the polls. -/
theorem advance_zero (lawful : r.Lawful) (apart : r.realtime = false) (host : Int) :
    r.advance host 0 = { r with hostAlarmPollCycles := 0 } := by
  have none : r.advanceClock 0 = r := by
    unfold advanceClock
    dsimp only
    rw [if_neg (fun fast => fast.1 rfl), if_neg (fun counts => counts.1 rfl)]
  rw [advance_eq lawful apart, none]
  refine if_neg ?_
  rintro ⟨on, armed, -, due⟩
  exact absurd due (Nat.not_le.mpr (lawful.ahead on apart armed))

/-- The clock behind a batch that passes the last second. -/
theorem advanceClock_over (apart : r.realtime = false) (on : r.enabled = true) {cycles : Nat}
    (passes : ¬ (r.subsecondCycles + (cycles + 1)) / masterClock ≤ u64Max - r.seconds) :
    r.advanceClock (cycles + 1) = { r with seconds := u64Max, subsecondCycles := 0 } := by
  have slow : ¬ r.subsecondCycles + (cycles + 1) < masterClock := by
    intro fast
    rw [Nat.div_eq_of_lt fast] at passes
    exact passes (Nat.zero_le _)
  unfold advanceClock
  dsimp only
  rw [if_neg (fun fast => slow fast.2.2.2.2), if_pos ⟨Nat.succ_ne_zero _, on, apart⟩, if_pos (Nat.not_le.mp passes)]

/-- A batch leaves the clock as its cycles do exactly if it is `Exact`. -/
theorem advance_iff (lawful : r.Lawful) (apart : r.realtime = false) (cycles : Nat) (host : Int) :
    cycle^[cycles + 1] r = r.advance host (cycles + 1) ↔ r.Exact (cycles + 1) := by
  rw [cycle_iterate lawful apart, advance_eq lawful apart]
  by_cases within : r.enabled = true -> (r.subsecondCycles + (cycles + 1)) / masterClock ≤ u64Max - r.seconds
  · rw [advanceClock_eq lawful apart within]
    exact ⟨fun _ on => .inl (within on), fun _ => rfl⟩
  · -- the batch passes the last second
    obtain ⟨on, passes⟩ := Classical.not_imp.mp within
    have small := lawful.seconds_le
    have counted : r.elapse (cycles + 1) =
        { r with seconds := u64Max, subsecondCycles := (r.subsecondCycles + (cycles + 1)) % masterClock } := by
      unfold elapse
      rw [if_pos on, min_eq_right (by omega)]
    have at_once := advanceClock_over apart on passes
    constructor
    · intro same _
      have parts := congrArg Rtc.subsecondCycles same
      rw [settle_fields.2.2.1, settle_fields.2.2.1, counted, at_once] at parts
      exact .inr parts
    · intro exact_batch
      rw [counted, at_once, (exact_batch on).resolve_left passes]

/-! ## The alarm -/

/-- The cycle at which an armed alarm becomes pending. -/
def alarmCycle (r : Rtc) : Nat :=
  if r.alarmSeconds - r.seconds = 0 then 1 else (r.alarmSeconds - r.seconds) * masterClock - r.subsecondCycles

/-- The alarm will become pending outside real-time mode. -/
def AlarmComing (r : Rtc) : Prop := r.enabled = true ∧ r.alarmPending = false ∧ r.alarmArmed = true

theorem alarmCycle_pos (lawful : r.Lawful) : 0 < r.alarmCycle := by
  have sub := lawful.sub_lt
  unfold alarmCycle
  split
  · exact Nat.one_pos
  · next some_seconds =>
      have more : masterClock ≤ (r.alarmSeconds - r.seconds) * masterClock :=
        Nat.le_mul_of_pos_left _ (Nat.pos_of_ne_zero some_seconds)
      omega

/-- An armed alarm is pending from its cycle on. -/
theorem alarm_iterate (lawful : r.Lawful) (apart : r.realtime = false) (clear : r.alarmPending = false) (cycles : Nat) :
    (cycle^[cycles] r).alarmPending = true ↔ r.AlarmComing ∧ r.alarmCycle ≤ cycles := by
  cases cycles with
  | zero =>
    show r.alarmPending = true ↔ _
    have later := alarmCycle_pos lawful
    rw [clear]
    exact ⟨fun set => Bool.noConfusion set, fun both => absurd both.2 (Nat.not_le.mpr later)⟩
  | succ cycles =>
    obtain ⟨control, alarm, armed, pending⟩ := elapse_fields (r := r) (cycles + 1)
    have on : (r.elapse (cycles + 1)).enabled = r.enabled := enabled_congr control
    rw [cycle_iterate lawful apart]
    have turn : (r.elapse (cycles + 1)).settle.alarmPending = true ↔
        r.enabled = true ∧ r.alarmArmed = true ∧ r.alarmPending = false ∧
          r.alarmSeconds ≤ (r.elapse (cycles + 1)).seconds := by
      rw [← on, ← alarm, ← armed, ← pending]
      unfold settle
      split
      · next due => exact ⟨fun _ => due, fun _ => rfl⟩
      · next early =>
          refine ⟨fun set => ?_, fun due => absurd due early⟩
          change (r.elapse (cycles + 1)).alarmPending = true at set
          rw [pending, clear] at set
          exact Bool.noConfusion set
    rw [turn]
    have small := lawful.seconds_le
    have bound := lawful.alarm_le
    have sub := lawful.sub_lt
    have reached : r.enabled = true -> (r.alarmSeconds ≤ (r.elapse (cycles + 1)).seconds ↔ r.alarmCycle ≤ cycles + 1) := by
      intro on
      have counted : (r.elapse (cycles + 1)).seconds =
          min (r.seconds + (r.subsecondCycles + (cycles + 1)) / masterClock) u64Max := by
        unfold elapse
        rw [if_pos on]
      rw [counted]
      unfold alarmCycle
      split
      · next past =>
          refine ⟨fun _ => Nat.succ_pos _, fun _ => ?_⟩
          exact le_min (Nat.le_trans (Nat.sub_eq_zero_iff_le.mp past) (Nat.le_add_right _ _)) bound
      · next some_seconds =>
          have whole : r.alarmSeconds - r.seconds ≤ (r.subsecondCycles + (cycles + 1)) / masterClock ↔
              (r.alarmSeconds - r.seconds) * masterClock ≤ r.subsecondCycles + (cycles + 1) :=
            Nat.le_div_iff_mul_le masterClock_pos
          rw [le_min_iff, and_iff_left bound, ← Nat.sub_le_iff_le_add', whole, Nat.sub_le_iff_le_add']
    unfold AlarmComing
    constructor
    · rintro ⟨on, set, quiet, due⟩
      exact ⟨⟨on, quiet, set⟩, (reached on).mp due⟩
    · rintro ⟨⟨on, quiet, set⟩, due⟩
      exact ⟨on, set, quiet, (reached on).mpr due⟩

end Src32.Devices.Rtc
