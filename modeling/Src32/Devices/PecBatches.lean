import Mathlib.Data.Nat.Find
import Src32.Devices.PecTiming

namespace Src32.Devices.PecTiming

/-!
# Batches of cycles of the timing unit

The timers and the clock do not touch each other, so a batch is as good as its
single cycles where it is for each of them.  The least of their deadlines is the
cycle at which the unit interrupts.
-/

variable {s : PecTiming}

/-- Single cycles, each with a reading of the host's clock. -/
def singles (hosts : List Int) (s : PecTiming) : PecTiming :=
  hosts.foldl (fun s host => s.advanceSystemCycles host 1) s

/-- Batches of cycles, each with a reading of the host's clock. -/
def batches (parts : List (BitVec 64 × Int)) (s : PecTiming) : PecTiming :=
  parts.foldl (fun s part => s.advanceSystemCycles part.2 part.1.toNat) s

/-- One cycle outside real-time mode. -/
def cycle (s : PecTiming) : PecTiming := s.advanceSystemCycles 0 1

/-- The batch is as good as its cycles for each timer that counts and for the clock;
an empty one has no poll of the host to restart. -/
def ExactBatch (s : PecTiming) (cycles : Nat) : Prop :=
  (∀ channel, s.Running channel -> (s.timers channel).Exact cycles) ∧ s.rtc.Exact cycles ∧
    (cycles = 0 -> s.rtc.hostAlarmPollCycles = 0)

/-- Each batch is as good as its cycles in the state before it. -/
def ExactAlong (s : PecTiming) : List (BitVec 64 × Int) -> Prop
  | [] => True
  | part :: rest => s.ExactBatch part.1.toNat ∧ ExactAlong (s.advanceSystemCycles part.2 part.1.toNat) rest

/-! ## Single cycles -/

/-- Outside real-time mode the host's clock is of no concern. -/
theorem advance_host (lawful : s.Lawful) (apart : s.rtc.realtime = false) (host : Int) (cycles : Nat) :
    s.advanceSystemCycles host cycles = s.advanceSystemCycles 0 cycles := by
  have clock : s.rtc.advance host cycles = s.rtc.advance 0 cycles := by
    rw [Rtc.advance_eq lawful.rtc apart, Rtc.advance_eq lawful.rtc apart]
  unfold advanceSystemCycles
  rw [clock]

/-- Cycles do not enter real-time mode. -/
theorem advance_apart (lawful : s.Lawful) (apart : s.rtc.realtime = false) (host : Int) (cycles : Nat) :
    (s.advanceSystemCycles host cycles).rtc.realtime = false := by
  have control : (s.rtc.advance host cycles).control = s.rtc.control := by
    rw [Rtc.advance_eq lawful.rtc apart, Rtc.settle_fields.1]
    exact (Rtc.advanceClock_fields lawful.rtc cycles).2.2.2.2.2.1
  exact (Rtc.realtime_congr control).trans apart

theorem cycle_lawful (lawful : s.Lawful) : s.cycle.Lawful := advance_lawful lawful 0 HardwareTimer.one_le_u64Max

theorem singles_eq (lawful : s.Lawful) (apart : s.rtc.realtime = false) (hosts : List Int) :
    singles hosts s = cycle^[hosts.length] s := by
  induction hosts generalizing s with
  | nil => rfl
  | cons host rest ih =>
    have first : s.advanceSystemCycles host 1 = s.cycle := advance_host lawful apart host 1
    show singles rest (s.advanceSystemCycles host 1) = cycle^[rest.length] s.cycle
    rw [first]
    exact ih (cycle_lawful lawful) (advance_apart lawful apart 0 1)

theorem cycle_timers (channel : Fin 4) : s.cycle.timers channel =
    if s.timerEnable.getLsbD channel.val then HardwareTimer.cycle (s.timers channel) else s.timers channel := by
  show (if s.Running channel then (s.timers channel).passCycles 1 else s.timers channel) = _
  unfold HardwareTimer.cycle
  by_cases bit : s.timerEnable.getLsbD channel.val = true
  · rw [if_pos bit]
    by_cases on : (s.timers channel).enabled = true
    · rw [if_pos on, if_pos ⟨bit, on⟩]
    · rw [if_neg on, if_neg (fun both => on both.2)]
  · rw [if_neg bit, if_neg (fun both => bit both.1)]

/-- The timers and the clock pass single cycles apart from each other. -/
theorem cycle_iterate (cycles : Nat) : cycle^[cycles] s =
    { timers := fun channel =>
        if s.timerEnable.getLsbD channel.val then HardwareTimer.cycle^[cycles] (s.timers channel) else s.timers channel
      timerEnable := s.timerEnable
      rtc := Rtc.cycle^[cycles] s.rtc } := by
  induction cycles with
  | zero =>
    exact PecTiming.ext (funext fun channel => (ite_self _).symm) rfl rfl
  | succ cycles ih =>
    rw [Function.iterate_succ_apply', ih]
    refine PecTiming.ext (funext fun channel => ?_) rfl ?_
    · rw [cycle_timers]
      dsimp only
      by_cases bit : s.timerEnable.getLsbD channel.val = true
      · rw [if_pos bit, if_pos bit, if_pos bit, Function.iterate_succ_apply']
      · rw [if_neg bit, if_neg bit, if_neg bit]
    · show (Rtc.cycle^[cycles] s.rtc).advance 0 1 = _
      rw [Function.iterate_succ_apply']
      rfl

/-! ## Batches -/

/-- A batch is its single cycles exactly if it is `ExactBatch`. -/
theorem advance_iff (lawful : s.Lawful) (apart : s.rtc.realtime = false) (host : Int) {cycles : Nat}
    (bound : cycles ≤ u64Max) : cycle^[cycles] s = s.advanceSystemCycles host cycles ↔ s.ExactBatch cycles := by
  have timers : ∀ channel, (if s.timerEnable.getLsbD channel.val then HardwareTimer.cycle^[cycles] (s.timers channel)
      else s.timers channel) =
        (if s.Running channel then (s.timers channel).passCycles cycles else s.timers channel) ↔
      (s.Running channel -> (s.timers channel).Exact cycles) := by
    intro channel
    by_cases running : s.Running channel
    · rw [if_pos running, if_pos running.1, HardwareTimer.passCycles_iff (lawful.timers channel) running.2 bound]
      exact ⟨fun exact_batch _ => exact_batch, fun exact_batch => exact_batch running⟩
    · rw [if_neg running]
      refine ⟨fun _ on => absurd on running, fun _ => ?_⟩
      split
      · next bit =>
          have fixed : HardwareTimer.cycle (s.timers channel) = s.timers channel :=
            if_neg (fun on => running ⟨bit, on⟩)
          rw [Function.iterate_fixed fixed]
      · rfl
  have clock : Rtc.cycle^[cycles] s.rtc = s.rtc.advance host cycles ↔
      s.rtc.Exact cycles ∧ (cycles = 0 -> s.rtc.hostAlarmPollCycles = 0) := by
    cases cycles with
    | zero =>
      rw [Rtc.advance_zero lawful.rtc apart]
      constructor
      · intro same
        refine ⟨fun _ => .inl ?_, fun _ => congrArg Rtc.hostAlarmPollCycles same⟩
        rw [Nat.add_zero, Nat.div_eq_of_lt lawful.rtc.sub_lt]
        exact Nat.zero_le _
      · rintro ⟨-, polls⟩
        have whole : s.rtc = { s.rtc with hostAlarmPollCycles := s.rtc.hostAlarmPollCycles } := rfl
        rw [polls rfl] at whole
        exact whole
    | succ cycles =>
      rw [Rtc.advance_iff lawful.rtc apart]
      exact ⟨fun exact_batch => ⟨exact_batch, fun none => absurd none (Nat.succ_ne_zero _)⟩, fun both => both.1⟩
  rw [cycle_iterate]
  constructor
  · intro same
    have each : ∀ channel, _ := fun channel => congrFun (congrArg PecTiming.timers same) channel
    exact ⟨fun channel => (timers channel).mp (each channel), clock.mp (congrArg PecTiming.rtc same)⟩
  · rintro ⟨each, parts⟩
    exact PecTiming.ext (funext fun channel => (timers channel).mpr (each channel)) rfl (clock.mpr parts)

/-- Batches that are all as good as their cycles are together as good as all of
them. -/
theorem batches_eq (lawful : s.Lawful) (apart : s.rtc.realtime = false) (parts : List (BitVec 64 × Int))
    (along : s.ExactAlong parts) : batches parts s = cycle^[(parts.map fun part => part.1.toNat).sum] s := by
  induction parts generalizing s with
  | nil => rfl
  | cons part rest ih =>
    obtain ⟨first, later⟩ := along
    have bound := toNat_le_u64Max part.1
    have same := (advance_iff lawful apart part.2 bound).mpr first
    rw [List.map_cons, List.sum_cons, Nat.add_comm, Function.iterate_add_apply, same]
    exact ih (advance_lawful lawful part.2 bound) (advance_apart lawful apart part.2 _) later

/-! ## The next interrupt -/

/-- A cycle at which a timer or the alarm will interrupt. -/
def Deadline (s : PecTiming) (at_cycle : Nat) : Prop :=
  (∃ channel first, s.Running channel ∧ (s.timers channel).irqEnabled = true ∧ (s.timers channel).pending = false ∧
    (s.timers channel).matchTicks = some first ∧ at_cycle = (s.timers channel).cycleOf first) ∨
  s.rtc.AlarmComing ∧ s.rtc.alarmIrqEnabled = true ∧ at_cycle = s.rtc.alarmCycle

theorem irqAsserted_iff : s.irqAsserted = true ↔
    (∃ channel, (s.timers channel).pending = true ∧ (s.timers channel).irqEnabled = true) ∨
      s.rtc.alarmPending = true ∧ s.rtc.alarmIrqEnabled = true := by
  unfold irqAsserted
  rw [Bool.or_eq_true, List.any_eq_true, Bool.and_eq_true]
  simp only [List.mem_finRange, true_and, Bool.and_eq_true]

/-- Cycles do not change which of the clock's interrupts is enabled. -/
theorem alarmIrqEnabled_iterate (lawful : s.Lawful) (apart : s.rtc.realtime = false) (cycles : Nat) :
    (Rtc.cycle^[cycles] s.rtc).alarmIrqEnabled = s.rtc.alarmIrqEnabled := by
  have same : (Rtc.cycle^[cycles] s.rtc).irqControl = s.rtc.irqControl := by
    cases cycles with
    | zero => rfl
    | succ cycles =>
      rw [Rtc.cycle_iterate lawful.rtc apart]
      unfold Rtc.settle Rtc.elapse
      split_ifs
      · rfl
      · rfl
      · rfl
      · rfl
  unfold Rtc.alarmIrqEnabled
  rw [same]

/-- A unit that does not interrupt will do so from the first deadline on. -/
theorem irqAsserted_iterate (lawful : s.Lawful) (apart : s.rtc.realtime = false) (quiet : s.irqAsserted = false)
    (cycles : Nat) : (cycle^[cycles] s).irqAsserted = true ↔ ∃ at_cycle, s.Deadline at_cycle ∧ at_cycle ≤ cycles := by
  have silent : ¬ ((∃ channel, (s.timers channel).pending = true ∧ (s.timers channel).irqEnabled = true) ∨
      s.rtc.alarmPending = true ∧ s.rtc.alarmIrqEnabled = true) := by
    rw [← irqAsserted_iff, quiet]
    exact Bool.noConfusion
  rw [irqAsserted_iff, cycle_iterate]
  dsimp only
  have irqs := alarmIrqEnabled_iterate lawful apart cycles
  have timer : ∀ channel,
      (if s.timerEnable.getLsbD channel.val then HardwareTimer.cycle^[cycles] (s.timers channel)
        else s.timers channel).pending = true ∧
      (if s.timerEnable.getLsbD channel.val then HardwareTimer.cycle^[cycles] (s.timers channel)
        else s.timers channel).irqEnabled = true ↔
      ∃ first, s.Running channel ∧ (s.timers channel).irqEnabled = true ∧ (s.timers channel).pending = false ∧
        (s.timers channel).matchTicks = some first ∧ (s.timers channel).cycleOf first ≤ cycles := by
    intro channel
    have law := lawful.timers channel
    by_cases may : (s.timers channel).irqEnabled = true
    · have clear : (s.timers channel).pending = false := by
        cases flag : (s.timers channel).pending with
        | false => rfl
        | true => exact absurd (.inl ⟨channel, flag, may⟩) silent
      by_cases running : s.Running channel
      · rw [if_pos running.1, HardwareTimer.irqEnabled_iterate law,
          HardwareTimer.pending_iterate law running.2 clear]
        constructor
        · rintro ⟨⟨first, next, le⟩, -⟩
          exact ⟨first, running, may, clear, next, le⟩
        · rintro ⟨first, -, -, -, next, le⟩
          exact ⟨⟨first, next, le⟩, may⟩
      · have stays : (if s.timerEnable.getLsbD channel.val then HardwareTimer.cycle^[cycles] (s.timers channel)
            else s.timers channel) = s.timers channel := by
          split
          · next bit =>
              have fixed : HardwareTimer.cycle (s.timers channel) = s.timers channel :=
                if_neg (fun on => running ⟨bit, on⟩)
              exact Function.iterate_fixed fixed _
          · rfl
        rw [stays, clear]
        exact ⟨fun both => Bool.noConfusion both.1, fun later => absurd later.choose_spec.1 running⟩
    · have never : ¬ (if s.timerEnable.getLsbD channel.val then HardwareTimer.cycle^[cycles] (s.timers channel)
          else s.timers channel).irqEnabled = true := by
        split
        · rw [HardwareTimer.irqEnabled_iterate law]
          exact may
        · exact may
      exact ⟨fun both => absurd both.2 never, fun later => absurd later.choose_spec.2.1 may⟩
  have alarm : (Rtc.cycle^[cycles] s.rtc).alarmPending = true ∧ (Rtc.cycle^[cycles] s.rtc).alarmIrqEnabled = true ↔
      s.rtc.AlarmComing ∧ s.rtc.alarmIrqEnabled = true ∧ s.rtc.alarmCycle ≤ cycles := by
    rw [irqs]
    by_cases may : s.rtc.alarmIrqEnabled = true
    · have clear : s.rtc.alarmPending = false := by
        cases flag : s.rtc.alarmPending with
        | false => rfl
        | true => exact absurd (.inr ⟨flag, may⟩) silent
      rw [Rtc.alarm_iterate lawful.rtc apart clear]
      exact ⟨fun both => ⟨both.1.1, may, both.1.2⟩, fun all => ⟨⟨all.1, all.2.2⟩, may⟩⟩
    · exact ⟨fun both => absurd both.2 may, fun all => absurd all.2.1 may⟩
  rw [alarm]
  constructor
  · rintro (⟨channel, raised⟩ | ⟨coming, may, le⟩)
    · obtain ⟨first, running, may, clear, next, le⟩ := (timer channel).mp raised
      exact ⟨_, .inl ⟨channel, first, running, may, clear, next, rfl⟩, le⟩
    · exact ⟨_, .inr ⟨coming, may, rfl⟩, le⟩
  · rintro ⟨at_cycle, ⟨channel, first, running, may, clear, next, rfl⟩ | ⟨coming, may, rfl⟩, le⟩
    · exact .inl ⟨channel, (timer channel).mpr ⟨first, running, may, clear, next, le⟩⟩
    · exact .inr ⟨coming, may, le⟩

/-- What the timers contribute is the least of their deadlines. -/
theorem mem_timerCycles (channel_cycle : Nat) :
    channel_cycle ∈ ((List.finRange 4).filterMap fun channel : Fin 4 =>
      if s.timerEnable.getLsbD channel.val then (s.timers channel).cyclesUntilMatch else none) ↔
    ∃ channel first, s.Running channel ∧ (s.timers channel).irqEnabled = true ∧ (s.timers channel).pending = false ∧
      (s.timers channel).matchTicks = some first ∧ channel_cycle = min ((s.timers channel).cycleOf first) u64Max := by
  rw [List.mem_filterMap]
  constructor
  · rintro ⟨channel, -, found⟩
    split at found
    · next bit =>
        rw [HardwareTimer.cyclesUntilMatch_eq] at found
        split at found
        · exact absurd found.symm (Option.some_ne_none _)
        · next ready =>
            obtain ⟨first, next, rfl⟩ := Option.map_eq_some_iff.mp found
            simp only [not_or, Bool.not_eq_false, Bool.not_eq_true] at ready
            exact ⟨channel, first, ⟨bit, ready.1⟩, ready.2.1, ready.2.2, next, rfl⟩
    · exact absurd found.symm (Option.some_ne_none _)
  · rintro ⟨channel, first, ⟨bit, on⟩, may, clear, next, rfl⟩
    refine ⟨channel, List.mem_finRange _, ?_⟩
    rw [if_pos bit, HardwareTimer.cyclesUntilMatch_eq, on, may, clear, next]
    rfl

theorem rtcCycles_eq_some (apart : s.rtc.realtime = false) (clock_cycle : Nat) : s.rtcCycles = some clock_cycle ↔
    s.rtc.AlarmComing ∧ s.rtc.alarmIrqEnabled = true ∧ clock_cycle = min s.rtc.alarmCycle u64Max := by
  unfold rtcCycles Rtc.AlarmComing Rtc.alarmCycle
  dsimp only
  constructor
  · intro found
    split at found
    · next ready => exact ⟨⟨ready.1, ready.2.2.1, ready.2.2.2.1⟩, ready.2.2.2.2, (Option.some.inj found).symm⟩
    · exact absurd found.symm (Option.some_ne_none _)
  · rintro ⟨⟨on, clear, armed⟩, may, rfl⟩
    exact if_pos ⟨on, apart, clear, armed, may⟩

/-- The timers' part of `cycles_until_irq`. -/
theorem timerCycles_spec : (∀ found, s.timerCycles = some found ->
      (∃ channel first, s.Running channel ∧ (s.timers channel).irqEnabled = true ∧ (s.timers channel).pending = false ∧
        (s.timers channel).matchTicks = some first ∧ found = min ((s.timers channel).cycleOf first) u64Max) ∧
      ∀ channel first, s.Running channel -> (s.timers channel).irqEnabled = true -> (s.timers channel).pending = false ->
        (s.timers channel).matchTicks = some first -> found ≤ min ((s.timers channel).cycleOf first) u64Max) ∧
    (s.timerCycles = none -> ∀ channel first, s.Running channel -> (s.timers channel).irqEnabled = true ->
      (s.timers channel).pending = false -> (s.timers channel).matchTicks = some first -> False) := by
  constructor
  · intro found least
    obtain ⟨member, below⟩ := List.min?_eq_some_iff.mp least
    refine ⟨(mem_timerCycles found).mp member, fun channel first running may clear next => ?_⟩
    exact below _ ((mem_timerCycles _).mpr ⟨channel, first, running, may, clear, next, rfl⟩)
  · intro none channel first running may clear next
    have member := (mem_timerCycles (min ((s.timers channel).cycleOf first) u64Max)).mpr
      ⟨channel, first, running, may, clear, next, rfl⟩
    rw [List.min?_eq_none_iff.mp none] at member
    exact List.not_mem_nil member

/-- The result of `cycles_until_irq` is a deadline and below every other, as far as
64 bits go. -/
theorem cyclesUntilIrq_mem (apart : s.rtc.realtime = false) :
    (∀ found, s.cyclesUntilIrq = some found -> (∃ first, s.Deadline first ∧ found = min first u64Max) ∧
      ∀ other, s.Deadline other -> found ≤ min other u64Max) ∧
    (s.cyclesUntilIrq = none -> ∀ other, ¬ s.Deadline other) := by
  obtain ⟨timer_some, timer_none⟩ := timerCycles_spec (s := s)
  have clock := rtcCycles_eq_some apart
  unfold cyclesUntilIrq
  cases timer : s.timerCycles with
  | some first =>
    obtain ⟨⟨channel, ticks, running, may, clear, next, rfl⟩, below⟩ := timer_some first timer
    have mine : s.Deadline ((s.timers channel).cycleOf ticks) := .inl ⟨channel, ticks, running, may, clear, next, rfl⟩
    cases alarm : s.rtcCycles with
    | some second =>
      obtain ⟨coming, allowed, rfl⟩ := (clock second).mp alarm
      refine ⟨?_, fun none => absurd none (Option.some_ne_none _)⟩
      rintro found result
      obtain rfl := Option.some.inj result
      constructor
      · rcases Nat.le_total (min ((s.timers channel).cycleOf ticks) u64Max) (min s.rtc.alarmCycle u64Max) with le | le
        · exact ⟨_, mine, min_eq_left le⟩
        · exact ⟨_, .inr ⟨coming, allowed, rfl⟩, min_eq_right le⟩
      · rintro other (⟨channel', ticks', running', may', clear', next', rfl⟩ | ⟨-, -, rfl⟩)
        · exact Nat.le_trans (min_le_left _ _) (below channel' ticks' running' may' clear' next')
        · exact min_le_right _ _
    | none =>
      refine ⟨?_, fun none => absurd none (Option.some_ne_none _)⟩
      rintro found result
      obtain rfl := Option.some.inj result
      refine ⟨⟨_, mine, rfl⟩, ?_⟩
      rintro other (⟨channel', ticks', running', may', clear', next', rfl⟩ | ⟨coming, allowed, rfl⟩)
      · exact below channel' ticks' running' may' clear' next'
      · have present := (clock _).mpr ⟨coming, allowed, rfl⟩
        rw [alarm] at present
        exact absurd present.symm (Option.some_ne_none _)
  | none =>
    have no_timer := timer_none timer
    cases alarm : s.rtcCycles with
    | some second =>
      obtain ⟨coming, allowed, rfl⟩ := (clock second).mp alarm
      refine ⟨?_, fun none => absurd none (Option.some_ne_none _)⟩
      rintro found result
      obtain rfl := Option.some.inj result
      refine ⟨⟨_, .inr ⟨coming, allowed, rfl⟩, rfl⟩, ?_⟩
      rintro other (⟨channel, ticks, running, may, clear, next, rfl⟩ | ⟨-, -, rfl⟩)
      · exact (no_timer channel ticks running may clear next).elim
      · exact Nat.le_refl _
    | none =>
      refine ⟨fun found result => absurd result.symm (Option.some_ne_none _), ?_⟩
      rintro - other (⟨channel, ticks, running, may, clear, next, rfl⟩ | ⟨coming, allowed, rfl⟩)
      · exact no_timer channel ticks running may clear next
      · have present := (clock _).mpr ⟨coming, allowed, rfl⟩
        rw [alarm] at present
        exact absurd present.symm (Option.some_ne_none _)

/-- The result of `cycles_until_irq` is the least deadline, as far as 64 bits go. -/
theorem cyclesUntilIrq_least (apart : s.rtc.realtime = false) {found : Nat} (result : s.cyclesUntilIrq = some found) :
    ∃ first, s.Deadline first ∧ (∀ other, s.Deadline other -> first ≤ other) ∧ found = min first u64Max := by
  classical
  obtain ⟨⟨one, deadline, rfl⟩, below⟩ := (cyclesUntilIrq_mem apart).1 found result
  have some_deadline : ∃ first, s.Deadline first := ⟨one, deadline⟩
  have least := Nat.find_spec some_deadline
  have first_le : ∀ other, s.Deadline other -> Nat.find some_deadline ≤ other := fun other => Nat.find_min' some_deadline
  refine ⟨Nat.find some_deadline, least, first_le, Nat.le_antisymm (below _ least) ?_⟩
  exact min_le_min_right _ (first_le one deadline)

end Src32.Devices.PecTiming
