import Src32.Devices.HardwareTimer

namespace Src32.Devices.HardwareTimer

/-!
# A tick more

Unless the timer stops, so many ticks at once and one more are one tick more at
once.
-/

variable {t : HardwareTimer}

/-! ## The next compare value -/

variable {ticks count : Nat}

/-- The next compare value of a timer is beyond the count. -/
theorem lt_nextCompare (reloads : t.reload ≠ 0) (reached : t.compare ≤ count) :
    count < t.nextCompare count := by
  have split := Nat.div_add_mod (count - t.compare) t.reload
  have small := Nat.mod_lt (count - t.compare) (Nat.pos_of_ne_zero reloads)
  unfold nextCompare
  rw [Nat.add_mul, Nat.one_mul, Nat.mul_comm]
  omega

theorem nextCompare_mono {first second : Nat} (le : first ≤ second) : t.nextCompare first ≤ t.nextCompare second := by
  unfold nextCompare
  apply Nat.add_le_add_left
  apply Nat.mul_le_mul_right
  exact Nat.add_le_add_right (Nat.div_le_div_right (Nat.sub_le_sub_right le _)) 1

theorem div_add_one_of_lt {rest reload : Nat} (inside : rest + 1 < (rest / reload + 1) * reload) :
    (rest + 1) / reload = rest / reload :=
  Nat.div_eq_of_lt_le (Nat.le_trans (Nat.div_mul_le_self rest reload) (Nat.le_succ rest)) inside

theorem nextCompare_self (at_match : t.compare = count) : t.nextCompare count = count + t.reload := by
  unfold nextCompare
  rw [at_match, Nat.sub_self, Nat.zero_div, Nat.zero_add, Nat.one_mul]

/-- A count more that has not reached the next compare value has the same one. -/
theorem nextCompare_same (reached : t.compare ≤ count) (early : count + 1 < t.nextCompare count) :
    t.nextCompare (count + 1) = t.nextCompare count := by
  unfold nextCompare at early ⊢
  rw [show count + 1 - t.compare = count - t.compare + 1 by omega]
  rw [div_add_one_of_lt (by omega)]

/-- At the next compare value the one behind it is a period later. -/
theorem nextCompare_period (reloads : t.reload ≠ 0) (reached : t.compare ≤ count)
    (at_match : count + 1 = t.nextCompare count) : t.nextCompare (count + 1) = t.nextCompare count + t.reload := by
  have whole : count + 1 - t.compare = ((count - t.compare) / t.reload + 1) * t.reload := by
    unfold nextCompare at at_match
    omega
  unfold nextCompare
  rw [whole, Nat.mul_div_cancel _ (Nat.pos_of_ne_zero reloads), Nat.add_mul, Nat.one_mul]
  omega

/-! ## One tick -/

theorem Stops.mono {first second : Nat} (le : first ≤ second) (stops : t.Stops first) : t.Stops second := by
  rcases stops with ⟨oneShot, past⟩ | ⟨periodic, past, last⟩
  · exact .inl ⟨oneShot, Nat.le_trans past le⟩
  · refine .inr ⟨periodic, Nat.le_trans past le, ?_⟩
    rcases last with single | last
    · exact .inl single
    · refine .inr (Nat.lt_of_lt_of_le last (nextCompare_mono ?_))
      exact min_le_min_right _ (Nat.add_le_add_left le _)

theorem stops_pos (stops : t.Stops ticks) : 0 < ticks := by
  rcases stops with ⟨-, past⟩ | ⟨-, past, -⟩
  · exact Nat.lt_of_lt_of_le firstMatch_pos past
  · exact Nat.lt_of_lt_of_le firstMatch_pos past

/-- A count that is not the last has not reached the end of the counter. -/
theorem lt_of_goes (reloads : t.reload ≠ 0) (reached : t.compare ≤ min count u64Max)
    (goes : t.nextCompare (min count u64Max) ≤ u64Max) : count < u64Max := by
  have beyond := lt_nextCompare reloads reached
  by_contra full
  rw [min_eq_right (Nat.not_lt.mp full)] at beyond goes
  exact absurd (Nat.lt_of_lt_of_le beyond goes) (Nat.lt_irrefl _)

/-- What a periodic timer that has matched and goes on looks like. -/
theorem advance_periodic_goes (lawful : t.Lawful) (periodic : t.mode = 1) (past : t.firstMatch ≤ ticks)
    (goes : ¬ t.Stops ticks) :
    t.reload ≠ 0 ∧ t.counter + ticks < u64Max ∧ t.nextCompare (t.counter + ticks) ≤ u64Max ∧
      t.advance ticks =
        { t with counter := t.counter + ticks, pending := true, compare := t.nextCompare (t.counter + ticks) } := by
  have no_end : ¬ (t.reload = 0 ∨ u64Max < t.nextCompare (min (t.counter + ticks) u64Max)) :=
    fun ends => goes (.inr ⟨periodic, past, ends⟩)
  have reloads : t.reload ≠ 0 := fun single => no_end (.inl single)
  have room : t.nextCompare (min (t.counter + ticks) u64Max) ≤ u64Max := Nat.not_lt.mp fun last => no_end (.inr last)
  have reached : t.compare ≤ min (t.counter + ticks) u64Max := le_min (le_of_firstMatch past) lawful.compare_le
  have small := lt_of_goes reloads reached room
  have count : min (t.counter + ticks) u64Max = t.counter + ticks := min_eq_left (Nat.le_of_lt small)
  have closed := advance_periodic_match lawful periodic past
  rw [if_neg no_end, count] at closed
  rw [count] at room
  exact ⟨reloads, small, room, closed⟩

/-- A timer that does not stop keeps its control register and its rate. -/
theorem advance_control (lawful : t.Lawful) (goes : ¬ t.Stops ticks) :
    (t.advance ticks).control = t.control ∧ (t.advance ticks).prescaler = t.prescaler ∧
      (t.advance ticks).prescalerPhase = t.prescalerPhase ∧ (t.advance ticks).reload = t.reload ∧
      (t.advance ticks).counter ≤ u64Max ∧ (t.advance ticks).compare ≤ u64Max := by
  rcases (by omega : t.mode = 0 ∨ t.mode = 1 ∨ t.mode = 2 ∨ 3 ≤ t.mode) with oneShot | periodic | free | off
  · have early : ticks < t.firstMatch := Nat.not_le.mp fun past => goes (.inl ⟨oneShot, past⟩)
    rw [advance_oneShot_early oneShot early]
    refine ⟨rfl, rfl, rfl, rfl, ?_, lawful.compare_le⟩
    by_cases none : ticks = 0
    · subst none
      exact lawful.counter_le
    · exact Nat.le_trans (Nat.le_of_lt (lt_of_firstMatch early none)) lawful.compare_le
  · by_cases early : ticks < t.firstMatch
    · rw [advance_periodic_early lawful periodic early]
      refine ⟨rfl, rfl, rfl, rfl, ?_, lawful.compare_le⟩
      by_cases none : ticks = 0
      · subst none
        exact lawful.counter_le
      · exact Nat.le_trans (Nat.le_of_lt (lt_of_firstMatch early none)) lawful.compare_le
    · obtain ⟨-, small, room, closed⟩ := advance_periodic_goes lawful periodic (Nat.not_lt.mp early) goes
      rw [closed]
      exact ⟨rfl, rfl, rfl, rfl, Nat.le_of_lt small, room⟩
  · rw [advance_freeRunning lawful free]
    refine ⟨rfl, rfl, rfl, rfl, ?_, lawful.compare_le⟩
    have top := u64Max_succ
    exact Nat.le_of_lt_succ (top ▸ Nat.mod_lt _ (by decide))
  · rw [advance_off off]
    exact ⟨rfl, rfl, rfl, rfl, lawful.counter_le, lawful.compare_le⟩

/-- A timer that does not stop stays lawful. -/
theorem advance_lawful (lawful : t.Lawful) (goes : ¬ t.Stops ticks) : (t.advance ticks).Lawful := by
  obtain ⟨-, rate, phase, reload, counter, compare⟩ := advance_control lawful goes
  exact
    { counter_le := counter
      compare_le := compare
      reload_le := reload ▸ lawful.reload_le
      phase_le := by
        rw [phase, rate]
        exact lawful.phase_le
      prescaler_lt := rate ▸ lawful.prescaler_lt }

theorem mode_congr {u : HardwareTimer} (same : u.control = t.control) : u.mode = t.mode := by
  unfold mode
  rw [same]

/-- The free-running counter, one tick at a time. -/
theorem advance_freeRunning_succ (lawful : t.Lawful) (free : t.mode = 2) (ticks : Nat) :
    (t.advance ticks).advance 1 = t.advance (ticks + 1) := by
  have goes : ¬ t.Stops ticks := by
    rintro (⟨oneShot, -⟩ | ⟨periodic, -⟩)
    · omega
    · omega
  have later := advance_lawful lawful goes
  have mode := mode_congr (advance_control lawful goes).1
  have bound := lawful.counter_le
  have bound' := lawful.compare_le
  have top := u64Max_succ
  have before := advance_freeRunning lawful free ticks
  rw [advance_freeRunning later (mode.trans free), advance_freeRunning lawful free (ticks + 1), before]
  have round : ((t.counter + ticks) % 2 ^ 64 + 1) % 2 ^ 64 = (t.counter + (ticks + 1)) % 2 ^ 64 := by omega
  -- an armed timer that has not matched is nearer to its compare value
  have nearer : t.distance ≤ ticks ∨
      ({ t with counter := (t.counter + ticks) % 2 ^ 64 } : HardwareTimer).distance + ticks = t.distance := by
    unfold distance
    dsimp only
    split <;> split <;> omega
  by_cases reached : t.distance ≤ ticks
  · have again : t.distance ≤ ticks + 1 := Nat.le_succ_of_le reached
    ext
    · rfl
    · exact round
    · rfl
    · rfl
    · rfl
    · rfl
    · simp [reached, again]
    · simp [reached, again]
  · have left := nearer.resolve_left reached
    have turn : ({ t with
          counter := (t.counter + ticks) % 2 ^ 64
          pending := t.pending || t.compareArmed && decide (t.distance ≤ ticks)
          compareArmed := t.compareArmed && !decide (t.distance ≤ ticks) } : HardwareTimer).distance ≤ 1 ↔
        t.distance ≤ ticks + 1 := by
      change ({ t with counter := (t.counter + ticks) % 2 ^ 64 } : HardwareTimer).distance ≤ 1 ↔ _
      omega
    ext
    · rfl
    · exact round
    · rfl
    · rfl
    · rfl
    · rfl
    · simp only [turn]
      simp [reached]
    · simp only [turn]
      simp [reached]

/-- Ticks at once and one more are one more at once, for a timer that goes on. -/
theorem advance_succ (lawful : t.Lawful) (goes : ¬ t.Stops (ticks + 1)) :
    (t.advance ticks).advance 1 = t.advance (ticks + 1) := by
  have before : ¬ t.Stops ticks := fun stops => goes (stops.mono (Nat.le_succ _))
  have later := advance_lawful lawful before
  have mode := mode_congr (advance_control lawful before).1
  rcases (by omega : t.mode = 0 ∨ t.mode = 1 ∨ t.mode = 2 ∨ 3 ≤ t.mode) with oneShot | periodic | free | off
  · have early : ticks + 1 < t.firstMatch := Nat.not_le.mp fun past => goes (.inl ⟨oneShot, past⟩)
    have first := advance_oneShot_early oneShot (Nat.lt_of_succ_lt early)
    have soon : 1 < (t.advance ticks).firstMatch := by
      rw [first]
      unfold firstMatch at early ⊢
      dsimp only
      omega
    rw [advance_oneShot_early (mode.trans oneShot) soon, first, advance_oneShot_early oneShot early]
    rfl
  · by_cases early : ticks < t.firstMatch
    · have first := advance_periodic_early lawful periodic early
      by_cases soon : ticks + 1 < t.firstMatch
      · -- no match yet
        have next : 1 < (t.advance ticks).firstMatch := by
          rw [first]
          unfold firstMatch at soon ⊢
          dsimp only
          omega
        rw [advance_periodic_early later (mode.trans periodic) next, first, advance_periodic_early lawful periodic soon]
        rfl
      · -- the first match
        have next : (t.advance ticks).firstMatch ≤ 1 := by
          rw [first]
          unfold firstMatch at soon ⊢
          dsimp only
          omega
        have same : (t.advance ticks).counter + 1 = t.counter + (ticks + 1) := by
          rw [first]
          rfl
        have closed := advance_periodic_match lawful periodic (Nat.not_lt.mp soon)
        rw [advance_periodic_match later (mode.trans periodic) next, closed, same, first]
        rfl
    · -- the timer has matched before
      have past := Nat.not_lt.mp early
      obtain ⟨reloads, small, room, closed⟩ := advance_periodic_goes lawful periodic past before
      obtain ⟨-, small', room', closed'⟩ := advance_periodic_goes lawful periodic
        (show t.firstMatch ≤ ticks + 1 from Nat.le_succ_of_le past) goes
      have reached := le_of_firstMatch past
      have beyond := lt_nextCompare reloads reached
      by_cases soon : t.counter + ticks + 1 < t.nextCompare (t.counter + ticks)
      · have next : 1 < (t.advance ticks).firstMatch := by
          rw [closed]
          unfold firstMatch
          dsimp only
          omega
        rw [advance_periodic_early later (mode.trans periodic) next, closed, closed', ← Nat.add_assoc,
          nextCompare_same reached soon]
      · have at_match : t.counter + ticks + 1 = t.nextCompare (t.counter + ticks) := by omega
        have next : (t.advance ticks).firstMatch ≤ 1 := by
          rw [closed]
          unfold firstMatch
          dsimp only
          omega
        have period := nextCompare_period reloads reached at_match
        have count : (t.advance ticks).counter + 1 = t.counter + ticks + 1 := by rw [closed]
        have compared : (t.advance ticks).nextCompare (t.counter + ticks + 1) = t.nextCompare (t.counter + (ticks + 1)) := by
          rw [closed, ← Nat.add_assoc, period, ← at_match]
          exact nextCompare_self rfl
        have on : ¬ (t.advance ticks).Stops 1 := by
          rintro (⟨oneShot, -⟩ | ⟨-, -, ends⟩)
          · rw [mode, periodic] at oneShot
            exact absurd oneShot (by decide)
          · rw [count, min_eq_left (show t.counter + ticks + 1 ≤ u64Max from Nat.le_of_lt small'), compared] at ends
            rcases ends with single | last
            · rw [closed] at single
              exact reloads single
            · exact absurd room' (Nat.not_le.mpr last)
        obtain ⟨-, -, -, tick⟩ := advance_periodic_goes later (mode.trans periodic) next on
        rw [tick, count, compared, closed, closed']
        rfl
  · exact advance_freeRunning_succ lawful free ticks
  · rw [advance_off off, advance_off off, advance_off off]

/-- The tick that stops a timer: behind it the timer is stopped, and it is as if
all ticks had come at once exactly for a one-shot timer and for a periodic one
that stops at its first match. -/
theorem advance_stop (lawful : t.Lawful) (before : ¬ t.Stops ticks) (stops : t.Stops (ticks + 1)) :
    (t.advance ticks).advance 1 =
      if t.mode = 0 then t.advance (ticks + 1)
      else if ticks + 1 = t.firstMatch then { t with counter := min (t.counter + t.firstMatch) u64Max }.stop
      else { t with counter := t.counter + ticks + 1, compare := t.nextCompare (t.counter + ticks) }.stop := by
  have later := advance_lawful lawful before
  have mode := mode_congr (advance_control lawful before).1
  rcases stops with ⟨oneShot, past⟩ | ⟨periodic, past, ends⟩
  · have early : ticks < t.firstMatch := Nat.not_le.mp fun past => before (.inl ⟨oneShot, past⟩)
    have first := advance_oneShot_early oneShot early
    have next : (t.advance ticks).firstMatch ≤ 1 := by
      rw [first]
      unfold firstMatch at past ⊢
      dsimp only
      omega
    rw [if_pos oneShot, advance_oneShot_match (mode.trans oneShot) next, advance_oneShot_match oneShot past, first]
    have top : max (t.counter + ticks) t.compare = max t.counter t.compare := by
      unfold firstMatch at past early
      omega
    show ({ t with counter := max (t.counter + ticks) t.compare } : HardwareTimer).stop = _
    rw [top]
  · rw [if_neg (by omega)]
    by_cases early : ticks < t.firstMatch
    · have at_first : ticks + 1 = t.firstMatch := by omega
      have first := advance_periodic_early lawful periodic early
      have next : (t.advance ticks).firstMatch ≤ 1 := by
        rw [first]
        unfold firstMatch at past ⊢
        dsimp only
        omega
      have same : (t.advance ticks).counter + 1 = t.counter + (ticks + 1) := by
        rw [first]
        rfl
      have last : (t.advance ticks).reload = 0 ∨
          u64Max < (t.advance ticks).nextCompare (min (t.counter + (ticks + 1)) u64Max) := by
        rw [first]
        exact ends
      rw [if_pos at_first, advance_periodic_match later (mode.trans periodic) next, same, if_pos last, first, ← at_first]
    · obtain ⟨reloads, small, room, closed⟩ := advance_periodic_goes lawful periodic (Nat.not_lt.mp early) before
      have past' := Nat.not_lt.mp early
      have reached := le_of_firstMatch past'
      have beyond := lt_nextCompare reloads reached
      have count : min (t.counter + (ticks + 1)) u64Max = t.counter + ticks + 1 := min_eq_left small
      rw [count] at ends
      have last := ends.resolve_left reloads
      have at_match : t.counter + ticks + 1 = t.nextCompare (t.counter + ticks) := by
        by_contra other
        have same := nextCompare_same reached (by omega)
        rw [same] at last
        exact absurd room (Nat.not_le.mpr last)
      have next : (t.advance ticks).firstMatch ≤ 1 := by
        rw [closed]
        unfold firstMatch
        dsimp only
        omega
      have tick : (t.advance ticks).counter + 1 = t.counter + ticks + 1 := by rw [closed]
      have compared : (t.advance ticks).nextCompare (t.counter + ticks + 1) = t.nextCompare (t.counter + ticks + 1) := by
        rw [closed, nextCompare_period reloads reached at_match, ← at_match]
        exact nextCompare_self rfl
      rw [if_neg (by omega), advance_periodic_match later (mode.trans periodic) next, tick,
        min_eq_left (show t.counter + ticks + 1 ≤ u64Max from small), compared, if_pos (Or.inr last), closed]
      rfl

end Src32.Devices.HardwareTimer
