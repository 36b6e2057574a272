import Src32.Machine.Word

namespace Src32.Devices

/-!
# The hardware timers

`HardwareTimer` of `pec/timing.rs`.  A timer counts ticks, a tick being as many
cycles as its prescaler says, and is one-shot, periodic or free-running.  The
64-bit registers are numbers here, and `Lawful` bounds them.
-/

/-- The largest 64-bit number. -/
@[irreducible] def u64Max : Nat := 2 ^ 64 - 1

theorem u64Max_succ : u64Max + 1 = 2 ^ 64 := by
  unfold u64Max
  decide

/-- `HardwareTimer`. -/
@[ext] structure HardwareTimer where
  control : Word
  counter : Nat
  compare : Nat
  reload : Nat
  prescaler : Nat
  prescalerPhase : Nat
  pending : Bool
  compareArmed : Bool

namespace HardwareTimer

/-- `default`. -/
def initial : HardwareTimer where
  control := 0
  counter := 0
  compare := 0
  reload := 0
  prescaler := 0
  prescalerPhase := 0
  pending := false
  compareArmed := false

variable (t : HardwareTimer)

/-- `CTRL_ENABLE` is set. -/
def enabled : Bool := t.control.getLsbD 2

/-- `CTRL_IRQ_ENABLE` is set. -/
def irqEnabled : Bool := t.control.getLsbD 3

def mode : Nat := (t.control &&& 3).toNat

/-- `write_control`. -/
def writeControl (value : Word) : HardwareTimer :=
  let t := { t with control := value &&& 15 }
  if value.getLsbD 4 then { t with counter := 0, prescalerPhase := 0, pending := false, compareArmed := true } else t

/-- The match that ends the counting. -/
def stop : HardwareTimer := { t with pending := true, control := t.control &&& ~~~4 }

/-- How far a free-running counter is from its compare value; all the way round
when it is at it. -/
def distance : Nat :=
  let distance := (t.compare + 2 ^ 64 - t.counter) % 2 ^ 64
  if distance = 0 then 2 ^ 64 else distance

/-- The first compare value of a periodic timer beyond a count. -/
def nextCompare (count : Nat) : Nat := t.compare + ((count - t.compare) / t.reload + 1) * t.reload

/-- `advance`. -/
def advance (ticks : Nat) : HardwareTimer :=
  if ticks = 0 then t
  else if t.mode = 0 then
    if t.compare ≤ t.counter then t.stop
    else if t.compare - t.counter ≤ ticks then { t with counter := t.compare }.stop
    else { t with counter := t.counter + ticks }
  else if t.mode = 1 then
    let t := { t with counter := min (t.counter + ticks) u64Max }
    if t.compare ≤ t.counter then
      if t.reload = 0 then t.stop
      else if u64Max < t.nextCompare t.counter then t.stop
      else { t with pending := true, compare := t.nextCompare t.counter }
    else t
  else if t.mode = 2 then
    let t' :=
      if t.compareArmed = true ∧ t.distance ≤ ticks then { t with pending := true, compareArmed := false } else t
    { t' with counter := (t'.counter + ticks) % 2 ^ 64 }
  else t

/-- What `advance_system_cycles` does with a running timer. -/
def passCycles (cycles : Nat) : HardwareTimer :=
  let divisor := t.prescaler + 1
  let accumulated := t.prescalerPhase + cycles
  if accumulated ≤ u64Max then
    if accumulated < divisor then { t with prescalerPhase := accumulated }
    else { t with prescalerPhase := accumulated % divisor }.advance (accumulated / divisor)
  else { t with prescalerPhase := accumulated % divisor }.advance (min (accumulated / divisor) u64Max)

/-- `cycles_until_match`. -/
def cyclesUntilMatch : Option Nat :=
  if t.enabled = false ∨ t.irqEnabled = false ∨ t.pending = true then none
  else
    let ticks :=
      if t.mode = 0 ∨ t.mode = 1 then some (if t.counter < t.compare then t.compare - t.counter else 1)
      else if t.mode = 2 ∧ t.compareArmed = true then some t.distance
      else none
    ticks.map fun ticks =>
      let divisor := t.prescaler + 1
      min (divisor - t.prescalerPhase + (ticks - 1) * divisor) u64Max

/-! ## Ticks -/

/-- Registers are 64-bit numbers and the phase is below the divisor. -/
structure Lawful : Prop where
  counter_le : t.counter ≤ u64Max
  compare_le : t.compare ≤ u64Max
  reload_le : t.reload ≤ u64Max
  phase_le : t.prescalerPhase ≤ t.prescaler
  prescaler_lt : t.prescaler < 2 ^ 32

/-- The tick at which a one-shot or periodic timer matches first. -/
def firstMatch : Nat := max 1 (t.compare - t.counter)

/-- The timer stops within so many ticks. -/
def Stops (ticks : Nat) : Prop :=
  t.mode = 0 ∧ t.firstMatch ≤ ticks ∨
    t.mode = 1 ∧ t.firstMatch ≤ ticks ∧
      (t.reload = 0 ∨ u64Max < t.nextCompare (min (t.counter + ticks) u64Max))

variable {t}

theorem firstMatch_pos : 0 < t.firstMatch := Nat.lt_of_lt_of_le Nat.one_pos (Nat.le_max_left _ _)

variable {ticks : Nat}

/-- A timer that passes its compare value is at or behind it. -/
theorem le_of_firstMatch (past : t.firstMatch ≤ ticks) : t.compare ≤ t.counter + ticks := by
  unfold firstMatch at past
  omega

theorem lt_of_firstMatch (early : ticks < t.firstMatch) (some_ticks : ticks ≠ 0) :
    t.counter + ticks < t.compare := by
  unfold firstMatch at early
  omega

@[simp] theorem advance_zero : t.advance 0 = t := if_pos rfl

/-- The phase of the prescaler is no concern of the ticks. -/
theorem advance_phase (phase ticks : Nat) :
    { t with prescalerPhase := phase }.advance ticks = { t.advance ticks with prescalerPhase := phase } := by
  unfold advance mode stop nextCompare distance
  dsimp only
  split_ifs <;> rfl

theorem advance_oneShot_early (oneShot : t.mode = 0) (early : ticks < t.firstMatch) :
    t.advance ticks = { t with counter := t.counter + ticks } := by
  by_cases none : ticks = 0
  · subst none
    rfl
  · have before := lt_of_firstMatch early none
    unfold advance
    rw [if_neg none, if_pos oneShot, if_neg (by omega), if_neg (by omega)]

theorem advance_oneShot_match (oneShot : t.mode = 0) (past : t.firstMatch ≤ ticks) :
    t.advance ticks = { t with counter := max t.counter t.compare }.stop := by
  have behind := le_of_firstMatch past
  have some_ticks : ticks ≠ 0 := Nat.ne_of_gt (Nat.lt_of_lt_of_le firstMatch_pos past)
  unfold advance
  rw [if_neg some_ticks, if_pos oneShot]
  by_cases already : t.compare ≤ t.counter
  · rw [if_pos already, max_eq_left already]
  · rw [if_neg already, if_pos (by omega), max_eq_right (by omega)]

theorem advance_periodic_early (lawful : t.Lawful) (periodic : t.mode = 1) (early : ticks < t.firstMatch) :
    t.advance ticks = { t with counter := t.counter + ticks } := by
  by_cases none : ticks = 0
  · subst none
    rfl
  · have before := lt_of_firstMatch early none
    have room : t.counter + ticks ≤ u64Max := Nat.le_trans (Nat.le_of_lt before) lawful.compare_le
    unfold advance
    dsimp only
    rw [if_neg none, if_neg (by omega), if_pos periodic, min_eq_left room, if_neg (Nat.not_le.mpr before)]

/-- What a periodic timer does at a match. -/
theorem advance_periodic_match (lawful : t.Lawful) (periodic : t.mode = 1) (past : t.firstMatch ≤ ticks) :
    t.advance ticks =
      if t.reload = 0 ∨ u64Max < t.nextCompare (min (t.counter + ticks) u64Max) then
        { t with counter := min (t.counter + ticks) u64Max }.stop
      else
        { t with
          counter := min (t.counter + ticks) u64Max
          pending := true
          compare := t.nextCompare (min (t.counter + ticks) u64Max) } := by
  have reached : t.compare ≤ min (t.counter + ticks) u64Max := le_min (le_of_firstMatch past) lawful.compare_le
  have some_ticks : ticks ≠ 0 := Nat.ne_of_gt (Nat.lt_of_lt_of_le firstMatch_pos past)
  unfold advance
  dsimp only
  rw [if_neg some_ticks, if_neg (by omega), if_pos periodic, if_pos reached]
  by_cases single : t.reload = 0
  · rw [if_pos single, if_pos (Or.inl single)]
  · rw [if_neg single]
    by_cases last : u64Max < t.nextCompare (min (t.counter + ticks) u64Max)
    · rw [if_pos (Or.inr last)]
      exact if_pos last
    · rw [if_neg (show ¬ (t.reload = 0 ∨ u64Max < t.nextCompare (min (t.counter + ticks) u64Max)) from
        fun either => either.elim single last)]
      exact if_neg last

theorem advance_freeRunning (lawful : t.Lawful) (free : t.mode = 2) (ticks : Nat) :
    t.advance ticks =
      { t with
        counter := (t.counter + ticks) % 2 ^ 64
        pending := t.pending || t.compareArmed && decide (t.distance ≤ ticks)
        compareArmed := t.compareArmed && !decide (t.distance ≤ ticks) } := by
  have bound := lawful.counter_le
  have top := u64Max_succ
  by_cases none : ticks = 0
  · have some_way : ¬ t.distance ≤ 0 := by
      unfold distance
      dsimp only
      split <;> omega
    subst none
    rw [advance_zero]
    ext
    · rfl
    · show t.counter = (t.counter + 0) % 2 ^ 64
      omega
    · rfl
    · rfl
    · rfl
    · rfl
    · show t.pending = (t.pending || t.compareArmed && decide (t.distance ≤ 0))
      rw [decide_eq_false some_way, Bool.and_false, Bool.or_false]
    · show t.compareArmed = (t.compareArmed && !decide (t.distance ≤ 0))
      rw [decide_eq_false some_way, Bool.not_false, Bool.and_true]
  · unfold advance
    dsimp only
    rw [if_neg none, if_neg (by omega), if_neg (by omega), if_pos free]
    by_cases armed : t.compareArmed = true
    · by_cases reached : t.distance ≤ ticks
      · rw [if_pos ⟨armed, reached⟩, decide_eq_true reached, armed]
        simp
      · rw [if_neg (fun both => reached both.2), decide_eq_false reached]
        simp
    · rw [if_neg (fun both => armed both.1), Bool.not_eq_true] at *
      simp [armed]

theorem advance_off (off : 3 ≤ t.mode) (ticks : Nat) : t.advance ticks = t := by
  unfold advance
  split_ifs
  · rfl
  · omega
  · omega
  · omega
  · omega
  · omega
  · omega
  · rfl

end HardwareTimer
end Src32.Devices
