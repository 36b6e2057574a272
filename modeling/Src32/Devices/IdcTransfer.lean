import Src32.Devices.Idc

namespace Src32.Devices

open Function (update update_self)

/-!
# What a command does to the disk

A READ delivers the bytes of its sectors in order, and a WRITE commits the bytes
it received, sector by sector and none before its deadline.  The last sector of
a padded image takes only the bytes that the image holds.
-/

/-! ## Sectors -/

namespace Drive

/-- The end of the bytes that the image holds. -/
def reach (d : Drive) : Nat :=
  if d.medium ≠ .cow ∧ 0 < d.trailingBytes then (d.capacitySectors.toNat - 1) * sectorSize + d.trailingBytes
  else d.capacitySectors.toNat * sectorSize

/-- A byte of the drive, as it is read. -/
def byteAt (d : Drive) (place : Nat) : Byte := if place < d.reach then d.image place else 0

/-- The bytes from the start of a sector on. -/
def bytesFrom (d : Drive) (lba count : Nat) : List Byte := (List.range count).map fun i => d.byteAt (lba * sectorSize + i)

/-- The drive with sectors from `lba` on replaced by `bytes`, as far as its image
reaches. -/
def written (d : Drive) (lba count : Nat) (bytes : List Byte) : Drive :=
  { d with
    image := fun place =>
      if lba * sectorSize ≤ place ∧ place < (lba + count) * sectorSize ∧ place < d.reach then
        bytes.getD (place - lba * sectorSize) 0
      else d.image place }

variable {d : Drive}

variable {bytes : List Byte} {lba count : Nat}

/-- What the image holds of a sector is what it reaches. -/
theorem held_iff {i : Nat} (inside : lba < d.capacitySectors.toNat) (small : i < sectorSize) :
    i < d.held lba ↔ lba * sectorSize + i < d.reach := by
  have tail := d.tail_lt
  unfold held reach partialTail sectorSize at *
  by_cases cow : d.medium = .cow
  · rw [if_pos cow, if_neg (fun both => both.1 cow)]
    omega
  · rw [if_neg cow]
    by_cases some_ : 0 < d.trailingBytes
    · rw [if_pos (show d.medium ≠ .cow ∧ 0 < d.trailingBytes from ⟨cow, some_⟩)]
      by_cases last : lba + 1 = d.capacitySectors.toNat
      · rw [if_pos ⟨some_, last⟩, Option.getD_some]
        omega
      · rw [if_neg (fun both => last both.2), Option.getD_none]
        omega
    · rw [if_neg (fun both => some_ both.1), if_neg (fun both => some_ both.2), Option.getD_none]
      omega

theorem held_le (d : Drive) (lba : Nat) : d.held lba ≤ sectorSize := by
  have tail := d.tail_lt
  unfold held partialTail
  split_ifs
  · exact Nat.le_refl _
  · exact Nat.le_of_lt tail
  · exact Nat.le_refl _

theorem readSector_some (inside : lba < d.capacitySectors.toNat) {fails : Bool} {buffer : Nat -> Byte}
    (read : d.readSector lba fails = some buffer) :
    ∀ i < sectorSize, buffer i = d.byteAt (lba * sectorSize + i) := by
  unfold readSector at read
  split_ifs at read
  cases read
  intro i small
  have same := held_iff inside small
  unfold byteAt
  dsimp only
  by_cases held : i < d.held lba
  · rw [if_pos held, if_pos (same.mp held)]
  · rw [if_neg held, if_neg fun reached => held (same.mpr reached)]

/-- Bytes behind the sectors do not matter. -/
theorem written_append {more : List Byte} (whole : count * sectorSize ≤ bytes.length) :
    d.written lba count (bytes ++ more) = d.written lba count bytes := by
  refine congrArg (fun image => ({ d with image := image } : Drive)) (funext fun place => ?_)
  split_ifs with inside
  · have short : place - lba * sectorSize < bytes.length := by
      have ends := inside.2.1
      rw [Nat.add_mul] at ends
      omega
    rw [List.getD_eq_getElem?_getD, List.getD_eq_getElem?_getD, List.getElem?_append_left short]
  · rfl

theorem written_zero : d.written lba 0 bytes = d := by
  unfold written
  have same : (fun place => if lba * sectorSize ≤ place ∧ place < (lba + 0) * sectorSize ∧ place < d.reach then
      bytes.getD (place - lba * sectorSize) 0 else d.image place) = d.image := by
    funext place
    refine if_neg fun inside => ?_
    rw [Nat.add_zero] at inside
    omega
  rw [same]

/-- One more sector is committed. -/
theorem written_succ (inside : lba + count < d.capacitySectors.toNat) {buffer : Nat -> Byte}
    (same : ∀ i < sectorSize, buffer i = bytes.getD (count * sectorSize + i) 0) :
    { d.written lba count bytes with
      image := overwrite (d.written lba count bytes).image ((lba + count) * sectorSize) (d.held (lba + count)) buffer } =
      d.written lba (count + 1) bytes := by
  refine congrArg (fun image => ({ d with image := image } : Drive)) (funext fun place => ?_)
  unfold overwrite written
  dsimp only
  have le := d.held_le (lba + count)
  have first : (lba + count) * sectorSize = lba * sectorSize + count * sectorSize := Nat.add_mul ..
  have next : (lba + (count + 1)) * sectorSize = lba * sectorSize + count * sectorSize + sectorSize := by
    rw [← Nat.add_assoc, Nat.add_mul, Nat.one_mul, first]
  rw [first, next]
  by_cases here : lba * sectorSize + count * sectorSize ≤ place ∧
      place < lba * sectorSize + count * sectorSize + d.held (lba + count)
  · have small : place - (lba * sectorSize + count * sectorSize) < sectorSize := by omega
    have reached := (held_iff inside small).mp (by omega)
    rw [first] at reached
    rw [if_pos here, same _ small, if_pos]
    · exact congrArg (fun k => bytes.getD k 0) (by omega)
    · omega
  · rw [if_neg here]
    refine if_congr ?_ rfl rfl
    constructor
    · rintro ⟨above, below, reached⟩
      exact ⟨above, by omega, reached⟩
    · rintro ⟨above, below, reached⟩
      refine ⟨above, ?_, reached⟩
      by_contra beyond
      have small : place - (lba * sectorSize + count * sectorSize) < sectorSize := by omega
      have held := (held_iff inside small).mpr (by omega)
      exact here ⟨by omega, by omega⟩

theorem length_bytesFrom (lba count : Nat) : (d.bytesFrom lba count).length = count := by
  unfold bytesFrom
  rw [List.length_map, List.length_range]

theorem bytesFrom_succ (lba count : Nat) :
    d.bytesFrom lba (count + 1) = d.bytesFrom lba count ++ [d.byteAt (lba * sectorSize + count)] := by
  unfold bytesFrom
  rw [List.range_succ, List.map_append, List.map_singleton]

/-- The first bytes are those of fewer sectors. -/
theorem bytesFrom_prefix {more : List Byte} (split : bytes ++ more = d.bytesFrom lba count) :
    bytes = d.bytesFrom lba bytes.length := by
  have length := congrArg List.length split
  rw [List.length_append, length_bytesFrom] at length
  have first := congrArg (List.take bytes.length) split
  rw [List.take_left] at first
  unfold bytesFrom at first ⊢
  rw [← List.map_take, List.take_range, Nat.min_eq_left (by omega)] at first
  exact first

end Drive

/-! ## The property -/

/-- What a command did to the drives so far. -/
structure Holding (drives : Fin 4 -> Option Drive) (a : ActiveCommand) (d : Drive) : Prop where
  drive : a.before a.start.slot = some d
  /-- The range was checked. -/
  range : a.start.lba + a.start.count ≤ d.capacitySectors.toNat
  bounded : a.completedSectors * sectorSize + a.cursor ≤ a.start.count * sectorSize
  /-- No sector is loaded or committed before its deadline. -/
  due : ∀ i cycle, a.times[i]? = some cycle -> deadline a.start.cycle d (i + 1) ≤ cycle
  /-- A READ touches no drive and gives the bytes of its sectors in order. -/
  read : a.start.direction = .deviceToMemory -> drives = a.before ∧ a.torn = false ∧
    a.times.length = a.completedSectors + (if a.readReady = true then 1 else 0) ∧
    (a.readReady = false -> a.cursor = 0) ∧ (a.readReady = true -> a.completedSectors < a.start.count) ∧
    a.cursor ≤ sectorSize ∧
    a.moved ++ a.taken.toList = d.bytesFrom a.start.lba (a.completedSectors * sectorSize + a.cursor)
  /-- A WRITE commits the bytes it received, but for the sector it tore. -/
  write : a.start.direction = .memoryToDevice -> a.times.length = a.completedSectors ∧ a.taken = none ∧
    a.moved.length = a.completedSectors * sectorSize + a.cursor ∧
    (a.torn = false -> drives = update a.before a.start.slot
      (some (d.written a.start.lba a.completedSectors a.moved))) ∧
    (a.torn = true -> a.completedSectors < a.start.count ∧ ∃ image, drives = update a.before a.start.slot
      (some { d with image := image }) ∧ ∀ place, (place < (a.start.lba + a.completedSectors) * sectorSize ∨
        (a.start.lba + a.completedSectors + 1) * sectorSize ≤ place) ->
        image place = (d.written a.start.lba a.completedSectors a.moved).image place)

/-- What a command that ended did. -/
structure Ended.Kept (e : Ended) (d : Drive) : Prop where
  drive : e.before e.start.slot = some d
  range : e.start.lba + e.start.count ≤ d.capacitySectors.toNat
  sectors : e.times.length ≤ e.start.count
  due : ∀ i cycle, e.times[i]? = some cycle -> deadline e.start.cycle d (i + 1) ≤ cycle
  /-- A READ touched no drive and gave the bytes of loaded sectors in order, all
  of them if it ended with DONE. -/
  read : e.start.direction = .deviceToMemory -> e.after = e.before ∧
    e.moved = d.bytesFrom e.start.lba e.moved.length ∧ e.moved.length ≤ e.times.length * sectorSize ∧
    (e.outcome = .done -> e.moved.length = e.start.count * sectorSize)
  /-- A WRITE committed a prefix of whole sectors of the bytes it received, all
  of them if it ended with DONE.  A sector that could not be restored either is
  the one behind the prefix. -/
  write : e.start.direction = .memoryToDevice -> e.times.length * sectorSize ≤ e.moved.length ∧
    (e.torn = false -> e.after = update e.before e.start.slot
      (some (d.written e.start.lba e.times.length e.moved))) ∧
    (e.torn = true -> e.times.length < e.start.count ∧ ∃ image, e.after = update e.before e.start.slot
      (some { d with image := image }) ∧ ∀ place, (place < (e.start.lba + e.times.length) * sectorSize ∨
        (e.start.lba + e.times.length + 1) * sectorSize ≤ place) ->
        image place = (d.written e.start.lba e.times.length e.moved).image place) ∧
    (e.outcome = .done -> e.torn = false ∧ e.times.length = e.start.count ∧
      e.moved.length = e.start.count * sectorSize)

/-- Every command found the drives as the one before it left them. -/
def Chained (first : Fin 4 -> Option Drive) : List Ended -> (Fin 4 -> Option Drive) -> Prop
  | [], last => last = first
  | e :: rest, last => e.before = first ∧ Chained e.after rest last

theorem Chained.append {first last : Fin 4 -> Option Drive} {ended : List Ended} (chained : Chained first ended last)
    {e : Ended} (before : e.before = last) : Chained first (ended ++ [e]) e.after := by
  induction ended generalizing first with
  | nil =>
    rw [show last = first from chained] at before
    exact ⟨before, rfl⟩
  | cons earlier rest ih => exact ⟨chained.1, ih chained.2⟩

variable {initial : Fin 4 -> Option Drive} {s : Idc}

/-- The drives as the last command that ended left them. -/
def Idc.settled (s : Idc) : Fin 4 -> Option Drive :=
  match s.active with
  | none => s.drives
  | some a => a.before

/-- The past of the controller and what the running command did. -/
structure Accounted (initial : Fin 4 -> Option Drive) (s : Idc) : Prop where
  /-- Every accepted command runs or ended once. -/
  accepted : s.accepted = s.ended.map Ended.start ++ (s.active.map ActiveCommand.start).toList
  /-- The drives change by commands only. -/
  chained : Chained initial s.ended s.settled
  ended : ∀ e ∈ s.ended, ∃ d, e.Kept d
  running : ∀ a ∈ s.active, ∃ d, Holding s.drives a d

/-- The command goes on. -/
structure Going (a : ActiveCommand) : Prop where
  more : a.completedSectors < a.start.count
  whole : a.torn = false
  cursor : a.cursor ≤ sectorSize
  deadline : ∀ d, a.before a.start.slot = some d ->
    a.nextDeadlineCycle = Devices.deadline a.start.cycle d (a.completedSectors + 1)
  /-- A READ that is not ready holds nothing, and what it staged is its sector. -/
  staged : a.start.direction = .deviceToMemory -> (a.readReady = false -> a.cursor = 0 ∧ a.taken = none) ∧
    (a.readReady = true -> ∀ d, a.before a.start.slot = some d -> ∀ i < sectorSize,
      a.buffer i = d.byteAt ((a.start.lba + a.completedSectors) * sectorSize + i)) ∧
    (a.cursor = sectorSize -> a.taken ≠ none) ∧ (a.taken ≠ none -> a.dmaChannel ≠ none ∧ a.cursor ≠ 0)
  /-- A WRITE stages what it received of its sector, on a drive that takes it. -/
  received : a.start.direction = .memoryToDevice -> (∀ i < a.cursor,
    a.buffer i = a.moved.getD (a.completedSectors * sectorSize + i) 0) ∧
    ∀ d, a.before a.start.slot = some d -> d.readOnly = false

/-- The invariant. -/
structure Sound (initial : Fin 4 -> Option Drive) (s : Idc) : Prop extends Accounted initial s where
  going : ∀ a ∈ s.active, Going a

/-! ## Ends -/

variable {drives : Fin 4 -> Option Drive} {a : ActiveCommand} {d : Drive} {t : Idc}

theorem Holding.kept (holding : Holding drives a d) (outcome : Outcome)
    (complete : outcome = .done -> a.torn = false ∧ a.taken = none ∧ a.cursor = 0 ∧
      a.completedSectors = a.start.count) :
    (Ended.mk a.start a.moved a.times a.before drives a.torn outcome).Kept d := by
  have completed : a.completedSectors ≤ a.start.count :=
    Nat.le_of_mul_le_mul_right (Nat.le_trans (Nat.le_add_right _ _) holding.bounded) sectorSize_pos
  refine ⟨holding.drive, holding.range, ?_, holding.due, fun reads => ?_, fun writes => ?_⟩
  · change a.times.length ≤ a.start.count
    cases direction : a.start.direction with
    | deviceToMemory =>
      obtain ⟨_, _, times, _, more, _, _⟩ := holding.read direction
      rw [times]
      cases ready : a.readReady with
      | false =>
        rw [if_neg Bool.false_ne_true, Nat.add_zero]
        exact completed
      | true =>
        rw [if_pos rfl]
        exact more ready
    | memoryToDevice =>
      rw [(holding.write direction).1]
      exact completed
  · obtain ⟨same, _, times, empty, _, cursor, moved⟩ := holding.read reads
    have length := congrArg List.length moved
    rw [List.length_append, Drive.length_bytesFrom] at length
    refine ⟨same, Drive.bytesFrom_prefix moved, ?_, fun done => ?_⟩
    · change a.moved.length ≤ a.times.length * sectorSize
      rw [times]
      cases ready : a.readReady with
      | false =>
        rw [ready] at empty
        have zero := empty rfl
        rw [if_neg Bool.false_ne_true, Nat.add_zero]
        omega
      | true =>
        rw [if_pos rfl, Nat.add_mul, Nat.one_mul]
        omega
    · obtain ⟨_, none_, start, all⟩ := complete done
      rw [none_, start, all] at length
      exact length
  · obtain ⟨times, taken, moved, good, bad⟩ := holding.write writes
    refine ⟨?_, ?_, ?_, fun done => ?_⟩
    · change a.times.length * sectorSize ≤ a.moved.length
      rw [times, moved]
      exact Nat.le_add_right _ _
    · change a.torn = false -> _
      rw [times]
      exact good
    · change a.torn = true -> _
      rw [times]
      exact bad
    · obtain ⟨whole, _, start, all⟩ := complete done
      refine ⟨whole, times.trans all, ?_⟩
      rw [start, all] at moved
      exact moved

theorem Accounted.settle (accounted : Accounted initial s) {outcome : Outcome}
    (complete : outcome = .done -> ∀ a ∈ s.active, a.torn = false ∧ a.taken = none ∧ a.cursor = 0 ∧
      a.completedSectors = a.start.count) : Sound initial (s.settle outcome) := by
  have accepted := accounted.accepted
  have chained := accounted.chained
  have running := accounted.running
  unfold Idc.settled at chained
  unfold Idc.settle
  cases here : s.active with
  | none =>
    rw [here] at accepted chained
    refine ⟨⟨?_, ?_, fun e member => ?_, fun a active => ?_⟩, fun a active => ?_⟩
    · exact (List.append_nil s.ended).symm ▸ accepted
    · exact (List.append_nil s.ended).symm ▸ chained
    · change e ∈ s.ended ++ [] at member
      rw [List.append_nil] at member
      exact accounted.ended e member
    · cases active
    · cases active
  | some a =>
    rw [here] at accepted chained running
    obtain ⟨d, holding⟩ := running a rfl
    have kept := holding.kept outcome fun done => complete done a here
    refine ⟨⟨?_, ?_, fun e member => ?_, fun a active => ?_⟩, fun a active => ?_⟩
    · change s.accepted = (s.ended ++ [_]).map Ended.start ++ []
      rw [List.append_nil, List.map_append]
      exact accepted
    · exact chained.append rfl
    · rcases List.mem_append.mp member with before | now
      · exact accounted.ended e before
      · rw [List.mem_singleton.mp now]
        exact ⟨d, kept⟩
    · cases active
    · cases active

theorem Accounted.finishError (accounted : Accounted initial s) (code : Word) : Sound initial (s.finishError code) := by
  have settled := @Accounted.settle initial s accounted (.error code) fun done => by cases done
  exact ⟨⟨settled.accepted, settled.chained, settled.ended, settled.running⟩, settled.going⟩

theorem Accounted.finishSuccess (accounted : Accounted initial s)
    (complete : ∀ a ∈ s.active, a.torn = false ∧ a.taken = none ∧ a.cursor = 0 ∧ a.completedSectors = a.start.count) :
    Sound initial s.finishSuccess := by
  have settled := @Accounted.settle initial s accounted .done fun _ => complete
  exact ⟨⟨settled.accepted, settled.chained, settled.ended, settled.running⟩, settled.going⟩

/-- The running command moved on. -/
theorem Accounted.become (accounted : Accounted initial s) {a' : ActiveCommand} (here : s.active = some a)
    (accepted : t.accepted = s.accepted) (ended : t.ended = s.ended) (now : t.active = some a')
    (start : a'.start = a.start) (before : a'.before = a.before) (holding : Holding t.drives a' d) :
    Accounted initial t := by
  have past := accounted.accepted
  have chained := accounted.chained
  unfold Idc.settled at chained
  rw [here] at past chained
  refine ⟨?_, ?_, ?_, fun b active => ?_⟩
  · rw [accepted, ended, now, past]
    change _ = _ ++ [a'.start]
    rw [start]
    rfl
  · unfold Idc.settled
    rw [ended, now]
    change Chained initial s.ended a'.before
    rw [before]
    exact chained
  · rw [ended]
    exact accounted.ended
  · rw [now] at active
    cases active
    exact ⟨d, holding⟩

theorem Accounted.stay (accounted : Accounted initial s) {a' : ActiveCommand} (here : s.active = some a)
    (accepted : t.accepted = s.accepted) (ended : t.ended = s.ended) (now : t.active = some a')
    (start : a'.start = a.start) (before : a'.before = a.before) (holding : Holding t.drives a' d)
    (going : Going a') :
    Sound initial t := by
  refine ⟨accounted.become here accepted ended now start before holding, fun b active => ?_⟩
  rw [now] at active
  cases active
  exact going

/-! ## Bytes -/

variable {a old : ActiveCommand} {d : Drive}

/-- The drive of a running command, as it is now. -/
theorem Holding.current (holding : Holding drives a d) (whole : a.torn = false) :
    ∃ image, drives a.start.slot = some { d with image := image } ∧ (a.start.direction = .deviceToMemory -> image = d.image) ∧
      (a.start.direction = .memoryToDevice ->
        image = (d.written a.start.lba a.completedSectors a.moved).image) := by
  cases direction : a.start.direction with
  | deviceToMemory =>
    refine ⟨d.image, ?_, fun _ => rfl, ?_⟩
    · rw [(holding.read direction).1]
      exact holding.drive
    · intro other
      cases other
  | memoryToDevice =>
    refine ⟨(d.written a.start.lba a.completedSectors a.moved).image, ?_, ?_, fun _ => rfl⟩
    · rw [(holding.write direction).2.2.2.1 whole, update_self]
      rfl
    · intro other
      cases other

/-- The next sector of a command gets its deadline. -/
theorem Accounted.nextDeadline (accounted : Accounted initial s) (here : s.active = some old) (start : a.start = old.start)
    (before : a.before = old.before) (holding : Holding s.drives a d)
    (going : ∀ due, due = deadline a.start.cycle d (a.completedSectors + 1) -> Going { a with nextDeadlineCycle := due }) :
    Sound initial (s.nextDeadline a) := by
  have whole := (going _ rfl).whole
  obtain ⟨image, drive, _⟩ := holding.current whole
  unfold Idc.nextDeadline
  rw [drive]
  exact accounted.stay here rfl rfl rfl start before ⟨holding.drive, holding.range, holding.bounded, holding.due,
    holding.read, holding.write⟩ (going _ rfl)

/-- All bytes of a sector were read. -/
theorem Holding.sectorRead (holding : Holding drives a d) (reads : a.start.direction = .deviceToMemory)
    (ready : a.readReady = true) (full : a.cursor = sectorSize) :
    Holding drives { a with completedSectors := a.completedSectors + 1, cursor := 0, readReady := false } d := by
  obtain ⟨same, whole, times, _, more, _, moved⟩ := holding.read reads
  rw [ready, if_pos rfl] at times
  have place : (a.completedSectors + 1) * sectorSize = a.completedSectors * sectorSize + sectorSize := by
    rw [Nat.add_mul, Nat.one_mul]
  refine ⟨holding.drive, holding.range, ?_, holding.due, fun _ => ⟨same, whole, ?_, fun _ => rfl, ?_, Nat.zero_le _, ?_⟩, ?_⟩
  · exact Nat.mul_le_mul_right _ (more ready)
  · exact times
  · intro other
    cases other
  · change a.moved ++ a.taken.toList = d.bytesFrom a.start.lba ((a.completedSectors + 1) * sectorSize + 0)
    rw [Nat.add_zero, place, moved, full]
  · intro writes
    rw [reads] at writes
    cases writes

theorem Accounted.sectorRead (accounted : Accounted initial s) (here : s.active = some old) (start : a.start = old.start)
    (before : a.before = old.before) (holding : Holding s.drives a d) (reads : a.start.direction = .deviceToMemory)
    (ready : a.readReady = true) (full : a.cursor = sectorSize) (idle : a.taken = none) :
    Sound initial (s.sectorRead a) := by
  have next := holding.sectorRead reads ready full
  obtain ⟨_, whole, _⟩ := holding.read reads
  unfold Idc.sectorRead
  dsimp only
  by_cases all : a.completedSectors + 1 = a.start.count
  · rw [if_pos all]
    have became : Accounted initial { s with
        active := some { a with completedSectors := a.completedSectors + 1, cursor := 0, readReady := false } } :=
      accounted.become here rfl rfl rfl start before next
    refine became.finishSuccess fun b active => ?_
    cases active
    exact ⟨whole, idle, rfl, all⟩
  · rw [if_neg all]
    refine accounted.nextDeadline here start before next fun due same => ?_
    have more := (holding.read reads).2.2.2.2.1 ready
    refine ⟨?_, whole, Nat.zero_le _, fun other drive => ?_, fun _ => ⟨fun _ => ⟨rfl, idle⟩, fun wrong => ?_, fun wrong => ?_,
      fun wrong => absurd idle wrong⟩, fun writes => ?_⟩
    · change a.completedSectors + 1 < a.start.count
      omega
    · have known : some d = some other := holding.drive.symm.trans drive
      cases known
      exact same
    · cases wrong
    · exact absurd wrong (Nat.ne_of_lt sectorSize_pos)
    · change a.start.direction = .memoryToDevice at writes
      rw [reads] at writes
      cases writes

/-- One more byte of a sector is taken from the buffer. -/
theorem Holding.take (holding : Holding drives a d) (going : Going a) (reads : a.start.direction = .deviceToMemory)
    (ready : a.ready = true) (idle : a.taken = none) :
    a.readReady = true ∧ a.cursor + 1 ≤ sectorSize ∧
      a.moved ++ [a.buffer a.cursor] = d.bytesFrom a.start.lba (a.completedSectors * sectorSize + (a.cursor + 1)) ∧
      a.completedSectors * sectorSize + (a.cursor + 1) ≤ a.start.count * sectorSize := by
  unfold ActiveCommand.ready at ready
  rw [reads] at ready
  dsimp only at ready
  rw [Bool.and_eq_true, decide_eq_true_iff] at ready
  obtain ⟨loaded, below⟩ := ready
  obtain ⟨_, _, _, _, more, _, moved⟩ := holding.read reads
  rw [idle, Option.toList_none, List.append_nil] at moved
  refine ⟨loaded, below, ?_, ?_⟩
  · rw [← Nat.add_assoc, Drive.bytesFrom_succ, moved, (going.staged reads).2.1 loaded d holding.drive _ below, Nat.add_mul,
      Nat.add_assoc]
  · have whole : (a.completedSectors + 1) * sectorSize ≤ a.start.count * sectorSize :=
      Nat.mul_le_mul_right _ (more loaded)
    rw [Nat.add_mul, Nat.one_mul] at whole
    omega

theorem Sound.holding (sound : Sound initial s) (here : s.active = some a) : Going a ∧ ∃ d, Holding s.drives a d :=
  ⟨sound.going a here, sound.running a here⟩

/-- The processor reads a byte, while no DMA channel does. -/
theorem Sound.readDataByte (sound : Sound initial s) (alone : ∀ a ∈ s.active, a.dmaChannel = none) :
    Sound initial s.readDataByte.2 := by
  unfold Idc.readDataByte
  cases here : s.active with
  | none => exact sound
  | some a =>
    dsimp only
    by_cases moves : a.start.direction = .deviceToMemory ∧ a.ready = true
    · rw [if_pos moves]
      obtain ⟨going, d, holding⟩ := sound.holding here
      have idle : a.taken = none := by
        by_contra some_
        exact ((going.staged moves.1).2.2.2 some_).1 (alone a here)
      obtain ⟨loaded, below, bytes, bounded⟩ := holding.take going moves.1 moves.2 idle
      obtain ⟨same, whole, times, _, more, _, _⟩ := holding.read moves.1
      have taken : Holding s.drives { a with cursor := a.cursor + 1, moved := a.moved ++ [a.buffer a.cursor] } d := by
        refine ⟨holding.drive, holding.range, bounded, holding.due, fun _ => ⟨same, whole, times, fun wrong => ?_, more,
          below, ?_⟩, fun writes => ?_⟩
        · exact absurd (loaded.symm.trans wrong) Bool.noConfusion
        · change (a.moved ++ [a.buffer a.cursor]) ++ a.taken.toList = _
          rw [idle, Option.toList_none, List.append_nil]
          exact bytes
        · exact absurd (moves.1.symm.trans writes) DmaDirection.noConfusion
      by_cases last : a.cursor + 1 = sectorSize ∧ a.dmaChannel = none
      · rw [if_pos last]
        exact sound.toAccounted.sectorRead here rfl rfl taken moves.1 loaded last.1 idle
      · rw [if_neg last]
        have some_ : a.cursor + 1 ≠ sectorSize := fun full => last ⟨full, alone a here⟩
        refine sound.toAccounted.stay here rfl rfl rfl rfl rfl taken ⟨going.more, going.whole, below, going.deadline,
          fun _ => ⟨fun wrong => ?_, (going.staged moves.1).2.1, fun full => absurd full some_,
            fun wrong => absurd idle wrong⟩, fun writes => ?_⟩
        · exact absurd (loaded.symm.trans wrong) Bool.noConfusion
        · exact absurd (moves.1.symm.trans writes) DmaDirection.noConfusion
    · rw [if_neg moves]
      exact sound

/-- One more byte of a sector is received. -/
theorem Holding.put (holding : Holding drives a d) (going : Going a) (writes : a.start.direction = .memoryToDevice)
    (ready : a.ready = true) (value : Byte) :
    Holding drives (a.put value) d ∧ Going (a.put value) := by
  unfold ActiveCommand.ready at ready
  rw [writes] at ready
  have below : a.cursor < sectorSize := of_decide_eq_true ready
  obtain ⟨times, idle, moved, good, bad⟩ := holding.write writes
  obtain ⟨received, writable⟩ := going.received writes
  have room : (a.completedSectors + 1) * sectorSize ≤ a.start.count * sectorSize := Nat.mul_le_mul_right _ going.more
  rw [Nat.add_mul, Nat.one_mul] at room
  have whole : a.completedSectors * sectorSize ≤ a.moved.length := by omega
  have same : ∀ count, count = a.completedSectors ->
      d.written a.start.lba count (a.moved ++ [value]) = d.written a.start.lba count a.moved := by
    rintro count rfl
    exact Drive.written_append whole
  constructor
  · refine ⟨holding.drive, holding.range, ?_, holding.due, fun reads => ?_, fun _ => ⟨times, idle, ?_, fun fine => ?_,
      fun torn => ?_⟩⟩
    · change a.completedSectors * sectorSize + (a.cursor + 1) ≤ a.start.count * sectorSize
      omega
    · exact absurd (writes.symm.trans reads) DmaDirection.noConfusion
    · change (a.moved ++ [value]).length = a.completedSectors * sectorSize + (a.cursor + 1)
      rw [List.length_append, moved]
      rfl
    · change drives = update a.before a.start.slot (some (d.written a.start.lba a.completedSectors (a.moved ++ [value])))
      rw [same _ rfl]
      exact good fine
    · exact absurd (going.whole.symm.trans torn) Bool.noConfusion
  · refine ⟨going.more, going.whole, below, going.deadline, fun reads => ?_, fun _ => ⟨fun i small => ?_, writable⟩⟩
    · exact absurd (writes.symm.trans reads) DmaDirection.noConfusion
    · change update a.buffer a.cursor value i = (a.moved ++ [value]).getD (a.completedSectors * sectorSize + i) 0
      rw [List.getD_eq_getElem?_getD]
      by_cases last : i = a.cursor
      · rw [last, update_self, ← moved, List.getElem?_append_right (Nat.le_refl _), Nat.sub_self]
        rfl
      · have before : i < a.cursor := Nat.lt_of_le_of_ne (Nat.lt_succ_iff.mp small) last
        rw [Function.update_of_ne last, received i before, List.getElem?_append_left (by omega),
          List.getD_eq_getElem?_getD]

theorem Sound.writeDataByte (sound : Sound initial s) (value : Byte) : Sound initial (s.writeDataByte value) := by
  unfold Idc.writeDataByte
  cases here : s.active with
  | none => exact sound
  | some a =>
    dsimp only
    by_cases moves : a.start.direction = .memoryToDevice ∧ a.ready = true
    · rw [if_pos moves]
      obtain ⟨going, d, holding⟩ := sound.holding here
      obtain ⟨held, goes⟩ := holding.put going moves.1 moves.2 value
      exact sound.toAccounted.stay here rfl rfl rfl rfl rfl held goes
    · rw [if_neg moves]
      exact sound

/-! ## DMA -/

theorem Sound.attachDma (sound : Sound initial s) (channel : Nat) : Sound initial (s.attachDma channel) := by
  unfold Idc.attachDma
  cases here : s.active with
  | none => exact sound
  | some a =>
    dsimp only
    by_cases attached : a.dmaChannel ≠ none
    · rw [if_pos attached]
      exact sound
    · rw [if_neg attached]
      obtain ⟨going, d, holding⟩ := sound.holding here
      refine sound.toAccounted.stay here rfl rfl rfl rfl rfl ⟨holding.drive, holding.range, holding.bounded, holding.due,
        holding.read, holding.write⟩ ⟨going.more, going.whole, going.cursor, going.deadline, fun reads => ?_, going.received⟩
      obtain ⟨empty, staged, full, attachedToo⟩ := going.staged reads
      exact ⟨empty, staged, full, fun some_ => ⟨Option.some_ne_none channel, (attachedToo some_).2⟩⟩

theorem Sound.error_if (sound : Sound initial s) (bad : Prop) [Decidable bad] (code : Word) :
    Sound initial (if bad then s.finishError code else s) := by
  split_ifs
  · exact sound.toAccounted.finishError code
  · exact sound

/-- Both beats of a byte are through. -/
theorem Accounted.byteCompleted (accounted : Accounted initial s) (here : s.active = some old) (start : a.start = old.start)
    (before : a.before = old.before) (holding : Holding s.drives a d) (going : Going a) :
    Sound initial (s.byteCompleted a) := by
  unfold Idc.byteCompleted
  dsimp only
  by_cases reads : a.start.direction = .deviceToMemory
  · obtain ⟨same, whole, times, empty, more, cursor, moved⟩ := holding.read reads
    obtain ⟨nothing, staged, full, attached⟩ := going.staged reads
    have held : Holding s.drives { a with
        dmaBytesCompleted := a.dmaBytesCompleted + 1, moved := a.moved ++ a.taken.toList, taken := none } d := by
      refine ⟨holding.drive, holding.range, holding.bounded, holding.due,
        fun _ => ⟨same, whole, times, empty, more, cursor, ?_⟩, fun writes => ?_⟩
      · change (a.moved ++ a.taken.toList) ++ [] = _
        rw [List.append_nil]
        exact moved
      · exact absurd (reads.symm.trans writes) DmaDirection.noConfusion
    by_cases all : a.start.direction = .deviceToMemory ∧ a.cursor = sectorSize
    · rw [if_pos all]
      have ready : a.readReady = true := by
        by_contra unready
        rw [(nothing (Bool.eq_false_of_not_eq_true unready)).1] at all
        exact Nat.ne_of_lt sectorSize_pos all.2
      split_ifs
      · have next := held.sectorRead reads ready all.2
        have became : Accounted initial { s with active := some { a with
            dmaBytesCompleted := a.dmaBytesCompleted + 1, moved := a.moved ++ a.taken.toList, taken := none,
            completedSectors := a.completedSectors + 1, cursor := 0, readReady := false } } :=
          accounted.become here rfl rfl rfl start before next
        exact became.finishError 5
      · exact accounted.sectorRead here start before held reads ready all.2 rfl
    · rw [if_neg all]
      have became : Accounted initial { s with active := some { a with
          dmaBytesCompleted := a.dmaBytesCompleted + 1, moved := a.moved ++ a.taken.toList, taken := none } } :=
        accounted.become here rfl rfl rfl start before held
      split_ifs
      · exact became.finishError 5
      · refine accounted.stay here rfl rfl rfl start before held ⟨going.more, going.whole, going.cursor, going.deadline,
          fun _ => ⟨fun unready => ⟨(nothing unready).1, rfl⟩, staged, fun sector => absurd ⟨reads, sector⟩ all,
            fun wrong => absurd rfl wrong⟩, fun writes => ?_⟩
        exact absurd (reads.symm.trans writes) DmaDirection.noConfusion
  · have writes : a.start.direction = .memoryToDevice := by
      cases direction : a.start.direction with
      | deviceToMemory => exact absurd direction reads
      | memoryToDevice => rfl
    obtain ⟨times, idle, moved, good, bad⟩ := holding.write writes
    have bytes : a.moved ++ a.taken.toList = a.moved := by
      rw [idle, Option.toList_none, List.append_nil]
    rw [if_neg fun both => reads both.1, bytes]
    have held : Holding s.drives { a with dmaBytesCompleted := a.dmaBytesCompleted + 1, taken := none } d :=
      ⟨holding.drive, holding.range, holding.bounded, holding.due, fun other => absurd other reads,
        fun _ => ⟨times, rfl, moved, good, bad⟩⟩
    have became : Accounted initial { s with
        active := some { a with dmaBytesCompleted := a.dmaBytesCompleted + 1, taken := none } } :=
      accounted.become here rfl rfl rfl start before held
    split_ifs
    · exact became.finishError 5
    · exact accounted.stay here rfl rfl rfl start before held ⟨going.more, going.whole, going.cursor, going.deadline,
        fun other => absurd other reads, going.received⟩

theorem Sound.dmaReadBeat (sound : Sound initial s) (channel : Nat) : Sound initial (s.dmaReadBeat channel) := by
  unfold Idc.dmaReadBeat
  cases here : s.active with
  | none => exact sound
  | some a =>
    dsimp only
    by_cases other : a.dmaChannel ≠ some channel ∨ a.taken ≠ none
    · rw [if_pos other]
      exact sound
    · rw [if_neg other]
      rw [not_or, not_not, not_not] at other
      obtain ⟨attached, idle⟩ := other
      by_cases moves : a.start.direction = .deviceToMemory ∧ a.ready = true
      · rw [if_pos moves]
        obtain ⟨going, d, holding⟩ := sound.holding here
        obtain ⟨loaded, below, bytes, bounded⟩ := holding.take going moves.1 moves.2 idle
        obtain ⟨same, whole, times, _, more, _, _⟩ := holding.read moves.1
        have unready : ∀ {p : Prop}, a.readReady = false -> p := fun wrong =>
          absurd (loaded.symm.trans wrong) Bool.noConfusion
        refine sound.toAccounted.stay here rfl rfl rfl rfl rfl ⟨holding.drive, holding.range, bounded, holding.due,
          fun _ => ⟨same, whole, times, unready, more, below, bytes⟩, fun writes => ?_⟩
          ⟨going.more, going.whole, below, going.deadline, fun _ => ⟨unready, (going.staged moves.1).2.1,
            fun _ => Option.some_ne_none _, fun _ => ⟨?_, Nat.succ_ne_zero _⟩⟩, fun writes => ?_⟩
        · exact absurd (moves.1.symm.trans writes) DmaDirection.noConfusion
        · change a.dmaChannel ≠ none
          rw [attached]
          exact Option.some_ne_none channel
        · exact absurd (moves.1.symm.trans writes) DmaDirection.noConfusion
      · rw [if_neg moves]
        exact sound.toAccounted.finishError 5

theorem Sound.dmaReadCompleted (sound : Sound initial s) (channel : Nat) : Sound initial (s.dmaReadCompleted channel) := by
  unfold Idc.dmaReadCompleted
  cases here : s.active with
  | none => exact sound
  | some a =>
    dsimp only
    split_ifs
    · exact sound
    · obtain ⟨going, d, holding⟩ := sound.holding here
      exact sound.toAccounted.byteCompleted here rfl rfl holding going

theorem Sound.dmaWriteBeat (sound : Sound initial s) (channel : Nat) (value : Byte) :
    Sound initial (s.dmaWriteBeat channel value) := by
  unfold Idc.dmaWriteBeat
  cases here : s.active with
  | none => exact sound
  | some a =>
    dsimp only
    split_ifs with other moves
    · exact sound
    · obtain ⟨going, d, holding⟩ := sound.holding here
      obtain ⟨held, goes⟩ := holding.put going moves.1 moves.2 value
      exact sound.toAccounted.byteCompleted here rfl rfl held goes
    · exact sound.toAccounted.finishError 5

theorem Sound.abortDmaAtBoundary (sound : Sound initial s) (channel : Nat) : Sound initial (s.abortDmaAtBoundary channel) := by
  unfold Idc.abortDmaAtBoundary
  cases here : s.active with
  | none => exact sound
  | some a => exact sound.error_if _ 5

/-! ## Registers -/

/-- What leaves the command and its past alone. -/
theorem Accounted.aside (accounted : Accounted initial s) (accepted : t.accepted = s.accepted)
    (ended : t.ended = s.ended) (active : t.active = s.active) (drives : t.drives = s.drives) :
    Accounted initial t := by
  refine ⟨?_, ?_, ?_, ?_⟩
  · rw [accepted, ended, active]
    exact accounted.accepted
  · unfold Idc.settled
    rw [ended, active, drives]
    exact accounted.chained
  · rw [ended]
    exact accounted.ended
  · rw [active, drives]
    exact accounted.running

theorem Sound.aside (sound : Sound initial s) (accepted : t.accepted = s.accepted) (ended : t.ended = s.ended)
    (active : t.active = s.active) (drives : t.drives = s.drives) : Sound initial t := by
  refine ⟨sound.toAccounted.aside accepted ended active drives, ?_⟩
  rw [active]
  exact sound.going

theorem Sound.startTransfer (sound : Sound initial s) (idle : s.active = none) (direction : DmaDirection) :
    Sound initial (s.startTransfer direction) := by
  have failed := fun code => sound.toAccounted.finishError code
  unfold Idc.startTransfer
  by_cases small : s.driveSelect.toNat < 4
  · rw [dif_pos small]
    by_cases count : s.sectorCount = 0 ∨ s.sectorCount > maxSectorCount
    · rw [if_pos count]
      exact failed 1
    · rw [if_neg count]
      dsimp only
      cases drive : s.drives ⟨s.driveSelect.toNat, small⟩ with
      | none => exact failed 2
      | some d =>
        dsimp only
        by_cases outside : s.lba.toNat + s.sectorCount.toNat > d.capacitySectors.toNat
        · rw [if_pos outside]
          exact failed 3
        · rw [if_neg outside]
          by_cases locked : direction = .memoryToDevice ∧ d.readOnly = true
          · rw [if_pos locked]
            exact failed 4
          · rw [if_neg locked]
            have some_ : 0 < s.sectorCount.toNat := by
              rw [Nat.pos_iff_ne_zero]
              exact fun zero => count (Or.inl (BitVec.eq_of_toNat_eq zero))
            have accepted := sound.accepted
            have chained := sound.chained
            unfold Idc.settled at chained
            rw [idle] at accepted chained
            unfold Idc.nextDeadline
            dsimp only
            rw [drive]
            dsimp only
            refine ⟨⟨?_, chained, sound.ended, fun a active => ?_⟩, fun a active => ?_⟩
            · change s.accepted ++ [_] = s.ended.map Ended.start ++ [_]
              rw [accepted]
              exact congrArg (· ++ [_]) (List.append_nil _)
            · cases active
              refine ⟨d, drive, Nat.le_of_not_lt outside, ?_, fun i cycle none_ => ?_, fun _ => ⟨rfl, rfl, rfl, fun _ => rfl,
                fun wrong => ?_, Nat.zero_le _, ?_⟩, fun _ => ⟨rfl, rfl, ?_, fun _ => ?_, fun wrong => ?_⟩⟩
              · change 0 * sectorSize + 0 ≤ _
                rw [Nat.zero_mul]
                exact Nat.zero_le _
              · cases none_
              · cases wrong
              · change [] = d.bytesFrom s.lba.toNat (0 * sectorSize + 0)
                rw [Nat.zero_mul]
                rfl
              · change 0 = 0 * sectorSize + 0
                rw [Nat.zero_mul]
              · change s.drives = update s.drives _ (some (d.written s.lba.toNat 0 []))
                rw [Drive.written_zero, ← drive, Function.update_eq_self]
              · cases wrong
            · cases active
              refine ⟨some_, rfl, Nat.zero_le _, fun other known => ?_, fun _ => ⟨fun _ => ⟨rfl, rfl⟩, fun wrong => ?_,
                fun wrong => ?_, fun wrong => absurd rfl wrong⟩, fun writes => ⟨fun i wrong => absurd wrong (Nat.not_lt_zero i),
                fun other known => ?_⟩⟩
              · cases drive.symm.trans known
                rfl
              · cases wrong
              · exact absurd wrong (Nat.ne_of_lt sectorSize_pos)
              · cases drive.symm.trans known
                exact Bool.eq_false_of_not_eq_true fun locks => locked ⟨writes, locks⟩
  · rw [dif_neg small]
    exact failed 1

theorem Sound.identify (sound : Sound initial s) (idle : s.active = none) : Sound initial s.identify := by
  have cleared : Accounted initial { s with driveType := 0, sectorSizeRegister := 0, capacitySectors := 0, driveFlags := 0 } :=
    sound.toAccounted.aside rfl rfl rfl rfl
  unfold Idc.identify
  dsimp only
  by_cases small : s.driveSelect.toNat < 4
  · rw [dif_pos small]
    cases drive : s.drives ⟨s.driveSelect.toNat, small⟩ with
    | none => exact cleared.finishError 2
    | some d =>
      have known : Accounted initial { s with
          driveType := d.kind
          sectorSizeRegister := BitVec.ofNat 32 sectorSize
          capacitySectors := d.capacitySectors
          driveFlags := 1 ||| (if d.readOnly then 1 else 0) <<< 1 } :=
        sound.toAccounted.aside rfl rfl rfl rfl
      refine known.finishSuccess fun a active => ?_
      change a ∈ s.active at active
      rw [idle] at active
      cases active
  · rw [dif_neg small]
    exact cleared.finishError 1

theorem Sound.abort (sound : Sound initial s) : Sound initial s.abort := by
  unfold Idc.abort
  cases here : s.active with
  | none => exact sound
  | some a =>
    dsimp only
    split_ifs
    · exact sound.toAccounted.finishError 5
    · obtain ⟨going, d, holding⟩ := sound.holding here
      exact sound.toAccounted.stay here rfl rfl rfl rfl rfl ⟨holding.drive, holding.range, holding.bounded, holding.due,
        holding.read, holding.write⟩ ⟨going.more, going.whole, going.cursor, going.deadline, going.staged, going.received⟩

theorem Sound.executeCommand (sound : Sound initial s) (command : Word) : Sound initial (s.executeCommand command) := by
  unfold Idc.executeCommand
  by_cases aborts : command = 4
  · rw [if_pos aborts]
    exact sound.abort
  · rw [if_neg aborts]
    by_cases refused : s.active.isSome = true ∨ s.control &&& 1 = 0
    · rw [if_pos refused]
      exact sound
    · rw [if_neg refused]
      have cleared : Sound initial { s with errorCode := 0 } := sound.aside rfl rfl rfl rfl
      have idle : s.active = none := by
        rw [not_or, Bool.not_eq_true, Option.isSome_eq_false_iff, Option.isNone_iff_eq_none] at refused
        exact refused.1
      dsimp only
      split_ifs
      · exact cleared.startTransfer idle _
      · exact cleared.startTransfer idle _
      · exact cleared.identify idle
      · exact cleared.toAccounted.finishError 1

theorem Sound.writeByte (sound : Sound initial s) (register : Word) (lane : Fin 4) (value : Byte) :
    Sound initial (s.writeByte register lane value) := by
  unfold Idc.writeByte
  refine iteInduction (fun _ => sound.aside rfl rfl rfl rfl) fun _ => ?_
  refine iteInduction (fun _ => sound.aside rfl rfl rfl rfl) fun _ => ?_
  refine iteInduction (fun _ => sound.aside rfl rfl rfl rfl) fun _ => ?_
  refine iteInduction (fun _ => sound.aside rfl rfl rfl rfl) fun _ => ?_
  refine iteInduction (fun _ => sound.aside rfl rfl rfl rfl) fun _ => ?_
  refine iteInduction (fun _ => ?_) fun _ => ?_
  · unfold Idc.writeCommand
    have cleared : Sound initial { s with commandWord := 0 } := sound.aside rfl rfl rfl rfl
    exact iteInduction (fun _ => cleared.executeCommand _) fun _ => sound.aside rfl rfl rfl rfl
  refine iteInduction (fun _ => sound.aside rfl rfl rfl rfl) fun _ => ?_
  refine iteInduction (fun _ => sound.aside rfl rfl rfl rfl) fun _ => ?_
  exact iteInduction (fun _ => sound.writeDataByte value) fun _ => sound

/-! ## Sectors that are due -/

/-- A sector is loaded or committed now, at its deadline or later. -/
theorem Holding.due_now (holding : Holding drives a d) (going : Going a) {cycle : Nat}
    (late : a.nextDeadlineCycle ≤ cycle) (count : a.times.length = a.completedSectors) :
    ∀ i time, (a.times ++ [cycle])[i]? = some time -> deadline a.start.cycle d (i + 1) ≤ time := by
  intro i time found
  by_cases before : i < a.times.length
  · rw [List.getElem?_append_left before] at found
    exact holding.due i time found
  · rw [List.getElem?_append_right (Nat.le_of_not_lt before)] at found
    have last : i = a.completedSectors := by
      have inside := (List.getElem?_eq_some_iff.mp found).1
      rw [List.length_singleton] at inside
      omega
    rw [last, ← count, Nat.sub_self] at found
    cases found
    rw [last, ← going.deadline d holding.drive]
    exact late

theorem Sound.load (sound : Sound initial s) (here : s.active = some a)
    (reads : a.start.direction = .deviceToMemory) (unready : a.readReady = false)
    (late : a.nextDeadlineCycle ≤ s.cycle) (drive : s.drives a.start.slot = some d) (fails : Bool) :
    Sound initial (s.load a d fails).2 := by
  obtain ⟨going, known, holding⟩ := sound.holding here
  obtain ⟨same, whole, times, empty, _, cursor, moved⟩ := holding.read reads
  rw [same, holding.drive] at drive
  obtain rfl : known = d := Option.some.inj drive
  rw [unready, if_neg Bool.false_ne_true, Nat.add_zero] at times
  obtain ⟨zero, idle⟩ := (going.staged reads).1 unready
  unfold Idc.load
  cases read : known.readSector (a.start.lba + a.completedSectors) fails with
  | none => exact sound.toAccounted.finishError 6
  | some buffer =>
    have inside : a.start.lba + a.completedSectors < known.capacitySectors.toNat :=
      Nat.lt_of_lt_of_le (Nat.add_lt_add_left going.more _) holding.range
    have bytes := Drive.readSector_some inside read
    have held : Holding s.drives { a with
        buffer := buffer, cursor := 0, readReady := true, times := a.times ++ [s.cycle] } known := by
      have bounded := holding.bounded
      rw [zero] at bounded moved
      refine ⟨holding.drive, holding.range, bounded, holding.due_now going late times, fun _ => ⟨same, whole, ?_,
        fun wrong => ?_, fun _ => going.more, Nat.zero_le _, moved⟩, fun writes => ?_⟩
      · change (a.times ++ [s.cycle]).length = _
        rw [List.length_append, times]
        rfl
      · cases wrong
      · exact absurd (reads.symm.trans writes) DmaDirection.noConfusion
    refine sound.toAccounted.stay here rfl rfl rfl rfl rfl held ⟨going.more, going.whole, Nat.zero_le _, going.deadline,
      fun _ => ⟨fun wrong => ?_, fun _ other same => ?_, fun wrong => ?_, fun wrong => absurd idle wrong⟩, fun writes => ?_⟩
    · cases wrong
    · cases holding.drive.symm.trans same
      exact bytes
    · exact absurd wrong (Nat.ne_of_lt sectorSize_pos)
    · exact absurd (reads.symm.trans writes) DmaDirection.noConfusion

/-- A commit that fails leaves every other sector alone. -/
theorem torn_elsewhere {image : Nat -> Byte} {lba held place : Nat} {left : Nat -> Byte} (le : held ≤ sectorSize)
    (away : place < lba * sectorSize ∨ (lba + 1) * sectorSize ≤ place) :
    overwrite image (lba * sectorSize) held left place = image place := by
  unfold overwrite
  rw [if_neg]
  rw [Nat.add_mul, Nat.one_mul] at away
  omega

theorem Sound.commit (sound : Sound initial s) (here : s.active = some a) (writes : a.start.direction = .memoryToDevice)
    (full : a.cursor = sectorSize) (late : a.nextDeadlineCycle ≤ s.cycle) {d' : Drive}
    (drive : s.drives a.start.slot = some d') (io : WriteIo) : Sound initial (s.commit a d' io).2 := by
  obtain ⟨going, d, holding⟩ := sound.holding here
  obtain ⟨times, idle, moved, good, _⟩ := holding.write writes
  obtain ⟨received, writable⟩ := going.received writes
  have drives := good going.whole
  rw [drives, update_self] at drive
  cases drive
  have inside : a.start.lba + a.completedSectors < d.capacitySectors.toNat :=
    Nat.lt_of_lt_of_le (Nat.add_lt_add_left going.more _) holding.range
  have away : ∀ {p : Prop}, a.start.direction = .deviceToMemory -> p := fun reads =>
    absurd (writes.symm.trans reads) DmaDirection.noConfusion
  have brought := moved
  rw [full] at received moved
  have noted : ∀ new, update s.drives a.start.slot (some new) = update a.before a.start.slot (some new) := by
    intro new
    rw [drives, Function.update_idem]
  have place : (a.completedSectors + 1) * sectorSize = a.completedSectors * sectorSize + sectorSize := by
    rw [Nat.add_mul, Nat.one_mul]
  -- A commit that fails: the drive holds `image`, which differs in this sector at most.
  have failed : ∀ image torn, (torn = false -> image = (d.written a.start.lba a.completedSectors a.moved).image) ->
      (∀ p, (p < (a.start.lba + a.completedSectors) * sectorSize ∨ (a.start.lba + a.completedSectors + 1) * sectorSize ≤ p) ->
        image p = (d.written a.start.lba a.completedSectors a.moved).image p) ->
      Sound initial (Idc.finishError { s with
        drives := update s.drives a.start.slot (some { d with image := image }), active := some { a with torn := torn } } 6) := by
    intro image torn kept elsewhere
    have held : Holding (update s.drives a.start.slot (some { d with image := image })) { a with torn := torn } d := by
      refine ⟨holding.drive, holding.range, holding.bounded, holding.due, away, fun _ => ⟨times, idle, ?_, fun fine => ?_,
        fun _ => ⟨going.more, image, noted _, elsewhere⟩⟩⟩
      · exact brought
      · rw [noted, kept fine]
        rfl
    have became : Accounted initial { s with
        drives := update s.drives a.start.slot (some { d with image := image }), active := some { a with torn := torn } } :=
      sound.toAccounted.become here rfl rfl rfl rfl rfl held
    exact became.finishError 6
  unfold Idc.commit Drive.writeSector
  have open_ : (d.written a.start.lba a.completedSectors a.moved).readOnly = false := writable d holding.drive
  by_cases memory : (d.written a.start.lba a.completedSectors a.moved).readOnly = true ∨
      (d.written a.start.lba a.completedSectors a.moved).medium = .bytes
  · rw [if_pos memory]
    exact failed _ _ (fun _ => rfl) fun _ _ => rfl
  · rw [if_neg memory]
    cases io with
    | kept => exact failed _ _ (fun _ => rfl) fun _ _ => rfl
    | torn left =>
      refine failed _ _ (fun wrong => ?_) fun p elsewhere => torn_elsewhere (Drive.held_le _ _) elsewhere
      cases wrong
    | done =>
      dsimp only
      rw [if_pos rfl]
      have next : Holding (update s.drives a.start.slot (some { d.written a.start.lba a.completedSectors a.moved with
          image := overwrite (d.written a.start.lba a.completedSectors a.moved).image
            ((a.start.lba + a.completedSectors) * sectorSize) (d.held (a.start.lba + a.completedSectors)) a.buffer }))
          { a with completedSectors := a.completedSectors + 1, cursor := 0, buffer := fun _ => 0,
                   times := a.times ++ [s.cycle] } d := by
        rw [Drive.written_succ inside received]
        refine ⟨holding.drive, holding.range, Nat.mul_le_mul_right _ going.more, holding.due_now going late times, away,
          fun _ => ⟨?_, idle, ?_, fun _ => noted _, fun wrong => ?_⟩⟩
        · change (a.times ++ [s.cycle]).length = a.completedSectors + 1
          rw [List.length_append, times]
          rfl
        · change a.moved.length = (a.completedSectors + 1) * sectorSize + 0
          rw [Nat.add_zero, place]
          exact moved
        · exact absurd (going.whole.symm.trans wrong) Bool.noConfusion
      have became : Accounted initial { s with
          drives := update s.drives a.start.slot (some { d.written a.start.lba a.completedSectors a.moved with
            image := overwrite (d.written a.start.lba a.completedSectors a.moved).image
              ((a.start.lba + a.completedSectors) * sectorSize) (d.held (a.start.lba + a.completedSectors)) a.buffer })
          active := some { a with completedSectors := a.completedSectors + 1, cursor := 0, buffer := fun _ => 0,
                                  times := a.times ++ [s.cycle] } } :=
        sound.toAccounted.become here rfl rfl rfl rfl rfl next
      by_cases all : a.completedSectors + 1 = a.start.count
      · rw [if_pos all]
        refine became.finishSuccess fun b active => ?_
        cases active
        exact ⟨going.whole, idle, rfl, all⟩
      · rw [if_neg all]
        have more := going.more
        refine became.nextDeadline rfl rfl rfl next fun due same => ⟨?_, going.whole, Nat.zero_le _, fun other known => ?_,
          away, fun _ => ⟨fun i wrong => absurd wrong (Nat.not_lt_zero i), writable⟩⟩
        · change a.completedSectors + 1 < a.start.count
          omega
        · cases holding.drive.symm.trans known
          exact same

end Src32.Devices
