import Src32.Cow.Durability

namespace Src32.Cow

/-!
# Crashes and opening again

An overlay takes writes, and at any time its file may be cut down to some of its
first bytes and be opened again.  What is shown then is the first writes of the
log, as many as have a complete record; a write that failed and could not be
taken back counts as one behind them.
-/

open ByteFields AppendLog

variable {d : Digests} {params : Parameters} {log : List Write} {left : Option Write} {bytes : List Byte}

/-! ## Opening -/

/-- The writes with a complete record in a file of so many bytes. -/
def complete (params : Parameters) (log : List Write) (left : Option Write) (size : Nat) : List Write :=
  (log ++ left.toList).take ((size - headerSize) / params.recordSize)

theorem complete_behind {size : Nat} (few : (size - headerSize) / params.recordSize ≤ log.length) :
    complete params log left size = log.take ((size - headerSize) / params.recordSize) := by
  unfold complete
  rw [List.take_append_of_le_length few]

/-- What is left of the records and a short tail that are cut off. -/
theorem image_cut {tail : List Byte} (fits : ∀ w ∈ log, params.Fits w) (short : tail.length < params.recordSize)
    {cut : Nat} (headed : headerSize ≤ ((image d params log ++ tail).take cut).length) :
    let size := ((image d params log ++ tail).take cut).length
    (size - headerSize) / params.recordSize ≤ log.length ∧
      ∃ piece, (image d params log ++ tail).take cut = image d params (log.take ((size - headerSize) / params.recordSize)) ++
        piece ∧ piece.length < params.recordSize := by
  dsimp only
  have length := image_length (d := d) fits
  have positive := params.recordSize_pos
  generalize measured : ((image d params log ++ tail).take cut).length = size at headed ⊢
  rw [List.length_take, List.length_append, length] at measured
  by_cases inside : cut ≤ (image d params log).length
  · -- The cut is in the records.
    have all : size = cut := by omega
    subst all
    rw [List.take_append_of_le_length inside]
    have header : (params.header d).length = headerSize := header_length
    obtain ⟨piece, kept, few, _⟩ := stored_take 1 (encode_length (d := d) fits) positive (size - headerSize)
    refine ⟨?_, piece, ?_, few⟩
    · rw [length] at inside
      have bound := Nat.div_le_div_right (c := params.recordSize) (show size - headerSize ≤ log.length * params.recordSize by omega)
      rwa [Nat.mul_div_cancel _ positive] at bound
    · unfold image
      rw [List.take_append, header, List.take_of_length_le (by omega), kept, List.append_assoc]
  · -- The cut is in the tail.
    rw [length] at inside
    have count : (size - headerSize) / params.recordSize = log.length := by
      have rest : size - headerSize = (size - headerSize - log.length * params.recordSize) + log.length * params.recordSize := by
        omega
      rw [rest, Nat.add_mul_div_right _ _ positive, Nat.div_eq_of_lt (by omega), Nat.zero_add]
    rw [count]
    refine ⟨Nat.le_refl _, tail.take (cut - (image d params log).length), ?_, ?_⟩
    · rw [List.take_of_length_le (Nat.le_refl _), List.take_append, List.take_of_length_le (by omega)]
    · rw [List.length_take]
      omega

/-- Whatever a file is cut down to, it is the complete records and a tail. -/
theorem Kept.cut (kept : Kept d params log left (some bytes)) {cut : Nat} (headed : headerSize ≤ (bytes.take cut).length) :
    (∀ w ∈ complete params log left (bytes.take cut).length, params.Fits w) ∧
      ∃ piece, bytes.take cut = image d params (complete params log left (bytes.take cut).length) ++ piece ∧
        piece.length < params.recordSize ∧ (bytes.take cut).length ≤ maxFileSize := by
  cases kept with
  | headed left n =>
    have header : (params.header d).length = headerSize := header_length
    have size : (((params.header d).take n).take cut).length = headerSize := by
      rw [List.length_take, List.length_take] at headed ⊢
      omega
    have none : complete params [] left headerSize = [] := by
      unfold complete
      rw [Nat.sub_self, Nat.zero_div, List.take_zero]
    rw [size, none]
    refine ⟨fun w member => absurd member List.not_mem_nil, [], ?_, params.recordSize_pos, by decide⟩
    rw [List.length_take, List.length_take] at headed
    rw [List.append_nil, List.take_take, List.take_of_length_le (by omega)]
    exact (List.append_nil _).symm
  | @records _ _ tail fits short bounded =>
    obtain ⟨few, piece, whole, small⟩ := image_cut (d := d) fits short headed
    rw [complete_behind few]
    refine ⟨fun w member => fits w (List.mem_of_mem_take member), piece, whole, small, ?_⟩
    rw [List.length_take]
    omega
  | @torn _ w fits n bounded =>
    have prior : ∀ v ∈ log, params.Fits v := fun v member => fits v (List.mem_append_left _ member)
    have length : (encode d (log.length + 1) w).length = params.recordSize :=
      encode_length fits w (List.mem_append_right log List.mem_cons_self) _
    have small : ((image d params log ++ (encode d (log.length + 1) w).take n).take cut).length ≤ maxFileSize := by
      rw [List.length_take]
      omega
    by_cases part : n < params.recordSize
    · have short : ((encode d (log.length + 1) w).take n).length < params.recordSize := by
        rw [List.length_take]
        omega
      obtain ⟨few, piece, whole, few'⟩ := image_cut (d := d) prior short headed
      rw [complete_behind few]
      exact ⟨fun w member => prior w (List.mem_of_mem_take member), piece, whole, few', small⟩
    · -- All of the record of the write that failed is there.
      have whole : image d params log ++ (encode d (log.length + 1) w).take n = image d params (log ++ [w]) ++ [] := by
        rw [List.take_of_length_le (by omega), List.append_nil, image_append, stored_single, Nat.add_comm 1]
      rw [whole] at headed small ⊢
      obtain ⟨_, piece, cut_, few⟩ := @image_cut d params (log ++ [w]) [] fits params.recordSize_pos cut headed
      exact ⟨fun v member => fits v (List.mem_of_mem_take member), piece, cut_, few, small⟩

/-- A file that is its records and a tail is opened, and it shows them. -/
theorem open_usable {tail : List Byte} (fits : ∀ w ∈ log, params.Fits w) (short : tail.length < params.recordSize)
    (size : (image d params log ++ tail).length ≤ maxFileSize) :
    ∃ o, open_ d params.base (some (image d params log ++ tail)) params.deviceType params.blockSize = .ok o ∧
      Usable d params o log (some (image d params log ++ tail)) := by
  refine ⟨_, open_image fits short size, Usable.tailed ?_ rfl rfl short size fun none => ?_⟩
  · constructor
    case fits => exact fits
    case stored => exact fun _ => ⟨tail, rfl⟩
    case backed => exact fun closed => by cases closed
    all_goals rfl
  · exact not_not.mp (of_decide_eq_false none)

theorem open_none (d : Digests) (params : Parameters) :
    ∃ o, open_ d params.base none params.deviceType params.blockSize = .ok o ∧ Usable d params o [] none := by
  obtain ⟨valid, known, _⟩ := params_valid d params
  refine ⟨⟨params.base, false, params.deviceType, d.sha256 params.base,
    ⟨params.base.length, params.blockSize, params.deviceType, 0, false, fun _ => none, headerSize⟩, 1, headerSize, false⟩,
    ?_, Usable.fresh ?_ rfl rfl rfl⟩
  · unfold open_
    rw [known]
    dsimp only
    rw [valid]
  · constructor
    case fits => exact fun w member => absurd member List.not_mem_nil
    case stored => exact fun opened => by cases opened
    case backed => exact fun _ => rfl
    case committed =>
      have length := @image_length d params [] fun w member => absurd member List.not_mem_nil
      rw [length, List.length_nil, Nat.zero_mul]
      rfl
    all_goals rfl

/-- A file without a whole header is not opened. -/
theorem open_short (short : bytes.length < headerSize) :
    (open_ d params.base (some bytes) params.deviceType params.blockSize).toOption = none := by
  obtain ⟨valid, known, _⟩ := params_valid d params
  unfold open_
  rw [known]
  dsimp only
  rw [valid]
  dsimp only
  by_cases none : bytes.length = 0
  · rw [if_pos none]
    rfl
  · rw [if_neg none]
    unfold scanCowFromFile
    rw [valid]
    dsimp only
    rw [if_pos short]
    rfl

/-! ## Runs -/

/-- The overlay that is open, its file, and what was written: the writes that
count, and the last one that failed and could not be taken back. -/
structure Disk where
  overlay : Option CowOverlay
  file : Option (List Byte)
  log : List Write
  left : Option Write

/-- Nothing is written yet. -/
def Disk.fresh (d : Digests) (params : Parameters) : Disk :=
  ⟨(open_ d params.base none params.deviceType params.blockSize).toOption, none, [], none⟩

/-- A block is written through the overlay. -/
def Disk.write (d : Digests) (disk : Disk) (o : CowOverlay) (w : Write) (host : Host) : Disk :=
  let (result, next, file) := writeBlock d o disk.file w.index w.data host
  { overlay := some next
    file
    log := if result.isOk then disk.log ++ [w] else disk.log
    left := if o.poisoned = false ∧ next.poisoned = true then some w else disk.left }

/-- The file is cut down to its first bytes, and the overlay is opened again. -/
def Disk.reopen (d : Digests) (params : Parameters) (disk : Disk) (cut : Nat) : Disk :=
  let file := disk.file.map (List.take cut)
  { overlay := (open_ d params.base file params.deviceType params.blockSize).toOption
    file
    log := complete params disk.log disk.left (file.getD []).length
    left := none }

inductive Action where
  | write (w : Write) (host : Host)
  | reopen (cut : Nat)

inductive Step (d : Digests) (params : Parameters) : Disk -> Action -> Disk -> Prop where
  | write {disk : Disk} {o : CowOverlay} (w : Write) (host : Host) (opened : disk.overlay = some o) :
      Step d params disk (.write w host) (disk.write d o w host)
  | reopen {disk : Disk} (cut : Nat) (headed : headerSize ≤ cut) : Step d params disk (.reopen cut) (disk.reopen d params cut)

/-- The runs of an overlay. -/
def store (d : Digests) (params : Parameters) : System Disk Action where
  initial := fun disk => disk = Disk.fresh d params
  step := Step d params

/-- What holds of every state: an overlay that takes writes shows the log, and
one that takes no more writes shows it too. -/
inductive Sound (d : Digests) (params : Parameters) : Disk -> Prop where
  | shut {file : Option (List Byte)} {log : List Write} {left : Option Write} (kept : Kept d params log left file) :
      Sound d params ⟨none, file, log, left⟩
  | usable {o : CowOverlay} {file : Option (List Byte)} {log : List Write} (usable : Usable d params o log file) :
      Sound d params ⟨some o, file, log, none⟩
  | poisoned {o : CowOverlay} {file : Option (List Byte)} {log : List Write} {left : Option Write}
      (shows_ : Shows d params o (file.getD []) log) (poisoned : o.poisoned = true) (kept : Kept d params log left file) :
      Sound d params ⟨some o, file, log, left⟩

variable {o : CowOverlay} {file : Option (List Byte)} {disk : Disk}

theorem Usable.kept (usable : Usable d params o log file) :
    Kept d params log none file := by
  cases usable with
  | fresh shows_ _ closed _ =>
    rw [shows_.backed closed]
    exact Kept.absent
  | tailed shows_ _ _ short bounded _ => exact Kept.records none shows_.fits short bounded

theorem Usable.shows_ (usable : Usable d params o log file) :
    Shows d params o (file.getD []) log := by
  cases usable with
  | fresh shows_ _ _ _ => exact shows_
  | tailed shows_ _ _ _ _ _ => exact shows_

theorem Usable.trusted (usable : Usable d params o log file) :
    o.poisoned = false := by
  cases usable with
  | fresh _ trusted _ _ => exact trusted
  | tailed _ trusted _ _ _ _ => exact trusted

theorem Sound.kept (sound : Sound d params disk) : Kept d params disk.log disk.left disk.file := by
  cases sound with
  | shut kept => exact kept
  | usable usable => exact usable.kept
  | poisoned _ _ kept => exact kept

theorem Sound.shows_ (sound : Sound d params disk) (opened : disk.overlay = some o) :
    Shows d params o (disk.file.getD []) disk.log := by
  cases sound with
  | shut _ => cases opened
  | usable usable =>
    cases opened
    exact usable.shows_
  | poisoned shows_ _ _ =>
    cases opened
    exact shows_

/-- An overlay that takes no more writes refuses them. -/
theorem writeBlock_poisoned (poisoned : o.poisoned = true) (file : Option (List Byte)) (index : Nat)
    (data : List Byte) (host : Host) : writeBlock d o file index data host = (.error .writePoisoned, o, file) :=
  if_pos poisoned

theorem Sound.write (sound : Sound d params disk) (opened : disk.overlay = some o) (w : Write) (host : Host) :
    Sound d params (disk.write d o w host) := by
  unfold Disk.write
  cases sound with
  | shut _ => cases opened
  | @usable _ file log usable =>
    cases opened
    have trusted := usable.trusted
    have outcome := usable.write w.index w.data host
    generalize writeBlock d o file w.index w.data host = written at outcome ⊢
    obtain ⟨result, next, longer⟩ := written
    dsimp only at outcome ⊢
    cases outcome with
    | failed error usable =>
      have goes : ¬ (o.poisoned = false ∧ next.poisoned = true) := fun both => by cases usable.trusted.symm.trans both.2
      rw [if_neg goes]
      exact Sound.usable usable
    | poisoned error shows_ poisoned kept =>
      have stops : o.poisoned = false ∧ next.poisoned = true := ⟨trusted, poisoned⟩
      rw [if_pos stops]
      exact Sound.poisoned shows_ poisoned kept
    | done usable =>
      have goes : ¬ (o.poisoned = false ∧ next.poisoned = true) := fun both => by cases usable.trusted.symm.trans both.2
      rw [if_neg goes]
      exact Sound.usable usable
  | poisoned shows_ poisoned kept =>
    cases opened
    have again : ¬ (o.poisoned = false ∧ o.poisoned = true) := fun both => by cases both.1.symm.trans both.2
    rw [writeBlock_poisoned poisoned]
    dsimp only
    rw [if_neg again]
    exact Sound.poisoned shows_ poisoned kept

theorem Sound.reopen (sound : Sound d params disk) {cut : Nat} (headed : headerSize ≤ cut) :
    Sound d params (disk.reopen d params cut) := by
  have kept := sound.kept
  unfold Disk.reopen
  cases exists_ : disk.file with
  | none =>
    obtain ⟨o, opens, usable⟩ := open_none d params
    dsimp only [Option.map_none, Option.getD_none, List.length_nil]
    rw [opens]
    have none : complete params disk.log disk.left 0 = [] := by
      unfold complete
      rw [Nat.zero_sub, Nat.zero_div, List.take_zero]
    rw [none]
    exact Sound.usable usable
  | some bytes =>
    dsimp only [Option.map_some, Option.getD_some]
    rw [exists_] at kept
    by_cases whole : headerSize ≤ (bytes.take cut).length
    · obtain ⟨fits, piece, split, short, bounded⟩ := kept.cut whole
      generalize complete params disk.log disk.left (bytes.take cut).length = read at fits split ⊢
      rw [split] at bounded ⊢
      obtain ⟨o, opens, usable⟩ := open_usable fits short bounded
      rw [opens]
      exact Sound.usable usable
    · have short := Nat.lt_of_not_le whole
      rw [open_short short]
      generalize disk.log = log, disk.left = left at kept ⊢
      have none : complete params log left (bytes.take cut).length = [] := by
        unfold complete
        rw [Nat.sub_eq_zero_of_le (Nat.le_of_lt short), Nat.zero_div, List.take_zero]
      rw [none]
      rw [List.length_take] at short
      -- No records are behind a header that is not whole.
      cases kept with
      | headed left n =>
        rw [List.take_take]
        exact Sound.shut (Kept.headed _ _)
      | records left fits _ _ =>
        rw [List.length_append, image_length fits] at short
        omega
      | torn fits n _ =>
        rw [List.length_append, image_length fun v member => fits v (List.mem_append_left _ member)] at short
        omega

/-- Every state of every run is sound. -/
theorem shown_of_reachable (reached : (store d params).Reachable disk) : Sound d params disk := by
  apply reached.invariant
  · intro start begins
    rw [show start = Disk.fresh d params from begins]
    obtain ⟨o, opens, usable⟩ := open_none d params
    unfold Disk.fresh
    rw [opens]
    exact Sound.usable usable
  · intro first action second sound step
    cases step with
    | write w host opened => exact sound.write opened w host
    | reopen cut headed => exact sound.reopen headed

/-- What an overlay promises.  It shows its log; a write that fails changes
nothing that is shown, and behind one that could not be taken back there are no
more; whatever the file is cut down to behind its header, it is opened again and
shows the writes with a complete record. -/
structure Durable (d : Digests) (params : Parameters) (disk : Disk) : Prop where
  reads : ∀ o, disk.overlay = some o -> ∀ offset length, offset + length ≤ params.base.length ->
    readAt o (disk.file.getD []) offset length =
      .ok ((List.range length).map fun k => visible params disk.log (offset + k))
  failures : ∀ o, disk.overlay = some o -> ∀ index data host error next file,
    writeBlock d o disk.file index data host = (.error error, next, file) ->
    next.scan.latestBlocks = o.scan.latestBlocks ∧ next.nextSequence = o.nextSequence ∧
      next.committedEnd = o.committedEnd ∧ ∀ offset length, offset + length ≤ params.base.length ->
        readAt next (file.getD []) offset length = readAt o (disk.file.getD []) offset length
  refuses : ∀ o, disk.overlay = some o -> o.poisoned = true -> ∀ index data host,
    writeBlock d o disk.file index data host = (.error .writePoisoned, o, disk.file)
  trusted : ∀ o, disk.overlay = some o -> o.poisoned = false -> disk.left = none
  reopens : ∀ bytes cut, disk.file = some bytes -> headerSize ≤ (bytes.take cut).length ->
    let log := complete params disk.log disk.left (bytes.take cut).length
    (∃ piece, bytes.take cut = image d params log ++ piece ∧ piece.length < params.recordSize) ∧
      ∃ o, open_ d params.base (some (bytes.take cut)) params.deviceType params.blockSize = .ok o ∧
        ∀ offset length, offset + length ≤ params.base.length -> readAt o (bytes.take cut) offset length =
          .ok ((List.range length).map fun k => visible params log (offset + k))
  scans : ∀ base file deviceType blockSize scan, deviceType ≤ 3 ->
    (scanCow d base (some file) deviceType blockSize = .ok scan ↔ scanCowFromFile d base file deviceType blockSize = .ok scan)

theorem Sound.failures (sound : Sound d params disk) {next : CowOverlay} (opened : disk.overlay = some o)
    {index : Nat} {data : List Byte} {host : Host} {error : CowError}
    (failed : writeBlock d o disk.file index data host = (.error error, next, file)) :
    Shows d params next (file.getD []) disk.log := by
  cases sound with
  | shut _ => cases opened
  | usable usable =>
    cases opened
    have outcome := usable.write index data host
    rw [failed] at outcome
    cases outcome with
    | failed _ usable => exact usable.shows_
    | poisoned _ shows_ _ _ => exact shows_
  | poisoned shows_ poisoned kept =>
    cases opened
    rw [writeBlock_poisoned poisoned] at failed
    cases failed
    exact shows_

/-- Every overlay keeps its promise in every run. -/
theorem durable_of_reachable {disk : Disk} (reached : (store d params).Reachable disk) : Durable d params disk := by
  have sound := shown_of_reachable reached
  constructor
  case reads => exact fun o opened offset length inside => (sound.shows_ opened).readAt inside
  case failures =>
    intro o opened index data host error next file failed
    have before := sound.shows_ opened
    have after := sound.failures opened failed
    refine ⟨?_, ?_, ?_, fun offset length inside => ?_⟩
    · rw [after.latestBlocks, before.latestBlocks]
    · rw [after.sequence, before.sequence]
    · rw [after.committed, before.committed]
    · rw [after.readAt inside, before.readAt inside]
  case refuses => exact fun o _ poisoned index data host => writeBlock_poisoned poisoned disk.file index data host
  case trusted =>
    intro o opened trusted
    cases sound with
    | shut _ => cases opened
    | usable _ => rfl
    | poisoned _ poisoned _ =>
      cases opened
      cases trusted.symm.trans poisoned
  case reopens =>
    intro bytes cut exists_ headed
    have kept := sound.kept
    rw [exists_] at kept
    obtain ⟨fits, piece, split, short, bounded⟩ := kept.cut headed
    dsimp only
    generalize complete params disk.log disk.left (bytes.take cut).length = log at fits split ⊢
    rw [split] at bounded ⊢
    obtain ⟨o, opens, usable⟩ := open_usable fits short bounded
    exact ⟨⟨piece, rfl, short⟩, o, opens, fun offset length inside => usable.shows_.readAt inside⟩
  case scans =>
    intro base file deviceType blockSize scan known
    exact (scanCow_same base file deviceType blockSize scan).trans ⟨And.right, fun found => ⟨known, found⟩⟩

/-- Checksums that are always zero. -/
def zeroDigests : Digests := ⟨fun _ _ => 0, fun _ => List.replicate 32 0, fun _ => rfl⟩

/-- An image of one block. -/
def oneBlock : Parameters := ⟨[0], 0, 1, by decide, by decide, by decide, by decide⟩

/-- Opened without a file. -/
def unwritten : CowOverlay :=
  ⟨[0], false, 0, List.replicate 32 0, ⟨1, 1, 0, 0, false, fun _ => none, headerSize⟩, 1, headerSize, false⟩

/-- The file system writes all of a record, does not sync it and does not cut
it off again. -/
def unsynced : Host := ⟨true, none, true, none, some 33, .failed 33⟩

theorem durable_reopened : Durable zeroDigests oneBlock
    (((Disk.fresh zeroDigests oneBlock).write zeroDigests unwritten ⟨0, [1]⟩ unsynced).reopen zeroDigests oneBlock 80) := by
  have fresh : (store zeroDigests oneBlock).Reachable (Disk.fresh zeroDigests oneBlock) := System.Reachable.start rfl
  have write : (store zeroDigests oneBlock).step (Disk.fresh zeroDigests oneBlock) (.write ⟨0, [1]⟩ unsynced)
      ((Disk.fresh zeroDigests oneBlock).write zeroDigests unwritten ⟨0, [1]⟩ unsynced) := Step.write ⟨0, [1]⟩ unsynced rfl
  exact durable_of_reachable ((fresh.next write).next (Step.reopen 80 (by decide)))

/-- A write that failed is shown once the overlay is opened again. -/
theorem failed_write_shown : ∃ failed bytes reopened,
    open_ zeroDigests [0] none 0 1 = .ok unwritten ∧
      writeBlock zeroDigests unwritten none 0 [1] unsynced = (.error .io, failed, some bytes) ∧
      open_ zeroDigests [0] (some bytes) 0 1 = .ok reopened ∧ readAt reopened bytes 0 1 = .ok [1] := by
  have fits : ∀ w ∈ [(⟨0, [1]⟩ : Write)], oneBlock.Fits w := by
    intro w member
    rw [List.mem_singleton.mp member]
    exact ⟨by decide, rfl⟩
  have size : (image zeroDigests oneBlock [⟨0, [1]⟩] ++ []).length ≤ maxFileSize := by
    rw [List.append_nil, image_length fits]
    decide
  obtain ⟨reopened, opens, usable⟩ := @open_usable zeroDigests oneBlock [⟨0, [1]⟩] [] fits oneBlock.recordSize_pos size
  refine ⟨{ unwritten with cow := true, poisoned := true }, _, reopened, rfl, rfl, opens, ?_⟩
  exact usable.shows_.readAt (by decide)

end Src32.Cow
