import Mathlib.Data.List.GetD
import Mathlib.Data.List.Induction
import Src32.Cow.Records
import Src32.Lib.Runs

namespace Src32.Cow

open List (length_append append_nil)

/-!
# What an overlay shows

An overlay shows a log of writes over its base image.  A write that succeeds
joins the log, and one that fails leaves it as it is.  Whatever the file is cut
down to, opening it again shows the writes whose records are complete.
-/

open ByteFields AppendLog

variable {d : Digests} {params : Parameters} {log : List Write} {w : Write} {tail file : List Byte}

/-- The data of the last write of a block. -/
def lastWrite (log : List Write) (index : Nat) : Option (List Byte) :=
  (log.reverse.find? fun w => w.index = index).map Write.data

/-- The byte at a position once the writes are laid over the base image. -/
def visible (params : Parameters) (log : List Write) (position : Nat) : Byte :=
  match lastWrite log (position / params.blockSize) with
  | some data => data.getD (position % params.blockSize) 0
  | none => params.base.getD position 0

theorem lastWrite_append (log : List Write) (w : Write) (index : Nat) :
    lastWrite (log ++ [w]) index = if w.index = index then some w.data else lastWrite log index := by
  unfold lastWrite
  rw [List.reverse_append]
  change (List.find? _ (w :: log.reverse)).map Write.data = _
  rw [List.find?_cons]
  by_cases same : w.index = index
  · rw [if_pos same, decide_eq_true same]
    rfl
  · rw [if_neg same, decide_eq_false same]

/-! ## Reading -/

variable {bytes : List Byte} {o : CowOverlay} {start n : Nat}

theorem slice_left {first second : List Byte} (inside : start + n ≤ first.length) :
    slice (first ++ second) start n = slice first start n := by
  unfold slice
  rw [List.drop_append_of_le_length (by omega), List.take_append_of_le_length]
  rw [List.length_drop]
  omega

/-- The index leads to the data of the last write of each block. -/
theorem latest_data (fits : ∀ w ∈ log, params.Fits w) (index : Nat) :
    (latest params log index = none ∧ lastWrite log index = none) ∨
      ∃ dataOffset data, latest params log index = some dataOffset ∧ lastWrite log index = some data ∧
        dataOffset + params.blockSize ≤ (image d params log).length ∧
        slice (image d params log) dataOffset params.blockSize = data ∧ data.length = params.blockSize := by
  induction log using List.reverseRecOn with
  | nil => exact Or.inl ⟨rfl, rfl⟩
  | append_singleton log w ih =>
    have prior : ∀ v ∈ log, params.Fits v := fun v inside => fits v (List.mem_append_left _ inside)
    have full := (fits w (List.mem_append_right log List.mem_cons_self)).2
    have longer : image d params (log ++ [w]) = image d params log ++ makeRecord d w.index (1 + log.length) w.data := by
      rw [image_append, stored_single]
      rfl
    have length := image_length (d := d) prior
    rw [latest_append, lastWrite_append]
    by_cases same : w.index = index
    · rw [if_pos same, same, Function.update_self]
      refine Or.inr ⟨_, w.data, rfl, rfl, ?_, ?_, full⟩
      · rw [longer, length_append, length, makeRecord_length, full]
        omega
      · have split : image d params (log ++ [w]) = (image d params log ++ (recordFields d w.index (1 + log.length) w.data ++
            (leBytes 4 (crc32c d (recordFields d w.index (1 + log.length) w.data ++ List.replicate 8 0)).toNat ++
              List.replicate 4 0))) ++ (w.data ++ []) := by
          rw [longer]
          unfold makeRecord
          simp only [List.append_assoc, append_nil]
        rw [split]
        apply slice_append
        · simp only [length_append, recordFields_length, leBytes_length, List.length_replicate, length]
          rfl
        · exact full
    · rw [if_neg same, Function.update_of_ne (Ne.symm same)]
      rcases ih prior with none | ⟨dataOffset, data, found, last, inside, here, size⟩
      · exact Or.inl none
      · refine Or.inr ⟨dataOffset, data, found, last, ?_, ?_, size⟩
        · rw [longer, length_append]
          omega
        · rw [longer, slice_left inside]
          exact here

/-- An overlay that shows a log: its index, its counters and its file. -/
structure Shows (d : Digests) (params : Parameters) (o : CowOverlay) (file : List Byte) (log : List Write) : Prop where
  fits : ∀ w ∈ log, params.Fits w
  base : o.base = params.base
  device : o.deviceType = params.deviceType
  hash : o.baseHash = d.sha256 params.base
  logicalSize : o.scan.logicalSize = params.base.length
  blockSize : o.scan.blockSize = params.blockSize
  latestBlocks : o.scan.latestBlocks = latest params log
  records : o.scan.records = log.length
  sequence : o.nextSequence = log.length + 1
  committed : o.committedEnd = (image d params log).length
  validEnd : o.scan.validEnd = o.committedEnd
  stored : o.cow = true -> ∃ tail, file = image d params log ++ tail
  backed : o.cow = false -> log = []

theorem readExact_inside (inside : start + n ≤ bytes.length) :
    readExact bytes start n = .ok (slice bytes start n) := if_pos inside

theorem getD_slice {k : Nat} (few : k < n) :
    (slice bytes start n).getD k 0 = bytes.getD (start + k) 0 := by
  unfold slice
  rw [List.getD_eq_getElem?_getD, List.getD_eq_getElem?_getD, List.getElem?_take_of_lt few, List.getElem?_drop]

/-- A byte string is what its bytes are. -/
theorem eq_map_range {byte : Nat -> Byte} (length : bytes.length = n) (same : ∀ k < n, bytes.getD k 0 = byte k) :
    bytes = (List.range n).map byte := by
  apply List.ext_getElem
  · rw [length, List.length_map, List.length_range]
  · intro k first second
    rw [List.getElem_map, List.getElem_range, ← same k (length ▸ first), List.getD_eq_getElem _ _ first]

/-- The piece of a range that lies in one block. -/
theorem Shows.piece (shows_ : Shows d params o file log) {position count : Nat}
    (inside : position + count ≤ params.base.length) (one : position % params.blockSize + count ≤ params.blockSize)
    (some_ : 0 < count) :
    readPiece o file position count = .ok ((List.range count).map fun k => visible params log (position + k)) := by
  -- All the positions are of one block.
  have block : ∀ k < count, (position + k) / params.blockSize = position / params.blockSize ∧
      (position + k) % params.blockSize = position % params.blockSize + k := by
    intro k few
    have split := Nat.div_add_mod position params.blockSize
    have small : position % params.blockSize + k < params.blockSize := by omega
    have whole : position + k = position % params.blockSize + k + params.blockSize * (position / params.blockSize) := by
      omega
    rw [whole, Nat.add_mul_div_left _ _ (by omega), Nat.div_eq_of_lt small, Nat.add_mul_mod_self_left, Nat.mod_eq_of_lt small]
    exact ⟨Nat.zero_add _, rfl⟩
  unfold readPiece
  rw [shows_.latestBlocks, shows_.blockSize, shows_.base]
  rcases latest_data (d := d) shows_.fits (position / params.blockSize) with
    ⟨none, last⟩ | ⟨dataOffset, data, found, last, within, here, full⟩
  · rw [none]
    dsimp only
    rw [readExact_inside inside]
    refine congrArg Except.ok (eq_map_range (slice_length inside) fun k few => ?_)
    unfold visible
    rw [(block k few).1, last, getD_slice few]
  · rw [found]
    dsimp only
    have opened : o.cow = true := by
      cases closed : o.cow with
      | true => rfl
      | false =>
        rw [shows_.backed closed] at last
        cases last
    obtain ⟨tail, whole⟩ := shows_.stored opened
    have long : dataOffset + position % params.blockSize + count ≤ file.length := by
      rw [whole, length_append]
      omega
    rw [if_pos opened, readExact_inside long]
    refine congrArg Except.ok (eq_map_range (slice_length long) fun k few => ?_)
    unfold visible
    rw [(block k few).1, last, (block k few).2, getD_slice few]
    dsimp only
    rw [← here, ← slice_left within, ← whole, getD_slice (by omega), Nat.add_assoc]

theorem Shows.pieces (shows_ : Shows d params o file log) (position left : Nat)
    (inside : position + left ≤ params.base.length) :
    readPieces o file position left = .ok ((List.range left).map fun k => visible params log (position + k)) := by
  induction left using Nat.strongRecOn generalizing position with
  | ind left ih =>
    rw [readPieces]
    by_cases none : left = 0
    · rw [if_pos none, none]
      rfl
    · rw [if_neg none, shows_.blockSize]
      have sized := params.sized
      have within : position % params.blockSize < params.blockSize := Nat.mod_lt _ (by omega)
      generalize chosen : min left (params.blockSize - position % params.blockSize) = count
      have bounds : 0 < count ∧ count ≤ left ∧ position % params.blockSize + count ≤ params.blockSize := by omega
      dsimp only
      rw [if_neg (by omega), shows_.piece (by omega) bounds.2.2 bounds.1]
      dsimp only
      rw [ih (left - count) (by omega) (position + count) (by omega)]
      dsimp only
      have split : left = count + (left - count) := by omega
      conv => rhs; rw [split, List.range_add, List.map_append, List.map_map]
      congr 2
      apply List.map_congr_left
      intro k _
      rw [Nat.add_assoc]
      rfl

/-- A range of the image is read as the writes leave it. -/
theorem Shows.readAt (shows_ : Shows d params o file log) {offset length : Nat}
    (inside : offset + length ≤ params.base.length) :
    Cow.readAt o file offset length = .ok ((List.range length).map fun k => visible params log (offset + k)) := by
  have counted := params.counted
  unfold Cow.readAt
  rw [if_neg (by omega), shows_.logicalSize, if_neg (by omega)]
  exact shows_.pieces offset length inside

/-! ## One write -/

section
variable {o : CowOverlay} {host : Host}

theorem Shows.refile (shows_ : Shows d params o file log) {other : List Byte}
    (stored : o.cow = true -> ∃ tail, other = image d params log ++ tail) : Shows d params o other log :=
  { shows_ with stored := stored }

theorem Shows.poisoned (shows_ : Shows d params o file log) : Shows d params { o with poisoned := true } file log :=
  { shows_ with }

/-- An overlay whose file ends with its records. -/
structure Ready (d : Digests) (params : Parameters) (o : CowOverlay) (file : List Byte) (log : List Write) : Prop where
  shows_ : Shows d params o file log
  opened : o.cow = true
  trusted : o.poisoned = false
  exact_ : file = image d params log
  bounded : file.length ≤ maxFileSize

/-- What there is of a file: no file, a piece of its header, its records and a
tail shorter than one, or its records and a piece of one that failed. -/
inductive Kept (d : Digests) (params : Parameters) : List Write -> Option Write -> Option (List Byte) -> Prop where
  | absent : Kept d params [] none none
  | headed (left : Option Write) (n : Nat) : Kept d params [] left (some ((params.header d).take n))
  | records (left : Option Write) {log : List Write} {tail : List Byte} (fits : ∀ w ∈ log, params.Fits w)
      (short : tail.length < params.recordSize) (bounded : (image d params log ++ tail).length ≤ maxFileSize) :
      Kept d params log left (some (image d params log ++ tail))
  | torn {log : List Write} {w : Write} (fits : ∀ v ∈ log ++ [w], params.Fits v) (n : Nat)
      (bounded : (image d params log ++ (encode d (log.length + 1) w).take n).length ≤ maxFileSize) :
      Kept d params log (some w) (some (image d params log ++ (encode d (log.length + 1) w).take n))

/-- An overlay that takes writes: its file is not there yet, or it is its
records with a tail that is known. -/
inductive Usable (d : Digests) (params : Parameters) (o : CowOverlay) (log : List Write) : Option (List Byte) -> Prop where
  | fresh (shows_ : Shows d params o [] log) (trusted : o.poisoned = false) (closed : o.cow = false)
      (untailed : o.scan.recoverableTail = false) : Usable d params o log none
  | tailed {tail : List Byte} (shows_ : Shows d params o (image d params log ++ tail) log) (trusted : o.poisoned = false)
      (opened : o.cow = true) (short : tail.length < params.recordSize)
      (bounded : (image d params log ++ tail).length ≤ maxFileSize)
      (known : o.scan.recoverableTail = false -> tail = []) : Usable d params o log (some (image d params log ++ tail))

/-- How a write ends: it fails and the overlay goes on, it fails and the overlay
takes no more writes, or it joins the log. -/
inductive Outcome (d : Digests) (params : Parameters) (log : List Write) (w : Write) :
    Except CowError Unit -> CowOverlay -> Option (List Byte) -> Prop where
  | failed (error : CowError) {next : CowOverlay} {file : Option (List Byte)} (usable : Usable d params next log file) :
      Outcome d params log w (.error error) next file
  | poisoned (error : CowError) {next : CowOverlay} {file : Option (List Byte)}
      (shows_ : Shows d params next (file.getD []) log) (poisoned : next.poisoned = true)
      (kept : Kept d params log (some w) file) : Outcome d params log w (.error error) next file
  | done {next : CowOverlay} {file : Option (List Byte)} (usable : Usable d params next (log ++ [w]) file) :
      Outcome d params log w (.ok ()) next file

theorem Ready.usable (ready : Ready d params o file log) : Usable d params o log (some file) := by
  obtain ⟨shows_, opened, trusted, exact_, bounded⟩ := ready
  have whole : file = image d params log ++ [] := by
    rw [exact_, append_nil]
  rw [whole] at shows_ bounded ⊢
  exact Usable.tailed shows_ trusted opened params.recordSize_pos bounded fun _ => rfl

theorem writeAt_end {bytes : List Byte} {start : Nat} (ends : file.length = start) :
    writeAt file start bytes = file ++ bytes := by
  unfold writeAt
  rw [← ends, List.take_length, List.drop_of_length_le (Nat.le_add_right ..), append_nil]

/-- What was written of a record is taken back, or the overlay takes no more
writes. -/
theorem Ready.takeBack (ready : Ready d params o file log) (fits : ∀ v ∈ log ++ [w], params.Fits v) {n : Nat}
    (few : n ≤ maxFileSize - o.committedEnd) (rollback : Rollback) :
    Outcome d params log w (.error .io)
      (takeBack o (writeAt file o.committedEnd ((encode d (log.length + 1) w).take n)) o.committedEnd rollback).1
      (some (takeBack o (writeAt file o.committedEnd ((encode d (log.length + 1) w).take n)) o.committedEnd rollback).2) := by
  have again := ready
  obtain ⟨shows_, opened, trusted, exact_, bounded⟩ := ready
  have ends : file.length = o.committedEnd := by
    rw [exact_, shows_.committed]
  have cut : (file ++ (encode d (log.length + 1) w).take n).take o.committedEnd = file := by
    rw [← ends, List.take_left]
  rw [writeAt_end ends]
  cases rollback with
  | done =>
    unfold Cow.takeBack
    dsimp only
    rw [cut]
    exact Outcome.failed .io again.usable
  | unsynced =>
    unfold Cow.takeBack
    dsimp only
    rw [cut]
    refine Outcome.poisoned .io shows_.poisoned rfl ?_
    have whole : file = image d params log ++ [] := by
      rw [exact_, append_nil]
    rw [whole] at bounded ⊢
    exact Kept.records _ shows_.fits params.recordSize_pos bounded
  | failed left =>
    unfold Cow.takeBack
    dsimp only
    have kept : (file ++ (encode d (log.length + 1) w).take n).take (o.committedEnd + left) =
        image d params log ++ (encode d (log.length + 1) w).take (min left n) := by
      rw [← ends, List.take_length_add_append, List.take_take, exact_]
    rw [kept]
    refine Outcome.poisoned .io (shows_.poisoned.refile fun _ => ⟨_, rfl⟩) rfl (Kept.torn fits _ ?_)
    rw [length_append, List.length_take, ← exact_]
    omega

/-- A record is appended, or it is not. -/
theorem Ready.append (ready : Ready d params o file log) (fits : params.Fits w) (host : Host) :
    Outcome d params log w (appendRecord d o file w.index w.data host).1 (appendRecord d o file w.index w.data host).2.1
      (some (appendRecord d o file w.index w.data host).2.2) := by
  have again := ready
  obtain ⟨shows_, opened, trusted, exact_, bounded⟩ := ready
  have record : makeRecord d w.index o.nextSequence w.data = encode d (log.length + 1) w := by
    rw [shows_.sequence]
    rfl
  have length : (encode d (log.length + 1) w).length = params.recordSize := by
    unfold encode
    rw [makeRecord_length, fits.2]
    rfl
  have ends : file.length = o.committedEnd := by
    rw [exact_, shows_.committed]
  have longer : image d params (log ++ [w]) = file ++ encode d (log.length + 1) w := by
    rw [exact_, image_append, stored_single, Nat.add_comm 1]
  have all : ∀ v ∈ log ++ [w], params.Fits v := by
    intro v member
    rcases List.mem_append.mp member with before | now
    · exact shows_.fits v before
    · rw [List.mem_singleton.mp now]
      exact fits
  unfold appendRecord
  dsimp only
  rw [record, length]
  split
  · exact again.takeBack all (min_le_right _ _) _
  · next whole =>
      have room : o.committedEnd + params.recordSize ≤ maxFileSize := by
        by_contra tight
        rw [if_neg tight] at whole
        cases whole
      refine Outcome.done (Ready.usable ⟨?_, opened, trusted, ?_, ?_⟩)
      · have full := fits.2
        have committed : o.committedEnd + recordHeaderSize + w.data.length = (image d params (log ++ [w])).length := by
          rw [longer, length_append, length, ends, full, Nat.add_assoc]
          rfl
        have index : Function.update o.scan.latestBlocks w.index (some (o.committedEnd + recordHeaderSize)) =
            latest params (log ++ [w]) := by
          rw [latest_append, shows_.latestBlocks, shows_.committed, image_length shows_.fits]
        refine ⟨all, shows_.base, shows_.device, shows_.hash, shows_.logicalSize, shows_.blockSize, index, ?_, ?_,
          committed, rfl, fun _ => ⟨[], ?_⟩, fun closed => ?_⟩
        · rw [length_append, ← shows_.records]
          rfl
        · rw [length_append]
          exact congrArg (· + 1) shows_.sequence
        · rw [writeAt_end ends, longer, append_nil]
        · cases opened.symm.trans closed
      · rw [writeAt_end ends]
        exact longer.symm
      · rw [writeAt_end ends, length_append, length, ends]
        exact room

/-- A tail is cut off before the record is appended. -/
theorem Shows.append (shows_ : Shows d params o (image d params log ++ tail) log) (trusted : o.poisoned = false)
    (opened : o.cow = true) (short : tail.length < params.recordSize)
    (bounded : (image d params log ++ tail).length ≤ maxFileSize) (known : o.scan.recoverableTail = false -> tail = [])
    (fits : params.Fits w) (host : Host) :
    Outcome d params log w (appendTo d o (image d params log ++ tail) w.index w.data host).1
      (appendTo d o (image d params log ++ tail) w.index w.data host).2.1
      (some (appendTo d o (image d params log ++ tail) w.index w.data host).2.2) := by
  unfold appendTo trimTail
  have cut : ∀ n, (image d params log ++ tail).take (o.committedEnd + n) = image d params log ++ tail.take n := by
    intro n
    rw [shows_.committed, List.take_length_add_append]
  cases tailed : o.scan.recoverableTail with
  | true =>
    rw [if_pos rfl]
    cases host.trim with
    | some n =>
      dsimp only
      rw [cut]
      refine Outcome.poisoned .io (shows_.poisoned.refile fun _ => ⟨_, rfl⟩) rfl (Kept.records _ shows_.fits ?_ ?_)
      · rw [List.length_take]
        omega
      · rw [length_append, List.length_take]
        rw [length_append] at bounded
        omega
    | none =>
      dsimp only
      have bare := cut 0
      rw [Nat.add_zero, List.take_zero, append_nil] at bare
      rw [bare]
      have kept : Shows d params o (image d params log) log := shows_.refile fun _ => ⟨[], (append_nil _).symm⟩
      have ready : Ready d params { o with scan := { o.scan with recoverableTail := false } } (image d params log) log :=
        ⟨{ kept with }, opened, trusted, rfl, by rw [length_append] at bounded; omega⟩
      exact ready.append fits host
  | false =>
    have none := known tailed
    subst none
    rw [if_neg Bool.false_ne_true, append_nil]
    rw [append_nil] at shows_ bounded
    exact Ready.append ⟨shows_, opened, trusted, rfl, bounded⟩ fits host

/-- How a write of an overlay that takes writes ends. -/
theorem Usable.write {file : Option (List Byte)} (usable : Usable d params o log file) (index : Nat) (data : List Byte)
    (host : Host) :
    Outcome d params log ⟨index, data⟩ (writeBlock d o file index data host).1 (writeBlock d o file index data host).2.1
      (writeBlock d o file index data host).2.2 := by
  have shows_ : ∃ file, Shows d params o file log := by
    cases usable with
    | fresh shows_ _ _ _ | tailed shows_ _ _ _ _ _ => exact ⟨_, shows_⟩
  have trusted : o.poisoned = false := by
    cases usable with
    | fresh _ trusted _ _ => exact trusted
    | tailed _ trusted _ _ _ _ => exact trusted
  obtain ⟨_, shows_⟩ := shows_
  unfold writeBlock
  rw [trusted, if_neg Bool.false_ne_true, shows_.blockSize, shows_.logicalSize, (params_valid d params).2.2]
  by_cases full : data.length ≠ params.blockSize
  · rw [if_pos full]
    exact Outcome.failed _ usable
  · rw [if_neg full]
    dsimp only
    by_cases outside : index ≥ params.blocks
    · rw [if_pos outside]
      exact Outcome.failed _ usable
    · rw [if_neg outside]
      have fits : params.Fits ⟨index, data⟩ := ⟨Nat.lt_of_not_le outside, not_not.mp full⟩
      cases usable with
      | tailed shows_ trusted opened short bounded known =>
        unfold openFile
        rw [if_pos opened]
        exact shows_.append trusted opened short bounded known fits host
      | fresh shows_ trusted closed untailed =>
        have again := Usable.fresh shows_ trusted closed untailed
        have empty := shows_.backed closed
        subst empty
        have header : makeHeader d o.deviceType o.scan.blockSize o.scan.logicalSize o.baseHash = params.header d := by
          rw [shows_.device, shows_.blockSize, shows_.logicalSize, shows_.hash]
          rfl
        have unopened : ¬ o.cow = true := fun opened => by cases closed.symm.trans opened
        unfold openFile
        rw [if_neg unopened, header]
        by_cases refused : host.create = false ∨ (none : Option (List Byte)).isSome
        · rw [if_pos refused]
          exact Outcome.failed _ again
        · rw [if_neg refused]
          dsimp only
          cases host.header with
          | some n =>
            dsimp only
            cases host.remove with
            | true =>
              rw [if_pos rfl]
              exact Outcome.failed _ again
            | false =>
              rw [if_neg Bool.false_ne_true]
              exact Outcome.poisoned .io (shows_.poisoned.refile fun opened => absurd opened unopened) rfl (Kept.headed _ n)
          | none =>
            dsimp only
            have whole : params.header d = image d params [] ++ [] := by
              unfold image
              rw [append_nil]
              exact (append_nil _).symm
            rw [whole]
            have made : Shows d params { o with cow := true } (image d params [] ++ []) [] := by
              exact { shows_ with stored := fun _ => ⟨[], rfl⟩, backed := fun _ => rfl }
            refine made.append trusted rfl params.recordSize_pos ?_ (fun _ => rfl) fits host
            rw [← whole, header_length]
            decide

end

end Src32.Cow
