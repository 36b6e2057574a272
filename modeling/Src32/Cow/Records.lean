import Src32.Lib.AppendLog
import Src32.Cow.Overlay

namespace Src32.Cow

open List (length_append append_assoc replicate)

/-!
# Scanning an overlay file

An overlay file is its header, the records of a log and a tail that is shorter
than a record.  Both scans accept such a file and find the same index in it.
-/

open ByteFields AppendLog

/-- A block that was written. -/
structure Write where
  index : Nat
  data : List Byte
  deriving DecidableEq

/-- The parameters of an overlay, as `open` accepts them. -/
structure Parameters where
  base : List Byte
  deviceType : Nat
  blockSize : Nat
  some_ : base ≠ []
  known : deviceType ≤ 3
  sized : 1 ≤ blockSize ∧ blockSize ≤ 4096
  counted : base.length + (blockSize - 1) < u64Range

variable (d : Digests) (params : Parameters)

namespace Parameters

/-- The number of blocks. -/
def blocks : Nat := (params.base.length + (params.blockSize - 1)) / params.blockSize

/-- The bytes of a record. -/
def recordSize : Nat := recordHeaderSize + params.blockSize

def header : List Byte := makeHeader d params.deviceType params.blockSize params.base.length (d.sha256 params.base)

/-- The write is one of a block of the image. -/
def Fits (w : Write) : Prop := w.index < params.blocks ∧ w.data.length = params.blockSize

end Parameters

/-- The record of a write with its number. -/
def encode (seq : Nat) (w : Write) : List Byte := makeRecord d w.index seq w.data

/-- The header and the records of a log. -/
def image (log : List Write) : List Byte := params.header d ++ stored (encode d) 1 log

/-- Where the data of the last record of a block is. -/
def latest (log : List Write) : Nat -> Option Nat :=
  log.zipIdx.foldl (fun found entry =>
    Function.update found entry.1.index (some (headerSize + entry.2 * params.recordSize + recordHeaderSize))) fun _ => none

variable {d params} {log : List Write} {w : Write} {tail file : List Byte} {offset seq : Nat}

/-! ## Lengths -/

theorem recordFields_length (index seq : Nat) (data : List Byte) : (recordFields d index seq data).length = 24 := by
  unfold recordFields
  simp only [length_append, leBytes_length]
  rfl

theorem makeRecord_length (index seq : Nat) (data : List Byte) :
    (makeRecord d index seq data).length = recordHeaderSize + data.length := by
  unfold makeRecord
  simp only [length_append, recordFields_length, leBytes_length, List.length_replicate]
  unfold recordHeaderSize
  omega

theorem headerFields_length (deviceType blockSize size : Nat) (base : List Byte) :
    (headerFields deviceType blockSize size (d.sha256 base)).length = 60 := by
  unfold headerFields
  simp only [length_append, leBytes_length, d.sha256_length]
  rfl

theorem header_length : (params.header d).length = headerSize := by
  unfold Parameters.header makeHeader
  rw [length_append, headerFields_length, leBytes_length]
  rfl

theorem Parameters.recordSize_pos (params : Parameters) : 0 < params.recordSize :=
  Nat.lt_of_lt_of_le (by decide) (Nat.le_add_right recordHeaderSize params.blockSize)

theorem encode_length (fits : ∀ w ∈ log, params.Fits w) : ∀ w ∈ log, ∀ seq, (encode d seq w).length = params.recordSize := by
  intro w member seq
  unfold encode
  rw [makeRecord_length, (fits w member).2]
  rfl

theorem image_length (fits : ∀ w ∈ log, params.Fits w) :
    (image d params log).length = headerSize + log.length * params.recordSize := by
  unfold image
  rw [length_append, header_length, stored_length 1 (encode_length fits)]

theorem image_append (first second : List Write) :
    image d params (first ++ second) = image d params first ++ stored (encode d) (1 + first.length) second := by
  unfold image
  rw [stored_append, append_assoc]

/-! ## One record -/

theorem crcPieces_one {bytes : List Byte} (short : bytes.length ≤ 4096) (some_ : 1 ≤ bytes.length) :
    crcPieces d bytes.length 0 bytes = crc32c d bytes := by
  obtain ⟨fuel, more⟩ : ∃ fuel, bytes.length = fuel + 1 := ⟨bytes.length - 1, by omega⟩
  rw [more]
  unfold crcPieces
  rw [if_neg (by omega), List.take_of_length_le short, List.drop_of_length_le short]
  cases fuel <;> rfl

theorem word_lt (x : Word) : x.toNat < 256 ^ 4 := x.isLt

/-- A record that is there is read. -/
theorem readRecord_here {before behind : List Byte} (at_ : before.length = offset)
    (whole : file = before ++ (makeRecord d w.index seq w.data ++ behind)) (fits : params.Fits w)
    (number : seq < u64Range) (size : file.length ≤ maxFileSize) :
    readRecord d params.blockSize params.blocks file offset seq = .ok (some w.index) := by
  obtain ⟨few, full⟩ := fits
  have long : file.length = offset + (recordHeaderSize + params.blockSize) + behind.length := by
    rw [whole, length_append, length_append, makeRecord_length, at_, full]
    omega
  have small := params.sized
  have limit : maxFileSize < u64Range := by decide
  -- The header and the data of the record.
  generalize crc : crc32c d (recordFields d w.index seq w.data ++ replicate 8 0) = check
  have rh : slice file offset recordHeaderSize =
      recordFields d w.index seq w.data ++ (leBytes 4 check.toNat ++ replicate 4 0) := by
    have split : file = before ++ ((recordFields d w.index seq w.data ++ (leBytes 4 check.toNat ++ replicate 4 0)) ++
        (w.data ++ behind)) := by
      rw [whole, ← crc]
      unfold makeRecord
      simp only [append_assoc]
    rw [split]
    apply slice_append at_
    simp only [length_append, recordFields_length, leBytes_length, List.length_replicate]
    rfl
  have data : slice file (offset + recordHeaderSize) params.blockSize = w.data := by
    have split : file = (before ++ (recordFields d w.index seq w.data ++ (leBytes 4 check.toNat ++ replicate 4 0))) ++
        (w.data ++ behind) := by
      rw [whole, ← crc]
      unfold makeRecord
      simp only [append_assoc]
    rw [split]
    apply slice_append
    · simp only [length_append, recordFields_length, leBytes_length, List.length_replicate, at_]
      rfl
    · exact full
  have blocks : params.blocks ≤ params.base.length + (params.blockSize - 1) := Nat.div_le_self ..
  have index : w.index < 256 ^ 8 := by
    have counted := params.counted
    unfold u64Range at counted
    omega
  have fields : recordFields d w.index seq w.data = recordMagic ++ (leBytes 8 w.index ++ (leBytes 8 seq ++
      leBytes 4 (crc32c d w.data).toNat)) := rfl
  have magicLength : recordMagic.length = 4 := rfl
  unfold readRecord
  rw [if_neg (by omega), if_neg (by omega), if_neg (by omega)]
  dsimp only
  rw [rh, data]
  have last : slice (recordFields d w.index seq w.data ++ (leBytes 4 check.toNat ++ replicate 4 0)) 28 4 =
      replicate 4 0 := by
    rw [← append_assoc, ← List.append_nil (replicate 4 0)]
    apply slice_append
    · rw [length_append, recordFields_length, leBytes_length]
    · rfl
  have magic : slice (recordFields d w.index seq w.data ++ (leBytes 4 check.toNat ++ replicate 4 0)) 0 4 =
      recordMagic := by
    rw [fields, append_assoc]
    exact slice_first magicLength
  have reserved : readU32 (recordFields d w.index seq w.data ++ (leBytes 4 check.toNat ++ replicate 4 0)) 28 = 0 := by
    unfold readU32
    rw [last]
    rfl
  have stored_ : readU32 (recordFields d w.index seq w.data ++ (leBytes 4 check.toNat ++ replicate 4 0)) 24 =
      check.toNat := by
    unfold readU32
    rw [slice_append (recordFields_length ..) (leBytes_length ..), leNat_leBytes (word_lt check)]
  have cleared : slice (recordFields d w.index seq w.data ++ (leBytes 4 check.toNat ++ replicate 4 0)) 0 24 ++
      replicate 4 0 ++ slice (recordFields d w.index seq w.data ++ (leBytes 4 check.toNat ++ replicate 4 0)) 28 4 =
      recordFields d w.index seq w.data ++ replicate 8 0 := by
    rw [slice_first (recordFields_length ..), last, append_assoc]
    rfl
  rw [if_neg (by rw [magic, reserved]; simp), cleared, stored_, crc, if_neg (not_not.mpr rfl)]
  have header : recordFields d w.index seq w.data ++ replicate 8 0 = recordMagic ++ (leBytes 8 w.index ++
      (leBytes 8 seq ++ (leBytes 4 (crc32c d w.data).toNat ++ replicate 8 0))) := by
    rw [fields]
    simp only [append_assoc]
  have indexRead : readU64 (recordFields d w.index seq w.data ++ replicate 8 0) 4 = w.index := by
    unfold readU64
    rw [header, slice_append magicLength (leBytes_length ..), leNat_leBytes index]
  have seqRead : readU64 (recordFields d w.index seq w.data ++ replicate 8 0) 12 = seq := by
    unfold readU64
    rw [header, ← append_assoc, slice_append _ (leBytes_length ..), leNat_leBytes number]
    rw [length_append, leBytes_length]
    rfl
  have crcRead : readU32 (recordFields d w.index seq w.data ++ replicate 8 0) 20 = (crc32c d w.data).toNat := by
    unfold readU32
    rw [header, ← append_assoc, ← append_assoc, slice_append _ (leBytes_length ..), leNat_leBytes (word_lt _)]
    rw [length_append, length_append, leBytes_length, leBytes_length]
    rfl
  rw [seqRead, if_neg (not_not.mpr rfl), indexRead, if_neg (by omega), crcRead, ← full,
    crcPieces_one (by omega) (by omega), if_neg (not_not.mpr rfl)]

/-- What is shorter than a record is a tail. -/
theorem readRecord_tail (inside : offset ≤ file.length) (short : file.length < offset + params.recordSize)
    (size : file.length ≤ maxFileSize) :
    readRecord d params.blockSize params.blocks file offset seq = .ok none := by
  have small := params.sized
  have limit : maxFileSize + recordHeaderSize + 4096 < u64Range := by decide
  unfold Parameters.recordSize at short
  unfold readRecord
  split
  · rfl
  · rw [if_neg (by omega), if_pos (by omega)]

/-! ## The loop -/

theorem latest_append (log : List Write) (w : Write) : latest params (log ++ [w]) =
    Function.update (latest params log) w.index (some (headerSize + log.length * params.recordSize + recordHeaderSize)) := by
  unfold latest
  rw [List.zipIdx_append, List.foldl_append, Nat.zero_add]
  rfl

/-- The scan goes on from the records that were read to those that are left. -/
theorem scanRecords_image (fits : ∀ w ∈ log, params.Fits w) (short : tail.length < params.recordSize)
    (size : (image d params log ++ tail).length ≤ maxFileSize) {read rest : List Write} (split : log = read ++ rest) :
    scanRecordsFromFile d params.blockSize params.blocks (image d params log ++ tail)
        (headerSize + read.length * params.recordSize) (read.length + 1) read.length (latest params read) =
      .ok ⟨log.length, decide (tail ≠ []), latest params log, (image d params log).length⟩ := by
  have length := image_length (d := d) fits
  have positive := params.recordSize_pos
  induction rest generalizing read with
  | nil =>
    rw [List.append_nil] at split
    subst split
    rw [scanRecordsFromFile, ← length]
    split
    · next more =>
        rw [length_append] at more size
        have some_ : tail ≠ [] := by
          rintro rfl
          exact Nat.lt_irrefl _ more
        rw [readRecord_tail (by rw [length_append]; omega) (by rw [length_append]; omega)
          (by rw [length_append]; omega), decide_eq_true some_]
    · next none =>
        rw [length_append] at none
        have empty : tail = [] := List.eq_nil_of_length_eq_zero (by omega)
        rw [empty, decide_eq_false (not_not.mpr rfl)]
  | cons w rest ih =>
    have member : w ∈ log := by
      rw [split]
      exact List.mem_append_right read List.mem_cons_self
    have prior : ∀ v ∈ read, params.Fits v := fun v inside => fits v (by rw [split]; exact List.mem_append_left _ inside)
    have whole : image d params log ++ tail = image d params read ++
        (makeRecord d w.index (read.length + 1) w.data ++ (stored (encode d) (read.length + 2) rest ++ tail)) := by
      rw [split, image_append, Nat.add_comm 1]
      change image d params read ++ (makeRecord d w.index (read.length + 1) w.data ++ stored (encode d) _ rest) ++ tail = _
      simp only [append_assoc]
    have more : read.length + 1 ≤ log.length := by
      rw [split, length_append, List.length_cons]
      omega
    have room : read.length + 1 < maxFileSize := by
      rw [length_append, length] at size
      have count := Nat.le_mul_of_pos_right log.length positive
      have some_ : 0 < headerSize := by decide
      omega
    have limit : maxFileSize < u64Range := by decide
    have here := readRecord_here (image_length (d := d) prior) whole (fits w member) (by omega) size
    rw [scanRecordsFromFile]
    have inside : headerSize + read.length * params.recordSize < (image d params log ++ tail).length := by
      rw [length_append, length]
      have count := Nat.mul_le_mul_right params.recordSize more
      rw [Nat.succ_mul] at count
      omega
    rw [if_pos inside, here]
    dsimp only
    rw [if_neg (by omega)]
    have next := @ih (read ++ [w]) (by rw [split, append_assoc]; rfl)
    have position : headerSize + read.length * params.recordSize + recordHeaderSize + params.blockSize =
        headerSize + (read.length * params.recordSize + params.recordSize) := by
      unfold Parameters.recordSize
      omega
    rw [latest_append, length_append, List.length_singleton, Nat.succ_mul, ← position] at next
    exact next

/-! ## The header -/

theorem params_valid (d : Digests) (params : Parameters) :
    validateParameters d params.base params.blockSize = .ok (params.base.length, d.sha256 params.base) ∧
      validateDeviceType params.deviceType = .ok () ∧
      blockCount params.base.length params.blockSize = .ok params.blocks := by
  have some_ : params.base.length ≠ 0 := fun zero => params.some_ (List.eq_nil_of_length_eq_zero zero)
  unfold validateParameters validateDeviceType blockCount
  rw [if_neg some_, if_neg (not_not.mpr params.sized), if_pos params.known, if_neg (Nat.not_le.mpr params.counted)]
  exact ⟨rfl, rfl, rfl⟩

/-- The fields of the header of an overlay file. -/
theorem header_fields (whole : file = params.header d ++ tail) :
    slice file 0 headerSize = params.header d ∧ slice (params.header d) 0 8 = headerMagic ∧
      readU16 (params.header d) 8 = 1 ∧ readU16 (params.header d) 10 = 64 ∧
      readU16 (params.header d) 12 = params.deviceType ∧ readU16 (params.header d) 14 = 0 ∧
      readU32 (params.header d) 16 = params.blockSize ∧ readU64 (params.header d) 20 = params.base.length ∧
      slice (params.header d) 28 32 = d.sha256 params.base ∧
      (crc32c d (slice (params.header d) 0 60)).toNat = readU32 (params.header d) 60 := by
  have known := params.known
  have sized := params.sized.2
  have counted := params.counted
  unfold u64Range at counted
  have magicLength : headerMagic.length = 8 := rfl
  have long : (params.header d).length = headerSize := header_length
  have read16 : ∀ {before behind : List Byte} {at_ x : Nat},
      params.header d = before ++ (leBytes 2 x ++ behind) -> before.length = at_ -> x < 256 ^ 2 ->
      readU16 (params.header d) at_ = x := by
    intro before behind at_ x split place small
    unfold readU16
    rw [split, slice_append place (leBytes_length ..), leNat_leBytes small]
  have read32 : ∀ {before behind : List Byte} {at_ x : Nat},
      params.header d = before ++ (leBytes 4 x ++ behind) -> before.length = at_ -> x < 256 ^ 4 ->
      readU32 (params.header d) at_ = x := by
    intro before behind at_ x split place small
    unfold readU32
    rw [split, slice_append place (leBytes_length ..), leNat_leBytes small]
  have read64 : ∀ {before behind : List Byte} {at_ x : Nat},
      params.header d = before ++ (leBytes 8 x ++ behind) -> before.length = at_ -> x < 256 ^ 8 ->
      readU64 (params.header d) at_ = x := by
    intro before behind at_ x split place small
    unfold readU64
    rw [split, slice_append place (leBytes_length ..), leNat_leBytes small]
  generalize crc : crc32c d (headerFields params.deviceType params.blockSize params.base.length (d.sha256 params.base)) =
    check
  have fields : params.header d = headerMagic ++ (leBytes 2 1 ++ (leBytes 2 64 ++ (leBytes 2 params.deviceType ++
      (leBytes 2 0 ++ (leBytes 4 params.blockSize ++ (leBytes 8 params.base.length ++ (d.sha256 params.base ++
        leBytes 4 check.toNat))))))) := by
    unfold Parameters.header makeHeader
    rw [crc]
    unfold headerFields
    simp only [append_assoc]
  have summed : params.header d = headerFields params.deviceType params.blockSize params.base.length (d.sha256 params.base) ++
      (leBytes 4 check.toNat ++ []) := by
    unfold Parameters.header makeHeader
    rw [crc, List.append_nil]
  have field1 := fields
  have field2 := fields
  rw [← append_assoc] at field2
  have field3 := field2
  rw [← append_assoc] at field3
  have field4 := field3
  rw [← append_assoc] at field4
  have field5 := field4
  rw [← append_assoc] at field5
  have field6 := field5
  rw [← append_assoc] at field6
  have field7 := field6
  rw [← append_assoc] at field7
  refine ⟨?_, ?_, read16 field1 rfl (by omega), read16 field2 ?_ (by omega), read16 field3 ?_ (by omega),
    read16 field4 ?_ (by omega), read32 field5 ?_ (by omega), read64 field6 ?_ (by omega), ?_, ?_⟩
  · rw [whole]
    exact slice_first long
  · rw [fields]
    exact slice_first magicLength
  · simp only [length_append, leBytes_length, magicLength]
  · simp only [length_append, leBytes_length, magicLength]
  · simp only [length_append, leBytes_length, magicLength]
  · simp only [length_append, leBytes_length, magicLength]
  · simp only [length_append, leBytes_length, magicLength]
  · rw [field7]
    apply slice_append
    · simp only [length_append, leBytes_length, magicLength]
    · exact d.sha256_length _
  · rw [read32 summed (headerFields_length ..) (word_lt check), summed, slice_first (headerFields_length ..), crc]

/-- The scan of an overlay file. -/
theorem scan_image (fits : ∀ w ∈ log, params.Fits w) (short : tail.length < params.recordSize)
    (size : (image d params log ++ tail).length ≤ maxFileSize) :
    scanCowFromFile d params.base (image d params log ++ tail) params.deviceType params.blockSize =
      .ok ⟨params.base.length, params.blockSize, params.deviceType, log.length, decide (tail ≠ []), latest params log,
        (image d params log).length⟩ := by
  obtain ⟨valid, _, blocks⟩ := params_valid d params
  have whole : image d params log ++ tail = params.header d ++ (stored (encode d) 1 log ++ tail) := append_assoc ..
  obtain ⟨h, magic, version, length, device, reserved, block, logical, hash, crc⟩ := header_fields whole
  have long : ¬ (image d params log ++ tail).length < headerSize := by
    rw [whole, length_append, header_length]
    omega
  have found := @scanRecords_image d params log tail fits short size [] log rfl
  rw [List.length_nil, Nat.zero_mul, Nat.add_zero, Nat.zero_add] at found
  unfold scanCowFromFile
  rw [valid]
  dsimp only
  rw [h, if_neg long, magic, version, length, device, reserved, block, logical, crc, hash, if_neg (by simp),
    if_neg (not_not.mpr rfl), blocks]
  dsimp only
  have start : latest params [] = fun _ => none := rfl
  rw [start] at found
  rw [found]

/-- Opening an overlay file shows the writes of its log. -/
theorem open_image (fits : ∀ w ∈ log, params.Fits w) (short : tail.length < params.recordSize)
    (size : (image d params log ++ tail).length ≤ maxFileSize) :
    open_ d params.base (some (image d params log ++ tail)) params.deviceType params.blockSize =
      .ok ⟨params.base, true, params.deviceType, d.sha256 params.base,
        ⟨params.base.length, params.blockSize, params.deviceType, log.length, decide (tail ≠ []), latest params log,
          (image d params log).length⟩, log.length + 1, (image d params log).length, false⟩ := by
  obtain ⟨valid, known, _⟩ := params_valid d params
  have length := image_length (d := d) fits
  have some_ : ¬ (image d params log ++ tail).length = 0 := by
    rw [length_append, length]
    unfold headerSize
    omega
  have few : ¬ log.length + 1 ≥ u64Range := by
    rw [length_append, length] at size
    have count := Nat.le_mul_of_pos_right log.length params.recordSize_pos
    have limit : maxFileSize < u64Range := by decide
    have header : 0 < headerSize := by decide
    omega
  unfold open_
  rw [known]
  dsimp only
  rw [valid]
  dsimp only
  rw [if_neg some_, scan_image fits short size]
  dsimp only
  rw [if_neg few]

/-! ## Two scans -/

/-- The count of records is behind their numbers, so it does not overflow before
they do. -/
theorem scanRecords_same (blockSize blocks : Nat) (file : List Byte) (offset seq records : Nat)
    (found : Nat -> Option Nat) (behind : records < seq) (small : seq < u64Range) :
    scanRecords d blockSize blocks file offset seq records found =
      scanRecordsFromFile d blockSize blocks file offset seq records found := by
  generalize left : file.length - offset = n
  induction n using Nat.strongRecOn generalizing offset seq records found with
  | ind n ih =>
    rw [scanRecords, scanRecordsFromFile]
    by_cases more : offset < file.length
    · rw [if_pos more, if_pos more]
      cases readRecord d blockSize blocks file offset seq with
      | error error => rfl
      | ok read =>
        cases read with
        | none => rfl
        | some index =>
          dsimp only
          by_cases last : seq + 1 ≥ u64Range
          · rw [if_pos last, if_pos last, if_neg (by omega)]
          · rw [if_neg last, if_neg last, if_neg (by omega)]
            have long : 0 < recordHeaderSize := by decide
            exact ih _ (by omega) _ _ _ _ (by omega) (by omega) rfl
    · rw [if_neg more, if_neg more]

/-- Both scans accept the same files and find the same in them. -/
theorem scanCow_same (base file : List Byte) (deviceType blockSize : Nat) (scan : CowScan) :
    scanCow d base (some file) deviceType blockSize = .ok scan ↔
      deviceType ≤ 3 ∧ scanCowFromFile d base file deviceType blockSize = .ok scan := by
  have loop : ∀ blocks, scanRecords d blockSize blocks file headerSize 1 0 (fun _ => none) =
      scanRecordsFromFile d blockSize blocks file headerSize 1 0 fun _ => none :=
    fun blocks => scanRecords_same blockSize blocks file headerSize 1 0 _ (by decide) (by decide)
  unfold scanCow scanCowFromFile validateDeviceType
  by_cases known : deviceType ≤ 3
  · rw [if_pos known]
    dsimp only
    cases validateParameters d base blockSize with
    | error error => exact ⟨nofun, fun both => by cases both.2⟩
    | ok found =>
      obtain ⟨logicalSize, baseHash⟩ := found
      dsimp only
      by_cases long : file.length < headerSize
      · rw [if_pos long, if_pos long]
        exact ⟨nofun, fun both => by cases both.2⟩
      · rw [if_neg long, if_neg long]
        generalize slice file 0 headerSize = h
        by_cases format : slice h 0 8 ≠ headerMagic ∨ readU16 h 8 ≠ 1 ∨ readU16 h 10 ≠ 64 ∨ readU16 h 14 ≠ 0 ∨
            (crc32c d (slice h 0 60)).toNat ≠ readU32 h 60
        · have either : slice h 0 8 ≠ headerMagic ∨ readU16 h 8 ≠ 1 ∨ readU16 h 10 ≠ 64 ∨ readU16 h 12 ≠ deviceType ∨
              readU16 h 14 ≠ 0 ∨ readU32 h 16 ≠ blockSize ∨ readU64 h 20 ≠ logicalSize ∨
              (crc32c d (slice h 0 60)).toNat ≠ readU32 h 60 := by
            tauto
          rw [if_pos format, if_pos either]
          exact ⟨nofun, fun both => by cases both.2⟩
        · by_cases parameters : readU16 h 12 ≠ deviceType ∨ readU32 h 16 ≠ blockSize ∨ readU64 h 20 ≠ logicalSize
          · have either : slice h 0 8 ≠ headerMagic ∨ readU16 h 8 ≠ 1 ∨ readU16 h 10 ≠ 64 ∨ readU16 h 12 ≠ deviceType ∨
                readU16 h 14 ≠ 0 ∨ readU32 h 16 ≠ blockSize ∨ readU64 h 20 ≠ logicalSize ∨
                (crc32c d (slice h 0 60)).toNat ≠ readU32 h 60 := by
              tauto
            rw [if_neg format, if_pos parameters, if_pos either]
            exact ⟨nofun, fun both => by cases both.2⟩
          · have neither : ¬ (slice h 0 8 ≠ headerMagic ∨ readU16 h 8 ≠ 1 ∨ readU16 h 10 ≠ 64 ∨
                readU16 h 12 ≠ deviceType ∨ readU16 h 14 ≠ 0 ∨ readU32 h 16 ≠ blockSize ∨ readU64 h 20 ≠ logicalSize ∨
                (crc32c d (slice h 0 60)).toNat ≠ readU32 h 60) := by
              tauto
            rw [if_neg format, if_neg parameters, if_neg neither]
            split
            · exact ⟨nofun, fun both => by cases both.2⟩
            · cases blockCount logicalSize blockSize with
              | error error => exact ⟨nofun, fun both => by cases both.2⟩
              | ok blocks =>
                dsimp only
                rw [loop blocks]
                exact ⟨fun same => ⟨known, same⟩, And.right⟩
  · rw [if_neg known]
    exact ⟨nofun, fun both => absurd both.1 known⟩

end Src32.Cow
