import Src32.Lib.ByteFields

namespace Src32.Cow

/-!
# The copy-on-write overlay

An overlay file holds a header and one record for each block that was written,
behind an immutable base image.  A record has a number and checksums; the last
record of a block is the one that counts.  A short final record is a tail that
is cut off before the next one is appended.

What the file system answers during a write is an argument of it: which call
fails, and how much was written until then.
-/

open ByteFields

/-- The checksums of the crates `crc32c` and `sha2`. -/
structure Digests where
  crc32cAppend : Word -> List Byte -> Word
  sha256 : List Byte -> List Byte
  sha256_length : ∀ bytes, (sha256 bytes).length = 32

inductive CowError where
  | io
  | invalid (message : String)
  | baseMismatch
  | readOnly
  | writePoisoned
  deriving DecidableEq

/-- `HEADER_SIZE`. -/
def headerSize : Nat := 64

/-- `RECORD_HEADER_SIZE`. -/
def recordHeaderSize : Nat := 32

/-- `HEADER_MAGIC`. -/
def headerMagic : List Byte := [0x43, 0x50, 0x54, 0x43, 0x4F, 0x57, 0x31, 0]

/-- `RECORD_MAGIC`. -/
def recordMagic : List Byte := [0x42, 0x4C, 0x4B, 0x31]

/-- The values of a `u64`. -/
def u64Range : Nat := 2 ^ 64

/-- No file is longer. -/
def maxFileSize : Nat := 2 ^ 63 - 1

structure CowScan where
  logicalSize : Nat
  blockSize : Nat
  deviceType : Nat
  records : Nat
  recoverableTail : Bool
  /-- Where the data of the latest record of a block begins. -/
  latestBlocks : Nat -> Option Nat
  validEnd : Nat

def readU16 (bytes : List Byte) (start : Nat) : Nat := leNat (slice bytes start 2)

def readU32 (bytes : List Byte) (start : Nat) : Nat := leNat (slice bytes start 4)

def readU64 (bytes : List Byte) (start : Nat) : Nat := leNat (slice bytes start 8)

variable (d : Digests)

/-- `crc32c`, the checksum of one piece. -/
def crc32c (bytes : List Byte) : Word := d.crc32cAppend 0 bytes

/-- The checksum of data read in pieces of 4096 bytes. -/
def crcPieces : Nat -> Word -> List Byte -> Word
  | 0, crc, _ => crc
  | fuel + 1, crc, bytes =>
    if bytes.length = 0 then crc else crcPieces fuel (d.crc32cAppend crc (bytes.take 4096)) (bytes.drop 4096)

def validateParameters (base : List Byte) (blockSize : Nat) : Except CowError (Nat × List Byte) :=
  if base.length = 0 then .error (.invalid "base image must be non-empty")
  else if ¬ (1 ≤ blockSize ∧ blockSize ≤ 4096) then .error (.invalid "block size must be in 1..=4096")
  else .ok (base.length, d.sha256 base)

def validateDeviceType (deviceType : Nat) : Except CowError Unit :=
  if deviceType ≤ 3 then .ok () else .error (.invalid "unsupported COW device type")

/-- The header up to its checksum. -/
def headerFields (deviceType blockSize size : Nat) (hash : List Byte) : List Byte :=
  headerMagic ++ (leBytes 2 1 ++ (leBytes 2 64 ++ (leBytes 2 deviceType ++ (leBytes 2 0 ++ (leBytes 4 blockSize ++
    (leBytes 8 size ++ hash))))))

def makeHeader (deviceType blockSize size : Nat) (hash : List Byte) : List Byte :=
  headerFields deviceType blockSize size hash ++
    leBytes 4 (crc32c d (headerFields deviceType blockSize size hash)).toNat

/-- The number of blocks, unless it overflows on the way. -/
def blockCount (logicalSize blockSize : Nat) : Except CowError Nat :=
  if logicalSize + (blockSize - 1) ≥ u64Range then .error (.invalid "logical block count overflow")
  else .ok ((logicalSize + (blockSize - 1)) / blockSize)

/-- The record at an offset, as both scans read it: nothing if it is a tail, or
the index of its block. -/
def readRecord (blockSize blocks : Nat) (file : List Byte) (offset seq : Nat) : Except CowError (Option Nat) :=
  if file.length - offset < recordHeaderSize then .ok none
  else if offset + recordHeaderSize + blockSize ≥ u64Range then .error (.invalid "record offset overflow")
  else if offset + recordHeaderSize + blockSize > file.length then .ok none
  else
    let rh := slice file offset recordHeaderSize
    if slice rh 0 4 ≠ recordMagic ∨ readU32 rh 28 ≠ 0 then .error (.invalid "invalid COW record header")
    else
      let headerCrc := readU32 rh 24
      let rh := slice rh 0 24 ++ List.replicate 4 0 ++ slice rh 28 4
      if (crc32c d rh).toNat ≠ headerCrc then .error (.invalid "invalid COW record header CRC32C")
      else if readU64 rh 12 ≠ seq then .error (.invalid "invalid COW record sequence")
      else if readU64 rh 4 ≥ blocks then .error (.invalid "COW block index out of range")
      else if (crcPieces d blockSize 0 (slice file (offset + recordHeaderSize) blockSize)).toNat ≠ readU32 rh 20 then
        .error (.invalid "invalid COW block data CRC32C")
      else .ok (some (readU64 rh 4))

/-- What the loop over the records finds. -/
structure Found where
  records : Nat
  tail : Bool
  latest : Nat -> Option Nat
  validEnd : Nat

/-- The loop of `scan_cow`. -/
def scanRecords (blockSize blocks : Nat) (file : List Byte) (offset seq records : Nat) (latest : Nat -> Option Nat) :
    Except CowError Found :=
  if offset < file.length then
    match readRecord d blockSize blocks file offset seq with
    | .error error => .error error
    | .ok none => .ok ⟨records, true, latest, offset⟩
    | .ok (some index) =>
      if records + 1 ≥ u64Range then .error (.invalid "record count overflow")
      else if seq + 1 ≥ u64Range then .error (.invalid "record sequence overflow")
      else scanRecords blockSize blocks file (offset + recordHeaderSize + blockSize) (seq + 1) (records + 1)
        (Function.update latest index (some (offset + recordHeaderSize)))
  else .ok ⟨records, false, latest, offset⟩
termination_by file.length - offset
decreasing_by
  have long : 0 < recordHeaderSize := by decide
  omega

/-- Scan and validate a file without modifying it. -/
def scanCow (base : List Byte) (file : Option (List Byte)) (deviceType blockSize : Nat) : Except CowError CowScan :=
  match validateDeviceType deviceType with
  | .error error => .error error
  | .ok () =>
    match validateParameters d base blockSize with
    | .error error => .error error
    | .ok (logicalSize, baseHash) =>
      match file with
      | none => .error .io
      | some file =>
        let h := slice file 0 headerSize
        if file.length < headerSize then .error (.invalid "truncated COW header")
        else if slice h 0 8 ≠ headerMagic ∨ readU16 h 8 ≠ 1 ∨ readU16 h 10 ≠ 64 ∨ readU16 h 14 ≠ 0 ∨
            (crc32c d (slice h 0 60)).toNat ≠ readU32 h 60 then .error (.invalid "invalid COW header")
        else if readU16 h 12 ≠ deviceType ∨ readU32 h 16 ≠ blockSize ∨ readU64 h 20 ≠ logicalSize then
          .error (.invalid "COW parameters do not match base")
        else if slice h 28 32 ≠ baseHash then .error .baseMismatch
        else
          match blockCount logicalSize blockSize with
          | .error error => .error error
          | .ok blocks =>
            match scanRecords d blockSize blocks file headerSize 1 0 fun _ => none with
            | .error error => .error error
            | .ok found =>
              .ok ⟨logicalSize, blockSize, deviceType, found.records, found.tail, found.latest, found.validEnd⟩

/-- The loop of `scan_cow_from_file`. -/
def scanRecordsFromFile (blockSize blocks : Nat) (file : List Byte) (offset seq records : Nat)
    (latest : Nat -> Option Nat) : Except CowError Found :=
  if offset < file.length then
    match readRecord d blockSize blocks file offset seq with
    | .error error => .error error
    | .ok none => .ok ⟨records, true, latest, offset⟩
    | .ok (some index) =>
      if seq + 1 ≥ u64Range then .error (.invalid "record sequence overflow")
      else scanRecordsFromFile blockSize blocks file (offset + recordHeaderSize + blockSize) (seq + 1) (records + 1)
        (Function.update latest index (some (offset + recordHeaderSize)))
  else .ok ⟨records, false, latest, offset⟩
termination_by file.length - offset
decreasing_by
  have long : 0 < recordHeaderSize := by decide
  omega

/-- The scan that `open` uses. -/
def scanCowFromFile (base file : List Byte) (deviceType blockSize : Nat) : Except CowError CowScan :=
  match validateParameters d base blockSize with
  | .error error => .error error
  | .ok (logicalSize, baseHash) =>
    let h := slice file 0 headerSize
    if file.length < headerSize then .error (.invalid "truncated COW header")
    else if slice h 0 8 ≠ headerMagic ∨ readU16 h 8 ≠ 1 ∨ readU16 h 10 ≠ 64 ∨ readU16 h 12 ≠ deviceType ∨
        readU16 h 14 ≠ 0 ∨ readU32 h 16 ≠ blockSize ∨ readU64 h 20 ≠ logicalSize ∨
        (crc32c d (slice h 0 60)).toNat ≠ readU32 h 60 then .error (.invalid "invalid or mismatched COW header")
    else if slice h 28 32 ≠ baseHash then .error .baseMismatch
    else
      match blockCount logicalSize blockSize with
      | .error error => .error error
      | .ok blocks =>
        match scanRecordsFromFile d blockSize blocks file headerSize 1 0 fun _ => none with
        | .error error => .error error
        | .ok found =>
          .ok ⟨logicalSize, blockSize, deviceType, found.records, found.tail, found.latest, found.validEnd⟩

/-- An open overlay; `cow` says whether it has its file open. -/
structure CowOverlay where
  base : List Byte
  cow : Bool
  deviceType : Nat
  baseHash : List Byte
  scan : CowScan
  nextSequence : Nat
  committedEnd : Nat
  poisoned : Bool

/-- `CowOverlay::open` with the file at its path, if there is one. -/
def open_ (base : List Byte) (file : Option (List Byte)) (deviceType blockSize : Nat) : Except CowError CowOverlay :=
  match validateDeviceType deviceType with
  | .error error => .error error
  | .ok () =>
    match validateParameters d base blockSize with
    | .error error => .error error
    | .ok (logicalSize, baseHash) =>
      match file with
      | none =>
        .ok ⟨base, false, deviceType, baseHash, ⟨logicalSize, blockSize, deviceType, 0, false, fun _ => none, headerSize⟩,
          1, headerSize, false⟩
      | some file =>
        if file.length = 0 then .error (.invalid "empty COW file")
        else
          match scanCowFromFile d base file deviceType blockSize with
          | .error error => .error error
          | .ok scan =>
            if scan.records + 1 ≥ u64Range then .error (.invalid "record sequence overflow")
            else .ok ⟨base, true, deviceType, baseHash, scan, scan.records + 1, scan.validEnd, false⟩

/-- Bytes of a file or an image, all of them or none. -/
def readExact (bytes : List Byte) (start n : Nat) : Except CowError (List Byte) :=
  if start + n ≤ bytes.length then .ok (slice bytes start n) else .error .io

/-- The piece of a range that lies in one block. -/
def readPiece (o : CowOverlay) (file : List Byte) (position count : Nat) : Except CowError (List Byte) :=
  match o.scan.latestBlocks (position / o.scan.blockSize) with
  | some dataOffset =>
    if o.cow then readExact file (dataOffset + position % o.scan.blockSize) count
    else .error (.invalid "COW index has no backing file")
  | none => readExact o.base position count

/-- The loop of `read_at`: one piece for each block that the range meets. -/
def readPieces (o : CowOverlay) (file : List Byte) (position left : Nat) : Except CowError (List Byte) :=
  if left = 0 then .ok []
  else
    let count := min left (o.scan.blockSize - position % o.scan.blockSize)
    -- No overlay is open with blocks of no bytes.
    if count = 0 then .error .io
    else
      match readPiece o file position count with
      | .error error => .error error
      | .ok bytes =>
        match readPieces o file (position + count) (left - count) with
        | .error error => .error error
        | .ok rest => .ok (bytes ++ rest)
termination_by left
decreasing_by omega

def readAt (o : CowOverlay) (file : List Byte) (offset length : Nat) : Except CowError (List Byte) :=
  if offset + length ≥ u64Range then .error (.invalid "read range overflow")
  else if offset + length > o.scan.logicalSize then .error (.invalid "read range exceeds logical image")
  else readPieces o file offset length

/-- How taking back what was appended ends: done, cut off but not synced, or
failed with so many bytes left. -/
inductive Rollback where
  | done
  | unsynced
  | failed (left : Nat)

/-- What the file system answers during a write: whether the file can be made,
after how many bytes its header fails and whether it can be removed again, how
much of a tail is left when that cannot be cut off, after how many bytes the
record fails, and how taking it back ends. -/
structure Host where
  create : Bool
  header : Option Nat
  remove : Bool
  trim : Option Nat
  append : Option Nat
  rollback : Rollback

/-- The header of a record up to its own checksum. -/
def recordFields (index seq : Nat) (data : List Byte) : List Byte :=
  recordMagic ++ (leBytes 8 index ++ (leBytes 8 seq ++ leBytes 4 (crc32c d data).toNat))

/-- A record: its header and its data. -/
def makeRecord (index seq : Nat) (data : List Byte) : List Byte :=
  recordFields d index seq data ++
    (leBytes 4 (crc32c d (recordFields d index seq data ++ List.replicate 8 0)).toNat ++ (List.replicate 4 0 ++ data))

/-- Bytes are written at an offset. -/
def writeAt (file : List Byte) (start : Nat) (bytes : List Byte) : List Byte :=
  file.take start ++ bytes ++ file.drop (start + bytes.length)

/-- The file is made with its header, unless it is open. -/
def openFile (o : CowOverlay) (file : Option (List Byte)) (host : Host) :
    Except CowError Unit × CowOverlay × Option (List Byte) :=
  if o.cow then (.ok (), o, file)
  else if host.create = false ∨ file.isSome then (.error .io, o, file)
  else
    let header := makeHeader d o.deviceType o.scan.blockSize o.scan.logicalSize o.baseHash
    match host.header with
    | some n =>
      if host.remove then (.error .io, o, none)
      else (.error .io, { o with poisoned := true }, some (header.take n))
    | none => (.ok (), { o with cow := true }, some header)

/-- A tail is cut off before a record is appended. -/
def trimTail (o : CowOverlay) (file : List Byte) (host : Host) : Except CowError Unit × CowOverlay × List Byte :=
  if o.scan.recoverableTail then
    match host.trim with
    | some n => (.error .io, { o with poisoned := true }, file.take (o.committedEnd + n))
    | none => (.ok (), { o with scan := { o.scan with recoverableTail := false } }, file.take o.committedEnd)
  else (.ok (), o, file)

/-- What was written of a record is taken back. -/
def takeBack (o : CowOverlay) (written : List Byte) (start : Nat) : Rollback -> CowOverlay × List Byte
  | .done => (o, written.take start)
  | .unsynced => ({ o with poisoned := true }, written.take start)
  | .failed left => ({ o with poisoned := true }, written.take (start + left))

/-- A record is appended, or what was written of it is taken back. -/
def appendRecord (o : CowOverlay) (file : List Byte) (index : Nat) (data : List Byte) (host : Host) :
    Except CowError Unit × CowOverlay × List Byte :=
  let start := o.committedEnd
  let record := makeRecord d index o.nextSequence data
  let failure := if start + record.length ≤ maxFileSize then host.append else some (host.append.getD 0)
  match failure with
  | some n =>
    -- No more than fits in a file has been written.
    let undone := takeBack o (writeAt file start (record.take (min n (maxFileSize - start)))) start host.rollback
    (.error .io, undone.1, undone.2)
  | none =>
    let dataOffset := start + recordHeaderSize
    (.ok (), { o with
      scan := { o.scan with
        latestBlocks := Function.update o.scan.latestBlocks index (some dataOffset)
        records := o.scan.records + 1
        validEnd := dataOffset + data.length
        recoverableTail := false }
      nextSequence := o.nextSequence + 1
      committedEnd := dataOffset + data.length }, writeAt file start record)

/-- A tail is cut off, and a record is appended. -/
def appendTo (o : CowOverlay) (file : List Byte) (index : Nat) (data : List Byte) (host : Host) :
    Except CowError Unit × CowOverlay × List Byte :=
  match trimTail o file host with
  | (.error error, o, file) => (.error error, o, file)
  | (.ok (), o, file) => appendRecord d o file index data host

def writeBlock (o : CowOverlay) (file : Option (List Byte)) (index : Nat) (data : List Byte) (host : Host) :
    Except CowError Unit × CowOverlay × Option (List Byte) :=
  if o.poisoned then (.error .writePoisoned, o, file)
  else if data.length ≠ o.scan.blockSize then (.error (.invalid "write must contain exactly one full block"), o, file)
  else
    match blockCount o.scan.logicalSize o.scan.blockSize with
    | .error error => (.error error, o, file)
    | .ok blocks =>
      if index ≥ blocks then (.error (.invalid "COW block index out of range"), o, file)
      else
        match openFile d o file host with
        | (.error error, o, file) => (.error error, o, file)
        | (.ok (), o, none) => (.error .io, o, none)
        | (.ok (), o, some file) =>
          let (result, o, file) := appendTo d o file index data host
          (result, o, some file)

end Src32.Cow
