import Src32.Machine.Word
import Src32.Lib.SectorWrites

namespace Src32.Fs.Dsfs

open SectorWrites

/-!
# DSFS volumes

The read-only driver of Foundation (`foundation/fs/dsfs.c`) and the writer of the SDK
(`sdk/cpt32/src/dsfs.c`) over the same disk.  A disk is its bytes, and what the writer
does is the list of the sectors that it writes: an error of the drive or a cut of the
power leaves the disk after a prefix of them.  Reads of the drive succeed.
-/

/-- `DSFS_SECTOR_SIZE`. -/
def sectorSize : Nat := 512

/-- `DSFS_DIR_BLOCKS`. -/
def dirBlocks : Nat := 16

/-- `DSFS_ENTRIES`. -/
def entries : Nat := 256

/-- `DSFS_ENTRY_SIZE`. -/
def entrySize : Nat := 32

/-- `DSFS_NAME_BYTES`. -/
def nameBytes : Nat := 11

abbrev Disk := Nat -> Byte

/-- The pointer `p + o`. -/
def behind (p : Nat -> Byte) (o : Nat) : Nat -> Byte := fun i => p (o + i)

/-- `fs_be16` and `dsfs_read_be16`. -/
def be16 (p : Nat -> Byte) (o : Nat) : Nat := (p o).toNat * 256 + (p (o + 1)).toNat

/-- `fs_be32` and `dsfs_read_be32`. -/
def be32 (p : Nat -> Byte) (o : Nat) : Nat := (Word.ofBytes (p o) (p (o + 1)) (p (o + 2)) (p (o + 3))).toNat

/-- `blocks_of` and `dsfs_sector_count`. -/
def blocksOf (size : Nat) : Nat := size / 512 + if size % 512 ≠ 0 then 1 else 0

/-- `name_char` and `dsfs_name_char`. -/
def nameChar (c : Byte) : Bool := 0x41#8 ≤ c ∧ c ≤ 0x5A#8 ∨ 0x30#8 ≤ c ∧ c ≤ 0x39#8 ∨ c = 0x5F#8 ∨ c = 0x2D#8

/-- The bytes of a field. -/
def field (p : Nat -> Byte) (n : Nat) : List Byte := (List.range n).map p

/-! ## Foundation's reader -/

/-- `all_zero`. -/
def AllZero (p : Nat -> Byte) (n : Nat) : Prop := ∀ i < n, p i = 0

/-- `bit_get`. -/
def bitGet (map : Nat -> Byte) (i : Nat) : Bool := map (i / 8) >>> (7 - i % 8) &&& 1#8 ≠ 0#8

/-- `field_ok`. -/
def fieldOk (f : List Byte) (least : Nat) : Bool :=
  (f.takeWhile (· ≠ 0x20#8)).all nameChar ∧ least ≤ (f.takeWhile (· ≠ 0x20#8)).length ∧
    (f.dropWhile (· ≠ 0x20#8)).all (· = 0x20#8)

/-- The superblock. -/
def superblock (disk : Disk) : Nat -> Byte := behind disk 512

def totalBlocks (disk : Disk) : Nat := be32 (superblock disk) 8

def bitmapBlocks (total : Nat) : Nat := (total + 4095) / 4096

def dirStart (total : Nat) : Nat := 2 + bitmapBlocks total

def dataStart (total : Nat) : Nat := dirStart total + 16

/-- The tests of the boot sector and the superblock. -/
def HeaderOk (sectors : Nat) (disk : Disk) : Prop :=
  disk 0x1FE = 0x55#8 ∧ disk 0x1FF = 0xAA#8 ∧ be32 (superblock disk) 0 = 0x44534653 ∧
    be16 (superblock disk) 4 = 1 ∧ be16 (superblock disk) 6 = 0 ∧ be32 (superblock disk) 0x0C = 2 ∧
    be32 (superblock disk) 0x10 = bitmapBlocks (totalBlocks disk) ∧ be32 (superblock disk) 0x14 = dirStart (totalBlocks disk) ∧
    be32 (superblock disk) 0x18 = 16 ∧ be32 (superblock disk) 0x1C = dataStart (totalBlocks disk) ∧
    dataStart (totalBlocks disk) ≤ totalBlocks disk ∧ totalBlocks disk ≤ sectors ∧
    AllZero (behind (superblock disk) 0x24) (512 - 0x24)

/-- The bitmap and the directory, as `dsfs_mount` reads them. -/
def bitmap (disk : Disk) : Nat -> Byte := behind disk (2 * 512)

def directory (total : Nat) (disk : Disk) : Nat -> Byte := behind disk (dirStart total * 512)

def entry (dir : Nat -> Byte) (i : Nat) : Nat -> Byte := behind dir (i * entrySize)

def entryStart (e : Nat -> Byte) : Nat := be32 e 0x10
def entryBytes (e : Nat -> Byte) : Nat := be32 e 0x14
def entryBlocks (e : Nat -> Byte) : Nat := blocksOf (entryBytes e)

/-- Two entries of one name. -/
def SameName (a b : Nat -> Byte) : Prop := ∀ i < 11, a (1 + i) = b (1 + i)

/-- Two entries with a block in common. -/
def Overlap (a b : Nat -> Byte) : Prop :=
  entryBlocks a ≠ 0 ∧ entryBlocks b ≠ 0 ∧ entryStart a < entryStart b + entryBlocks b ∧ entryStart b < entryStart a + entryBlocks a

/-- The tests of an entry by itself. -/
def UsedOk (total : Nat) (map e : Nat -> Byte) : Prop :=
  e 0 = 1#8 ∧ AllZero (behind e 0x0C) 4 ∧ fieldOk (field (behind e 1) 8) 1 ∧ fieldOk (field (behind e 9) 3) 0 ∧
    (if entryBytes e = 0 then entryStart e = 0
     else dataStart total ≤ entryStart e ∧ entryStart e + entryBlocks e ≤ total) ∧
    ∀ k < entryBlocks e, bitGet map (entryStart e + k)

/-- The tests of an entry. -/
def EntryOk (total : Nat) (map dir : Nat -> Byte) (i : Nat) : Prop :=
  if entry dir i 0 = 0 then AllZero (entry dir i) 32
  else
    UsedOk total map (entry dir i) ∧
      ∀ k < i, entry dir k 0 = 1#8 -> ¬ SameName (entry dir k) (entry dir i) ∧ ¬ Overlap (entry dir i) (entry dir k)

instance (p : Nat -> Byte) (n : Nat) : Decidable (AllZero p n) := by
  unfold AllZero
  infer_instance

instance (sectors : Nat) (disk : Disk) : Decidable (HeaderOk sectors disk) := by
  unfold HeaderOk
  infer_instance

instance (a b : Nat -> Byte) : Decidable (SameName a b) := by
  unfold SameName
  infer_instance

instance (a b : Nat -> Byte) : Decidable (Overlap a b) := by
  unfold Overlap
  infer_instance

instance (total : Nat) (map e : Nat -> Byte) : Decidable (UsedOk total map e) := by
  unfold UsedOk
  infer_instance

instance (total : Nat) (map dir : Nat -> Byte) (i : Nat) : Decidable (EntryOk total map dir i) := by
  unfold EntryOk
  infer_instance

/-- `dsfs_vol` without its device. -/
structure Vol where
  totalBlocks : Nat
  dataStart : Nat
  freeBlocks : Nat
  dir : Nat -> Byte

/-- `dsfs_mount` on a drive of so many sectors, with memory for the bitmap and the directory. -/
def mount (sectors : Nat) (disk : Disk) : Option Vol :=
  let total := totalBlocks disk
  if HeaderOk sectors disk ∧ (∀ b < dataStart total, bitGet (bitmap disk) b = true) ∧
      (∀ b < bitmapBlocks total * 4096 % 2 ^ 32, total ≤ b -> bitGet (bitmap disk) b = false) ∧
      ∀ i < entries, EntryOk total (bitmap disk) (directory total disk) i then
    some {
      totalBlocks := total
      dataStart := dataStart total
      freeBlocks := ((List.range total).filter fun b => dataStart total ≤ b ∧ bitGet (bitmap disk) b = false).length
      dir := directory total disk }
  else none

/-- `dsfs_entry`. -/
structure Entry where
  used : Bool
  start : Nat
  size : Nat
  created : Nat
  modified : Nat
  name : List Byte

/-- `dsfs_entry_get`. -/
def entryGet (v : Vol) (index : Nat) : Entry :=
  let e := entry v.dir index
  if e 0 ≠ 1#8 then { used := false, start := 0, size := 0, created := 0, modified := 0, name := [] }
  else {
    used := true
    start := be32 e 0x10
    size := be32 e 0x14
    created := be32 e 0x18
    modified := be32 e 0x1C
    name := (field (behind e 1) 8).takeWhile (· ≠ 0x20#8) ++
      if e 9 ≠ 0x20#8 then 0x2E#8 :: (field (behind e 9) 3).takeWhile (· ≠ 0x20#8) else [] }

theorem take_pos (pos : Nat) {len done : Nat} (more : done < len) : 0 < min (512 - pos % 512) (len - done) := by
  have inside := Nat.mod_lt pos (show 0 < 512 by decide)
  exact Nat.lt_min.mpr ⟨Nat.sub_pos_of_lt inside, Nat.sub_pos_of_lt more⟩

/-- The loop of `dsfs_read`: the bytes from `done` on. -/
def readLoop (disk : Disk) (start off len done : Nat) : List Byte :=
  if done < len then
    (List.range (min (512 - (off + done) % 512) (len - done))).map
        (fun k => disk ((start + (off + done) / 512) * 512 + (off + done) % 512 + k)) ++
      readLoop disk start off len (done + min (512 - (off + done) % 512) (len - done))
  else []
  termination_by len - done
  decreasing_by
    next more =>
      have some_ := take_pos (off + done) more
      omega

/-- `dsfs_read`; nothing for `FND_E_NOT_FOUND`. -/
def read (v : Vol) (disk : Disk) (index off len : Nat) : Option (List Byte) :=
  let e := entryGet v index
  if e.used = false then none
  else if off ≥ e.size then some []
  else some (readLoop disk e.start off (if len > e.size - off then e.size - off else len) 0)

/-! ## The SDK's writer -/

/-- The status codes of the SDK. -/
inductive Code where
  | ok | io | magic | version | layout | notFound | full | args
  deriving DecidableEq

/-- The static variables. -/
structure Writer where
  mounted : Bool
  total : Nat
  bitmapStart : Nat
  bitmapBlocks : Nat
  dirStart : Nat
  dataStart : Nat

/-- The loop of `dsfs_name_field_valid`. -/
def nameFieldLoop (required : Bool) : List Byte -> Bool -> Bool -> Bool
  | [], _, found => found || !required
  | c :: rest, padding, found =>
    if c = 0x20#8 then nameFieldLoop required rest true found
    else if padding || !nameChar c then false
    else nameFieldLoop required rest padding true

/-- `dsfs_name_field_valid`. -/
def nameFieldValid (f : List Byte) (required : Bool) : Bool := nameFieldLoop required f false false

/-- `dsfs_name_valid`, without a name for `NULL`. -/
def nameValid : Option (Nat -> Byte) -> Bool
  | none => false
  | some name => nameFieldValid (field name 8) true && nameFieldValid (field (behind name 8) 3) false

/-- The `dsfs_mount` of the SDK. -/
def attach (disk : Disk) : Code × Writer :=
  let sb := superblock disk
  let unmounted : Writer := { mounted := false, total := 0, bitmapStart := 0, bitmapBlocks := 0, dirStart := 0, dataStart := 0 }
  if be32 sb 0 ≠ 0x44534653 then (.magic, unmounted)
  else if be16 sb 4 ≠ 1 ∨ be16 sb 6 ≠ 0 then (.version, unmounted)
  else
    let w : Writer := {
      mounted := false
      total := be32 sb 8
      bitmapStart := be32 sb 12
      bitmapBlocks := be32 sb 16
      dirStart := be32 sb 20
      dataStart := be32 sb 28 }
    if w.bitmapStart ≠ 2 ∨ w.bitmapBlocks ≠ w.total / 4096 + (if w.total % 4096 ≠ 0 then 1 else 0) ∨
        w.dirStart ≠ (w.bitmapStart + w.bitmapBlocks) % 2 ^ 32 ∨ be32 sb 24 ≠ dirBlocks ∨
        w.dataStart ≠ (w.dirStart + dirBlocks) % 2 ^ 32 ∨ w.dataStart > w.total then (.layout, w)
    else (.ok, { w with mounted := true })

namespace Writer

variable (w : Writer)

/-- `dsfs_dir_load`. -/
def dirLoad (disk : Disk) : Nat -> Byte := behind disk (w.dirStart * 512)

/-- `dsfs_dir_save_sector`. -/
def dirSaveSector (dir : Nat -> Byte) (index : Nat) : List (Write Byte) :=
  run sectorSize (w.dirStart + index / 16) 1 (behind dir (index / 16 * sectorSize))

/-- `dsfs_bitmap_load`. -/
def bitmapLoad (disk : Disk) : Nat -> Byte := behind disk (w.bitmapStart * 512)

/-- `dsfs_bitmap_save`. -/
def bitmapSave (map : Nat -> Byte) : List (Write Byte) := run sectorSize w.bitmapStart w.bitmapBlocks map

/-- `(uint8_t)(0x80u >> (block & 7u))`. -/
def mask (block : Nat) : Byte := 0x80#8 >>> (block % 8)

/-- `dsfs_bm_get`. -/
def bmGet (map : Nat -> Byte) (block : Nat) : Bool := block < w.total ∧ map (block / 8) &&& mask block ≠ 0#8

/-- `dsfs_bm_set`. -/
def bmSet (map : Nat -> Byte) (block : Nat) : Nat -> Byte :=
  if block ≥ w.total then map else Function.update map (block / 8) (map (block / 8) ||| mask block)

/-- `dsfs_bm_clear`. -/
def bmClear (map : Nat -> Byte) (block : Nat) : Nat -> Byte :=
  if block ≥ w.total then map else Function.update map (block / 8) (map (block / 8) &&& ~~~mask block)

/-- `dsfs_find`. -/
def find (dir name : Nat -> Byte) : Option Nat :=
  (List.range entries).find? fun i => entry dir i 0 = 1#8 ∧ ∀ j < nameBytes, entry dir i (1 + j) = name j

/-- The first free entry. -/
def findFree (dir : Nat -> Byte) : Option Nat := (List.range entries).find? fun i => entry dir i 0 = 0#8

/-- What `dsfs_write_file` keeps of the entry that it replaces. -/
structure Old where
  existed : Bool
  start : Nat
  size : Nat
  created : Nat

def Old.blocks (old : Old) : Nat := blocksOf old.size

def old (dir : Nat -> Byte) (existed : Bool) (index time : Nat) : Old :=
  { existed := existed
    start := if existed then be32 (entry dir index) 16 else 0
    size := if existed then be32 (entry dir index) 20 else 0
    created := if existed then be32 (entry dir index) 24 else time }

/-- A run of free blocks. -/
def freeRun (map : Nat -> Byte) (sectors candidate : Nat) : Bool := ∀ j < sectors, w.bmGet map (candidate + j) = false

def setRun (map : Nat -> Byte) (start sectors : Nat) : Nat -> Byte :=
  (List.range sectors).foldl (fun map k => w.bmSet map (start + k)) map

/-- The blocks of the file, and whether they are its old ones, with the writes of the bitmap. -/
structure Room where
  start : Nat
  reused : Bool
  writes : List (Write Byte)

/-- The search for blocks; nothing for `DSFS_ERR_FULL`. -/
def room (disk : Disk) (old : Old) (sectors : Nat) : Option Room :=
  if sectors = 0 then some { start := 0, reused := false, writes := [] }
  else if old.blocks ≠ 0 ∧ sectors ≤ old.blocks then some { start := old.start, reused := true, writes := [] }
  else if sectors > w.total - w.dataStart then none
  else
    ((List.range' w.dataStart (w.total - sectors + 1 - w.dataStart)).find? (w.freeRun (w.bitmapLoad disk) sectors)).map fun start =>
      { start := start, reused := false, writes := w.bitmapSave (w.setRun (w.bitmapLoad disk) start sectors) }

/-- The file with its padding. -/
def padded (src : Nat -> Byte) (bytes : Nat) : Nat -> Byte := fun k => if k < bytes then src k else 0

/-- The byte of a field that `dsfs_write_be32` writes. -/
def be32Byte (value k : Nat) : Byte := (BitVec.ofNat 32 value >>> (8 * (3 - k))).setWidth 8

/-- The new entry. -/
def newEntry (name : Nat -> Byte) (start bytes created time : Nat) : Nat -> Byte := fun i =>
  if i = 0 then 1
  else if i < 1 + nameBytes then name (i - 1)
  else if i < 16 then 0
  else if i < 20 then be32Byte start (i - 16)
  else if i < 24 then be32Byte bytes (i - 20)
  else if i < 28 then be32Byte created (i - 24)
  else be32Byte time (i - 28)

/-- The directory with an entry replaced. -/
def setEntry (dir : Nat -> Byte) (index : Nat) (e : Nat -> Byte) : Nat -> Byte := fun a =>
  if index * entrySize ≤ a ∧ a < index * entrySize + entrySize then e (a - index * entrySize) else dir a

/-- The blocks of a replaced file that it keeps. -/
def kept (start sectors block : Nat) : Bool := sectors ≠ 0 ∧ start ≤ block ∧ block - start < sectors

/-- The release of the blocks that a file does not keep. -/
def clearRun (map : Nat -> Byte) (oldStart oldBlocks start sectors : Nat) : Nat -> Byte :=
  (List.range oldBlocks).foldl (fun map k =>
    if kept start sectors ((oldStart + k) % 2 ^ 32) then map else w.bmClear map ((oldStart + k) % 2 ^ 32)) map

/-- The writes of `dsfs_write_file` up to its entry. -/
def entryWrites (dir : Nat -> Byte) (index : Nat) (old : Old) (room : Room) (name src : Nat -> Byte) (bytes time : Nat) :
    List (Write Byte) :=
  room.writes ++ (if bytes ≠ 0 then run sectorSize room.start (blocksOf bytes) (padded src bytes) else []) ++
    w.dirSaveSector (setEntry dir index (newEntry name room.start bytes (if old.existed then old.created else time) time)) index

/-- The writes of `dsfs_write_file` behind its entry. -/
def releaseWrites (disk : Disk) (old : Old) (room : Room) (bytes : Nat) : List (Write Byte) :=
  if old.blocks ≠ 0 ∧ (room.reused = false ∨ blocksOf bytes < old.blocks) then
    w.bitmapSave (w.clearRun (w.bitmapLoad disk) old.start old.blocks room.start (blocksOf bytes))
  else []

/-- `dsfs_write_file`: the code and the writes.  No source stands for `NULL`. -/
def writeFile (disk : Disk) (name src : Option (Nat -> Byte)) (size : Word) (time : Word) : Code × List (Write Byte) :=
  match name with
  | none => (.args, [])
  | some file =>
    if w.mounted = false ∨ nameValid name = false ∨ size ≠ 0 ∧ src = none then (.args, [])
    else if blocksOf size.toNat ≥ 8388608 then (.args, [])
    else
      let dir := w.dirLoad disk
      match (find dir file).or (findFree dir) with
      | none => (.full, [])
      | some index =>
        let old := old dir (find dir file).isSome index time.toNat
        match w.room disk old (blocksOf size.toNat) with
        | none => (.full, [])
        | some room =>
          let first := w.entryWrites dir index old room file (src.getD fun _ => 0) size.toNat time.toNat
          (.ok, first ++ w.releaseWrites (after sectorSize disk first) old room size.toNat)

/-- `dsfs_delete_file`. -/
def deleteFile (disk : Disk) (name : Option (Nat -> Byte)) : Code × List (Write Byte) :=
  match name with
  | none => (.args, [])
  | some file =>
    if w.mounted = false then (.io, [])
    else
      let dir := w.dirLoad disk
      match find dir file with
      | none => (.notFound, [])
      | some index =>
        let start := be32 (entry dir index) 16
        let blocks := blocksOf (be32 (entry dir index) 20)
        let first := w.dirSaveSector (setEntry dir index fun _ => 0) index
        (.ok, first ++
          if blocks = 0 then []
          else w.bitmapSave (w.clearRun (w.bitmapLoad (after sectorSize disk first)) start blocks 0 0))

end Writer

/-! ## Runs -/

/-- A call of the writer, with the time that was set before it. -/
inductive Call where
  | write (name src : Option (Nat -> Byte)) (size time : Word)
  | delete (name : Option (Nat -> Byte))

def Writer.call (w : Writer) (disk : Disk) : Call -> Code × List (Write Byte)
  | .write name src size time => w.writeFile disk name src size time
  | .delete name => w.deleteFile disk name

end Src32.Fs.Dsfs
