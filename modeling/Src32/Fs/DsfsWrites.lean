import Src32.Fs.DsfsTables

namespace Src32.Fs.Dsfs

open SectorWrites

/-!
# Sectors that the writer writes

What the tables of a volume are after some sectors of the bitmap, of a file or of the
directory are written, with the geometry that the writer has from its mount.
-/

variable {sectors total : Nat} {disk after_ : Disk} {w : Writer}

/-- The writer is mounted on a volume of so many blocks. -/
structure Attached (total : Nat) (w : Writer) : Prop where
  mounted : w.mounted = true
  size : w.total = total
  bitmapFirst : w.bitmapStart = 2
  bitmapSize : w.bitmapBlocks = bitmapBlocks total
  dirFirst : w.dirStart = dirStart total
  dataFirst : w.dataStart = dataStart total

/-- The writer mounts what Foundation mounts. -/
theorem Good.attach (good : Good sectors total disk) : (attach disk).1 = .ok ∧ Attached total (attach disk).2 := by
  obtain ⟨_, _, small⟩ := good.bounds
  obtain ⟨_, _, magic, version, reserved, start, blocks, dir, dirs, data, low, _, _⟩ := good.header
  have size : be32 (superblock disk) 8 = total := good.size
  rw [good.size] at blocks dir data low
  have few : bitmapBlocks total ≤ 2 ^ 20 := by
    unfold bitmapBlocks
    omega
  have counted : bitmapBlocks total = total / 4096 + if total % 4096 ≠ 0 then 1 else 0 := by
    unfold bitmapBlocks
    split
    · omega
    · omega
  unfold Dsfs.attach
  dsimp only
  rw [if_neg (not_not.mpr magic), if_neg (not_or.mpr ⟨not_not.mpr version, not_not.mpr reserved⟩), size, start, blocks, dir, dirs, data]
  have tests : ¬ ((2 : Nat) ≠ 2 ∨ bitmapBlocks total ≠ total / 4096 + (if total % 4096 ≠ 0 then 1 else 0) ∨
      dirStart total ≠ (2 + bitmapBlocks total) % 2 ^ 32 ∨ 16 ≠ dirBlocks ∨
      dataStart total ≠ (dirStart total + dirBlocks) % 2 ^ 32 ∨ dataStart total > total) := by
    rw [← counted]
    unfold dataStart dirStart dirBlocks at *
    omega
  rw [if_neg tests]
  exact ⟨rfl, rfl, rfl, rfl, rfl, rfl, rfl⟩

theorem Attached.dirLoad (attached : Attached total w) (disk : Disk) : w.dirLoad disk = directory total disk := by
  unfold Writer.dirLoad directory
  rw [attached.dirFirst]

theorem Attached.bitmapLoad (attached : Attached total w) (disk : Disk) : w.bitmapLoad disk = bitmap disk := by
  unfold Writer.bitmapLoad bitmap
  rw [attached.bitmapFirst]

/-! ## Sectors of the bitmap -/

/-- The disk after the first sectors of a bitmap. -/
theorem Attached.bitmapSave_take (attached : Attached total w) (map : Nat -> Byte) (n : Nat) :
    (w.bitmapSave map).take n = run sectorSize 2 (min n (bitmapBlocks total)) map := by
  unfold Writer.bitmapSave
  rw [take_run, attached.bitmapFirst, attached.bitmapSize]

theorem Attached.bitmapSave_eq (attached : Attached total w) (map : Nat -> Byte) :
    w.bitmapSave map = run sectorSize 2 (bitmapBlocks total) map := by
  unfold Writer.bitmapSave
  rw [attached.bitmapFirst, attached.bitmapSize]

theorem after_bitmap (disk : Disk) (map : Nat -> Byte) (n a : Nat) : after sectorSize disk (run sectorSize 2 n map) a =
    if 1024 ≤ a ∧ a < 1024 + n * 512 then map (a - 1024) else disk a := by
  rw [after_run (by decide)]
  have stop : (2 + n) * sectorSize = 1024 + n * 512 := Nat.add_mul 2 n 512
  rw [stop]
  rfl

theorem after_bitmap_header (map : Nat -> Byte) (n : Nat) : SameHeader disk (after sectorSize disk (run sectorSize 2 n map)) := by
  intro a inside
  rw [after_bitmap, if_neg (by omega)]

theorem after_bitmap_behind (map : Nat -> Byte) {n a : Nat} (few : n ≤ bitmapBlocks total) (beyond : dirStart total * 512 ≤ a) :
    after sectorSize disk (run sectorSize 2 n map) a = disk a := by
  unfold dirStart at beyond
  rw [after_bitmap, if_neg (by omega)]

theorem after_bitmap_dir (map : Nat -> Byte) {n : Nat} (few : n ≤ bitmapBlocks total) :
    SameDir total disk (after sectorSize disk (run sectorSize 2 n map)) := by
  intro i _ j _
  unfold entryOf entry directory behind
  rw [after_bitmap_behind map few (Nat.le_add_right _ _)]

theorem after_bitmap_bits (map : Nat -> Byte) (n b : Nat) : bitGet (bitmap (after sectorSize disk (run sectorSize 2 n map))) b =
    if b < n * 4096 then bitGet map b else bitGet (bitmap disk) b := by
  rw [bitGet_eq, bitGet_eq, bitGet_eq]
  unfold bitmap behind
  rw [after_bitmap]
  by_cases inside : b < n * 4096
  · have place : 2 * 512 + b / 8 - 1024 = b / 8 := by omega
    rw [if_pos inside, if_pos (by omega), place]
  · rw [if_neg inside, if_neg (by omega)]

/-! ## Sectors of a file -/

/-- The tables are the same where the bytes before the data are. -/
theorem same_tables (same : ∀ a < dataStart total * 512, after_ a = disk a) : SameHeader disk after_ ∧ SameDir total disk after_ ∧
    ∀ b < bitmapBlocks total * 4096, bitGet (bitmap after_) b = bitGet (bitmap disk) b := by
  unfold dataStart dirStart at same
  refine ⟨fun a inside => same a (by omega), fun i inside j small => ?_, fun b inside => ?_⟩
  · unfold entryOf entry directory behind dirStart entrySize
    unfold entries at inside
    exact (same _ (by omega)).symm
  · rw [bitGet_eq, bitGet_eq]
    unfold bitmap behind
    rw [same _ (by omega)]

theorem after_file (disk : Disk) (start n : Nat) (buffer : Nat -> Byte) (a : Nat) : after sectorSize disk (run sectorSize start n buffer) a =
    if start ≤ a / 512 ∧ a / 512 < start + n then buffer (a - start * 512) else disk a := by
  rw [after_run (by decide)]
  refine if_congr ?_ rfl rfl
  unfold sectorSize
  omega

/-! ## The sector of an entry -/

/-- The write of an entry of the directory. -/
theorem Attached.dirSaveSector_eq (attached : Attached total w) (dir : Nat -> Byte) (index : Nat) :
    w.dirSaveSector dir index = run sectorSize (dirStart total + index / 16) 1 (behind dir (index / 16 * sectorSize)) := by
  unfold Writer.dirSaveSector
  rw [attached.dirFirst]

/-- The disk after an entry is written. -/
def entered (total : Nat) (disk : Disk) (index : Nat) (e : Nat -> Byte) : Disk :=
  after sectorSize disk (run sectorSize (dirStart total + index / 16) 1
    (behind (Writer.setEntry (directory total disk) index e) (index / 16 * sectorSize)))

/-- The sector of an entry. -/
theorem entry_sector {d index a : Nat} (low : d * 512 + index * 32 ≤ a) (high : a < d * 512 + index * 32 + 32) :
    (d + index / 16) * 512 ≤ a ∧ a < (d + index / 16 + 1) * 512 := by
  have split := Nat.div_add_mod index 16
  have small := Nat.mod_lt index (show 0 < 16 by decide)
  rw [Nat.add_mul, Nat.add_mul, Nat.add_mul]
  omega

theorem entered_apply (index : Nat) (e : Nat -> Byte) (a : Nat) : entered total disk index e a =
    if dirStart total * 512 + index * 32 ≤ a ∧ a < dirStart total * 512 + index * 32 + 32 then e (a - (dirStart total * 512 + index * 32))
    else disk a := by
  unfold entered
  rw [after_run (by decide)]
  unfold sectorSize behind Writer.setEntry entrySize directory behind
  by_cases sector : (dirStart total + index / 16) * 512 ≤ a ∧ a < (dirStart total + index / 16 + 1) * 512
  · rw [if_pos sector]
    by_cases here : dirStart total * 512 + index * 32 ≤ a ∧ a < dirStart total * 512 + index * 32 + 32
    · have place : index / 16 * 512 + (a - (dirStart total + index / 16) * 512) - index * 32 =
          a - (dirStart total * 512 + index * 32) := by omega
      have within : index * 32 ≤ index / 16 * 512 + (a - (dirStart total + index / 16) * 512) ∧
          index / 16 * 512 + (a - (dirStart total + index / 16) * 512) < index * 32 + 32 := by omega
      rw [if_pos here, if_pos within, place]
    · have place : dirStart total * 512 + (index / 16 * 512 + (a - (dirStart total + index / 16) * 512)) = a := by omega
      have without : ¬ (index * 32 ≤ index / 16 * 512 + (a - (dirStart total + index / 16) * 512) ∧
          index / 16 * 512 + (a - (dirStart total + index / 16) * 512) < index * 32 + 32) := by omega
      rw [if_neg here, if_neg without, place]
  · have outside : ¬ (dirStart total * 512 + index * 32 ≤ a ∧ a < dirStart total * 512 + index * 32 + 32) := by
      rintro ⟨low, high⟩
      exact sector (entry_sector low high)
    rw [if_neg sector, if_neg outside]

theorem entered_header (index : Nat) (e : Nat -> Byte) : SameHeader disk (entered total disk index e) := by
  intro a inside
  rw [entered_apply, if_neg]
  unfold dirStart
  omega

theorem entered_bits (index : Nat) (e : Nat -> Byte) {b : Nat} (inside : b < bitmapBlocks total * 4096) :
    bitGet (bitmap (entered total disk index e)) b = bitGet (bitmap disk) b := by
  rw [bitGet_eq, bitGet_eq]
  unfold bitmap behind
  rw [entered_apply, if_neg]
  unfold dirStart
  omega

theorem entered_data {index : Nat} (inside : index < entries) (e : Nat -> Byte) {a : Nat} (beyond : dataStart total * 512 ≤ a) :
    entered total disk index e a = disk a := by
  unfold entries at inside
  unfold dataStart at beyond
  rw [entered_apply, if_neg (by omega)]

theorem entered_self (index : Nat) (e : Nat -> Byte) : Agree e (entryOf total (entered total disk index e) index) := by
  intro j small
  unfold entryOf entry directory behind entrySize
  rw [entered_apply, if_pos (by omega)]
  congr 1
  omega

theorem entered_other {index i : Nat} (e : Nat -> Byte) (differs : i ≠ index) :
    Agree (entryOf total disk i) (entryOf total (entered total disk index e) i) := by
  intro j small
  unfold entryOf entry directory behind entrySize
  rw [entered_apply, if_neg (by omega)]

/-! ## New entries -/

theorem be32Byte_eq (value : Word) : Writer.be32Byte value.toNat 0 = (value >>> 24).setWidth 8 ∧
    Writer.be32Byte value.toNat 1 = (value >>> 16).setWidth 8 ∧ Writer.be32Byte value.toNat 2 = (value >>> 8).setWidth 8 ∧
    Writer.be32Byte value.toNat 3 = value.setWidth 8 := by
  unfold Writer.be32Byte
  rw [BitVec.ofNat_toNat, BitVec.setWidth_eq]
  exact ⟨rfl, rfl, rfl, congrArg (BitVec.setWidth 8) (BitVec.ushiftRight_zero value)⟩

/-- A field that `dsfs_write_be32` wrote. -/
theorem be32_written {p : Nat -> Byte} {o value : Nat} (small : value < 2 ^ 32)
    (written : ∀ k < 4, p (o + k) = Writer.be32Byte value k) : be32 p o = value := by
  obtain ⟨first, second, third, fourth⟩ := be32Byte_eq (BitVec.ofNat 32 value)
  rw [BitVec.toNat_ofNat, Nat.mod_eq_of_lt small] at first second third fourth
  have zero : p o = Writer.be32Byte value 0 := written 0 (by decide)
  unfold be32
  rw [zero, written 1 (by decide), written 2 (by decide), written 3 (by decide), first, second, third, fourth,
    Word.ofBytes_bytes, BitVec.toNat_ofNat, Nat.mod_eq_of_lt small]

variable {name : Nat -> Byte} {start bytes created time : Nat}

theorem newEntry_start (small : start < 2 ^ 32) : entryStart (Writer.newEntry name start bytes created time) = start := by
  refine be32_written small fun k inside => ?_
  unfold Writer.newEntry nameBytes
  rw [if_neg (by omega), if_neg (by omega), if_neg (by omega), if_pos (by omega), Nat.add_sub_cancel_left]

theorem newEntry_bytes (small : bytes < 2 ^ 32) : entryBytes (Writer.newEntry name start bytes created time) = bytes := by
  refine be32_written small fun k inside => ?_
  unfold Writer.newEntry nameBytes
  rw [if_neg (by omega), if_neg (by omega), if_neg (by omega), if_neg (by omega), if_pos (by omega), Nat.add_sub_cancel_left]

theorem newEntry_blocks (small : bytes < 2 ^ 32) : entryBlocks (Writer.newEntry name start bytes created time) = blocksOf bytes :=
  congrArg blocksOf (newEntry_bytes small)

theorem newEntry_name {i : Nat} (inside : i < nameBytes) : Writer.newEntry name start bytes created time (1 + i) = name i := by
  unfold Writer.newEntry
  rw [if_neg (by omega), if_pos (by omega), Nat.add_sub_cancel_left]


end Src32.Fs.Dsfs
