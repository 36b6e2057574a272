import Src32.Fs.Dsfs

namespace Src32.Fs.Dsfs

/-!
# Bits and fields of a volume

What the two programs do to single bits of the bitmap and to the bytes of an entry.
-/

/-! ## Bits -/

theorem bitGet_eq (map : Nat -> Byte) (i : Nat) : bitGet map i = (map (i / 8)).getLsbD (7 - i % 8) := by
  have shifted : (map (i / 8) >>> (7 - i % 8)).getLsbD 0 = (map (i / 8)).getLsbD (7 - i % 8) := by
    rw [BitVec.getLsbD_ushiftRight, Nat.add_zero]
  unfold bitGet
  rw [BitVec.and_one_eq_setWidth_ofBool_getLsbD, shifted]
  cases (map (i / 8)).getLsbD (7 - i % 8) with
  | true => decide
  | false => decide

theorem mask_eq (block : Nat) : Writer.mask block = BitVec.twoPow 8 (7 - block % 8) := by
  have all : ∀ k < 8, 0x80#8 >>> k = BitVec.twoPow 8 (7 - k) := by decide
  exact all _ (Nat.mod_lt block (by decide))

/-- The two programs read a bit alike. -/
theorem bmGet_eq (w : Writer) (map : Nat -> Byte) (block : Nat) :
    w.bmGet map block = decide (block < w.total ∧ bitGet map block = true) := by
  have tested : (map (block / 8) &&& Writer.mask block ≠ 0#8) ↔ (map (block / 8)).getLsbD (7 - block % 8) = true := by
    rw [mask_eq, BitVec.and_twoPow]
    cases (map (block / 8)).getLsbD (7 - block % 8) with
    | true =>
      rw [if_pos rfl]
      have all : ∀ k < 8, BitVec.twoPow 8 (7 - k) ≠ 0#8 := by decide
      exact iff_of_true (all _ (Nat.mod_lt block (by decide))) rfl
    | false =>
      rw [if_neg Bool.false_ne_true]
      exact iff_of_false (fun differs => differs rfl) Bool.false_ne_true
  unfold Writer.bmGet
  rw [bitGet_eq]
  exact decide_eq_decide.mpr (and_congr_right fun _ => tested)

variable {b a e map : Nat -> Byte} {i total o : Nat}

/-- The place of a bit. -/
theorem same_bit {block : Nat} (byte : i / 8 = block / 8) : 7 - i % 8 = 7 - block % 8 ↔ i = block := by
  omega

theorem bitGet_bmSet (w : Writer) (map : Nat -> Byte) (block i : Nat) :
    bitGet (w.bmSet map block) i = (decide (i = block ∧ block < w.total) || bitGet map i) := by
  unfold Writer.bmSet
  by_cases outside : block ≥ w.total
  · rw [if_pos outside, decide_eq_false (fun both => absurd both.2 (Nat.not_lt.mpr outside)), Bool.false_or]
  · rw [if_neg outside, bitGet_eq, bitGet_eq]
    by_cases byte : i / 8 = block / 8
    · rw [byte, Function.update_self, BitVec.getLsbD_or, mask_eq, BitVec.getLsbD_twoPow, Bool.or_comm]
      congr 1
      have small : 7 - block % 8 < 8 := by omega
      rw [decide_eq_true small, Bool.true_and]
      refine decide_eq_decide.mpr ?_
      rw [eq_comm, same_bit byte, and_iff_left (Nat.not_le.mp outside)]
    · rw [Function.update_of_ne byte, decide_eq_false, Bool.false_or]
      rintro ⟨rfl, _⟩
      exact byte rfl

theorem bitGet_bmClear (w : Writer) (map : Nat -> Byte) (block i : Nat) :
    bitGet (w.bmClear map block) i = (bitGet map i && !decide (i = block ∧ block < w.total)) := by
  unfold Writer.bmClear
  by_cases outside : block ≥ w.total
  · rw [if_pos outside, decide_eq_false (fun both => absurd both.2 (Nat.not_lt.mpr outside)), Bool.not_false, Bool.and_true]
  · rw [if_neg outside, bitGet_eq, bitGet_eq]
    by_cases byte : i / 8 = block / 8
    · have inside : 7 - i % 8 < 8 := by omega
      have small : 7 - block % 8 < 8 := by omega
      rw [byte, Function.update_self, BitVec.getLsbD_and, BitVec.getLsbD_not, mask_eq, BitVec.getLsbD_twoPow,
        decide_eq_true inside, decide_eq_true small, Bool.true_and, Bool.true_and]
      congr 2
      refine decide_eq_decide.mpr ?_
      rw [eq_comm, same_bit byte, and_iff_left (Nat.not_le.mp outside)]
    · rw [Function.update_of_ne byte, decide_eq_false, Bool.not_false, Bool.and_true]
      rintro ⟨rfl, _⟩
      exact byte rfl

/-- The bits of a run are set. -/
theorem bitGet_setRun (w : Writer) (map : Nat -> Byte) (start sectors i : Nat) :
    bitGet (w.setRun map start sectors) i = true ↔
      (start ≤ i ∧ i < start + sectors ∧ i < w.total) ∨ bitGet map i = true := by
  unfold Writer.setRun
  induction sectors with
  | zero =>
    show bitGet map i = true ↔ _
    rw [or_iff_right (fun inside => absurd inside.2.1 (Nat.not_lt.mpr inside.1))]
  | succ sectors ih =>
    rw [List.range_succ, List.foldl_append]
    show bitGet (w.bmSet _ (start + sectors)) i = true ↔ _
    rw [bitGet_bmSet, Bool.or_eq_true, decide_eq_true_eq, ih]
    by_cases set : bitGet map i = true
    · rw [or_iff_right_of_imp (fun _ => .inr set)]
      exact iff_of_true (.inr set) (.inr set)
    · rw [or_iff_left set, or_iff_left set]
      omega

/-- The bits of a run that are not kept are cleared. -/
theorem bitGet_clearRun (w : Writer) (map : Nat -> Byte) {oldStart oldBlocks : Nat} (start sectors i : Nat)
    (inside : oldStart + oldBlocks ≤ w.total) (small : w.total < 2 ^ 32) :
    bitGet (w.clearRun map oldStart oldBlocks start sectors) i = true ↔
      bitGet map i = true ∧ ¬ (oldStart ≤ i ∧ i < oldStart + oldBlocks ∧ Writer.kept start sectors i = false) := by
  unfold Writer.clearRun
  induction oldBlocks with
  | zero =>
    show bitGet map i = true ↔ _
    rw [and_iff_left (fun within => absurd within.2.1 (Nat.not_lt.mpr within.1))]
  | succ oldBlocks ih =>
    have before := ih (by omega)
    rw [List.range_succ, List.foldl_append]
    show bitGet (if Writer.kept start sectors ((oldStart + oldBlocks) % 2 ^ 32) then _ else
      w.bmClear _ ((oldStart + oldBlocks) % 2 ^ 32)) i = true ↔ _
    rw [Nat.mod_eq_of_lt (show oldStart + oldBlocks < 2 ^ 32 by omega)]
    by_cases keeps : Writer.kept start sectors (oldStart + oldBlocks) = true
    · rw [if_pos keeps, before]
      refine and_congr_right fun _ => not_congr ?_
      constructor
      · rintro ⟨low, high, gone⟩
        exact ⟨low, by omega, gone⟩
      · rintro ⟨low, high, gone⟩
        refine ⟨low, Nat.lt_of_le_of_ne (by omega) fun same => ?_, gone⟩
        rw [same, keeps] at gone
        cases gone
    · rw [if_neg keeps, bitGet_bmClear, Bool.and_eq_true, before, Bool.not_eq_true', decide_eq_false_iff_not, and_assoc]
      refine and_congr_right fun _ => ⟨?_, fun out => ⟨fun within => ?_, fun last => ?_⟩⟩
      · rintro ⟨out, other⟩ ⟨low, high, gone⟩
        by_cases last : i = oldStart + oldBlocks
        · exact other ⟨last, by omega⟩
        · exact out ⟨low, by omega, gone⟩
      · exact out ⟨within.1, by omega, within.2.2⟩
      · refine out ⟨by omega, by omega, ?_⟩
        rw [last.1]
        exact Bool.not_eq_true _ ▸ keeps

/-! ## Entries -/

/-- Entries with the same bytes. -/
def Agree (a b : Nat -> Byte) : Prop := ∀ i < 32, a i = b i

theorem Agree.symm (agree : Agree a b) : Agree b a := fun i inside => (agree i inside).symm

theorem Agree.trans_ {c : Nat -> Byte} (first : Agree a b) (second : Agree b c) : Agree a c :=
  fun i inside => (first i inside).trans (second i inside)

theorem Agree.be32 (agree : Agree a b) (inside : o + 3 < 32) : be32 a o = be32 b o := by
  unfold Dsfs.be32
  rw [agree o (by omega), agree (o + 1) (by omega), agree (o + 2) (by omega), agree (o + 3) inside]

theorem Agree.start (agree : Agree a b) : entryStart a = entryStart b := agree.be32 (by decide)

theorem Agree.bytes (agree : Agree a b) : entryBytes a = entryBytes b := agree.be32 (by decide)

theorem Agree.blocks (agree : Agree a b) : entryBlocks a = entryBlocks b := congrArg blocksOf agree.bytes

theorem Agree.field (agree : Agree a b) {n : Nat} (inside : o + n ≤ 32) :
    field (behind a o) n = field (behind b o) n :=
  List.map_congr_left fun i member => agree (o + i) (by
    have small := List.mem_range.mp member
    omega)

theorem Agree.allZero (agree : Agree a b) (zero : AllZero a 32) : AllZero b 32 :=
  fun i inside => (agree i inside).symm.trans (zero i inside)

theorem Agree.sameName {c d : Nat -> Byte} (first : Agree a b) (second : Agree c d) (same : SameName a c) :
    SameName b d :=
  fun i inside => ((first (1 + i) (by omega)).symm.trans (same i inside)).trans (second (1 + i) (by omega))

/-- The blocks of an entry. -/
def InFile (e : Nat -> Byte) (block : Nat) : Prop := entryStart e ≤ block ∧ block < entryStart e + entryBlocks e

theorem Agree.inFile (agree : Agree a b) {block : Nat} (inside : InFile a block) : InFile b block := by
  unfold InFile at *
  rw [← agree.start, ← agree.blocks]
  exact inside

/-- The tests of an entry use its bytes and the bits of its blocks. -/
theorem UsedOk.congr {map' e' : Nat -> Byte} (ok : UsedOk total map e) (agree : Agree e e')
    (bits : ∀ b, InFile e b -> bitGet map b = true -> bitGet map' b = true) : UsedOk total map' e' := by
  obtain ⟨used, zero, name, extension, place, marked⟩ := ok
  refine ⟨(agree 0 (by decide)).symm.trans used, fun i inside => ?_, ?_, ?_, ?_, fun k inside => ?_⟩
  · exact (agree (0x0C + i) (by omega)).symm.trans (zero i inside)
  · rw [← agree.field (by decide)]
    exact name
  · rw [← agree.field (by decide)]
    exact extension
  · rw [← agree.start, ← agree.bytes, ← agree.blocks]
    exact place
  · rw [← agree.blocks] at inside
    rw [← agree.start]
    exact bits _ ⟨Nat.le_add_right .., Nat.add_lt_add_left inside _⟩ (marked k inside)

theorem UsedOk.bit (ok : UsedOk total map e) {b : Nat} (inside : InFile e b) :
    bitGet map b = true := by
  have marked := ok.2.2.2.2.2 (b - entryStart e) (by have := inside.1; have := inside.2; omega)
  rwa [Nat.add_sub_cancel' inside.1] at marked

theorem blocksOf_zero {size : Nat} : blocksOf size = 0 ↔ size = 0 := by
  unfold blocksOf
  split
  · omega
  · omega

theorem le_blocksOf (size : Nat) : size ≤ blocksOf size * 512 := by
  unfold blocksOf
  split
  · omega
  · omega

theorem UsedOk.inside (ok : UsedOk total map e) (some_ : entryBlocks e ≠ 0) :
    dataStart total ≤ entryStart e ∧ entryStart e + entryBlocks e ≤ total := by
  have place := ok.2.2.2.2.1
  rwa [if_neg (fun zero => some_ (blocksOf_zero.mpr zero))] at place

theorem InFile.some_blocks {b : Nat} (inside : InFile e b) : entryBlocks e ≠ 0 := by
  have low := inside.1
  have high := inside.2
  omega

/-- Entries overlap in a block. -/
theorem overlap_iff (a b : Nat -> Byte) : Overlap a b ↔ ∃ block, InFile a block ∧ InFile b block := by
  unfold Overlap InFile
  constructor
  · rintro ⟨first, second, left, right⟩
    refine ⟨max (entryStart a) (entryStart b), ?_⟩
    omega
  · rintro ⟨block, first, second⟩
    omega

/-!
## Volumes that mount

The tests of `dsfs_mount` as facts about the entries together, and the changes of a disk
that keep them.
-/

variable {sectors total : Nat} {disk after_ : Disk}

/-- The bytes of an entry on a disk. -/
def entryOf (total : Nat) (disk : Disk) (i : Nat) : Nat -> Byte := entry (directory total disk) i

def Used (total : Nat) (disk : Disk) (i : Nat) : Prop := entryOf total disk i 0 = 1#8

/-- A volume that mounts. -/
structure Good (sectors total : Nat) (disk : Disk) : Prop where
  header : HeaderOk sectors disk
  size : totalBlocks disk = total
  low : ∀ b < dataStart total, bitGet (bitmap disk) b = true
  high : ∀ b < bitmapBlocks total * 4096 % 2 ^ 32, total ≤ b -> bitGet (bitmap disk) b = false
  kinds : ∀ i < entries, AllZero (entryOf total disk i) 32 ∨ UsedOk total (bitmap disk) (entryOf total disk i)
  names : ∀ i < entries, ∀ k < entries, i ≠ k -> Used total disk i -> Used total disk k ->
    ¬ SameName (entryOf total disk i) (entryOf total disk k)
  apart : ∀ i < entries, ∀ k < entries, i ≠ k -> Used total disk i -> Used total disk k ->
    ∀ b, InFile (entryOf total disk i) b -> ¬ InFile (entryOf total disk k) b

theorem AllZero.unused (zero : AllZero (entryOf total disk i) 32) : ¬ Used total disk i := by
  intro used
  exact absurd ((zero 0 (by decide)).symm.trans used) (by decide)

theorem Good.usedOk (good : Good sectors total disk) (inside : i < entries) (used : Used total disk i) :
    UsedOk total (bitmap disk) (entryOf total disk i) :=
  (good.kinds i inside).resolve_left fun zero => zero.unused used

theorem Good.in_data (good : Good sectors total disk) {b : Nat} (inside : i < entries) (used : Used total disk i)
    (within : InFile (entryOf total disk i) b) : dataStart total ≤ b ∧ b < total := by
  obtain ⟨low, high⟩ := (good.usedOk inside used).inside within.some_blocks
  exact ⟨Nat.le_trans low within.1, Nat.lt_of_lt_of_le within.2 high⟩

theorem Good.bounds (good : Good sectors total disk) : dataStart total ≤ total ∧ total ≤ sectors ∧ total < 2 ^ 32 := by
  obtain ⟨_, _, _, _, _, _, _, _, _, _, low, high, _⟩ := good.header
  rw [good.size] at low high
  refine ⟨low, high, ?_⟩
  rw [← good.size]
  exact BitVec.isLt _

theorem block_lt {b : Nat} (inside : b < total) : b < bitmapBlocks total * 4096 := by
  unfold bitmapBlocks
  omega

/-- The tests of the entries in turn are tests of all pairs. -/
theorem entriesOk_iff (map : Nat -> Byte) : (∀ i < entries, EntryOk total map (directory total disk) i) ↔
    (∀ i < entries, AllZero (entryOf total disk i) 32 ∨ UsedOk total map (entryOf total disk i)) ∧
      (∀ i < entries, ∀ k < entries, i ≠ k -> Used total disk i -> Used total disk k ->
        ¬ SameName (entryOf total disk i) (entryOf total disk k)) ∧
      ∀ i < entries, ∀ k < entries, i ≠ k -> Used total disk i -> Used total disk k ->
        ∀ b, InFile (entryOf total disk i) b -> ¬ InFile (entryOf total disk k) b := by
  have one : (1#8 : Byte) ≠ 0 := by decide
  constructor
  · intro ok
    have pairs : ∀ i < entries, ∀ k < i, Used total disk i -> Used total disk k ->
        ¬ SameName (entryOf total disk k) (entryOf total disk i) ∧ ¬ Overlap (entryOf total disk i) (entryOf total disk k) := by
      intro i inside k before used other
      have tests := ok i inside
      unfold EntryOk at tests
      rw [if_neg (fun (zero : entry (directory total disk) i 0 = 0) => one (used.symm.trans zero))] at tests
      exact tests.2 k before other
    refine ⟨fun i inside => ?_, fun i inside k within differs used other same => ?_, fun i inside k within differs used other b left right => ?_⟩
    · have tests := ok i inside
      unfold EntryOk at tests
      split at tests
      · exact .inl tests
      · exact .inr tests.1
    · rcases Nat.lt_or_gt_of_ne differs with before | before
      · exact (pairs k within i before other used).1 same
      · exact (pairs i inside k before used other).1 fun j small => (same j small).symm
    · rcases Nat.lt_or_gt_of_ne differs with before | before
      · exact (pairs k within i before other used).2 ((overlap_iff _ _).mpr ⟨b, right, left⟩)
      · exact (pairs i inside k before used other).2 ((overlap_iff _ _).mpr ⟨b, left, right⟩)
  · rintro ⟨kinds, names, apart⟩ i inside
    unfold EntryOk
    rcases kinds i inside with zero | ok
    · rw [if_pos (show entry (directory total disk) i 0 = 0 from zero 0 (by decide))]
      exact zero
    · have used : Used total disk i := ok.1
      rw [if_neg (fun (zero : entry (directory total disk) i 0 = 0) => one (used.symm.trans zero))]
      refine ⟨ok, fun k before other => ⟨fun same => ?_, fun overlap => ?_⟩⟩
      · exact names k (Nat.lt_trans before inside) i inside (Nat.ne_of_lt before) other used same
      · obtain ⟨b, left, right⟩ := (overlap_iff _ _).mp overlap
        exact apart i inside k (Nat.lt_trans before inside) (Nat.ne_of_gt before) used other b left right

theorem mount_isSome : (mount sectors disk).isSome ↔ Good sectors (totalBlocks disk) disk := by
  unfold mount
  constructor
  · intro mounted
    dsimp only at mounted
    split at mounted
    · next tests =>
        obtain ⟨header, low, high, ok⟩ := tests
        obtain ⟨kinds, names, apart⟩ := (entriesOk_iff _).mp ok
        exact ⟨header, rfl, low, high, kinds, names, apart⟩
    · cases mounted
  · intro good
    dsimp only
    rw [if_pos ⟨good.header, good.low, good.high, (entriesOk_iff _).mpr ⟨good.kinds, good.names, good.apart⟩⟩]
    rfl

/-- What the reader has of a volume that mounts. -/
def volOf (total : Nat) (disk : Disk) : Vol :=
  { totalBlocks := total
    dataStart := dataStart total
    freeBlocks := ((List.range total).filter fun b => dataStart total ≤ b ∧ bitGet (bitmap disk) b = false).length
    dir := directory total disk }

theorem Good.mount_eq (good : Good sectors total disk) : mount sectors disk = some (volOf total disk) := by
  have size := good.size
  subst size
  unfold mount
  dsimp only
  rw [if_pos ⟨good.header, good.low, good.high, (entriesOk_iff _).mpr ⟨good.kinds, good.names, good.apart⟩⟩]
  rfl

/-! ## Changes -/

/-- The boot sector and the superblock are the same. -/
def SameHeader (disk after_ : Disk) : Prop := ∀ a < 1024, after_ a = disk a

theorem SameHeader.block (same : SameHeader disk after_) (inside : o + 3 < 512) :
    be32 (superblock after_) o = be32 (superblock disk) o := by
  unfold be32 superblock behind
  rw [same _ (by omega), same _ (by omega), same _ (by omega), same _ (by omega)]

theorem SameHeader.totals (same : SameHeader disk after_) : totalBlocks after_ = totalBlocks disk := same.block (by decide)

theorem SameHeader.header (same : SameHeader disk after_) (ok : HeaderOk sectors disk) : HeaderOk sectors after_ := by
  unfold HeaderOk at *
  obtain ⟨first, second, magic, version, reserved, start, blocks, dir, dirs, data, low, high, zero⟩ := ok
  have half : ∀ o, o + 1 < 512 -> be16 (superblock after_) o = be16 (superblock disk) o := by
    intro o inside
    unfold be16 superblock behind
    rw [same _ (by omega), same _ (by omega)]
  rw [same.totals, same _ (by decide), same _ (by decide), same.block (by decide), half 4 (by decide), half 6 (by decide),
    same.block (by decide), same.block (by decide), same.block (by decide), same.block (by decide), same.block (by decide)]
  refine ⟨first, second, magic, version, reserved, start, blocks, dir, dirs, data, low, high, fun i inside => ?_⟩
  exact (same _ (by omega)).trans (zero i inside)

/-- The directory is the same. -/
def SameDir (total : Nat) (disk after_ : Disk) : Prop := ∀ i < entries, Agree (entryOf total disk i) (entryOf total after_ i)

theorem SameDir.used (same : SameDir total disk after_) (inside : i < entries) :
    Used total after_ i ↔ Used total disk i := by
  unfold Used
  rw [same i inside 0 (by decide)]

/-- Bits of blocks that are in no file may change, and bytes outside the tables. -/
theorem Good.marks (good : Good sectors total disk) (header : SameHeader disk after_) (dir : SameDir total disk after_)
    (bits : ∀ b < bitmapBlocks total * 4096, bitGet (bitmap after_) b = bitGet (bitmap disk) b ∨
      dataStart total ≤ b ∧ b < total ∧ ∀ i < entries, Used total disk i -> ¬ InFile (entryOf total disk i) b) :
    Good sectors total after_ := by
  obtain ⟨first, second, _⟩ := good.bounds
  refine ⟨header.header good.header, header.totals.trans good.size, fun b inside => ?_, fun b inside beyond => ?_,
    fun i inside => ?_, fun i inside k within differs used other same => ?_, fun i inside k within differs used other b left right => ?_⟩
  · rcases bits b (block_lt (Nat.lt_of_lt_of_le inside first)) with same | ⟨free, _⟩
    · exact same.trans (good.low b inside)
    · exact absurd inside (Nat.not_lt.mpr free)
  · rcases bits b (Nat.lt_of_lt_of_le inside (Nat.mod_le _ _)) with same | ⟨_, free, _⟩
    · exact same.trans (good.high b inside beyond)
    · exact absurd free (Nat.not_lt.mpr beyond)
  · rcases good.kinds i inside with zero | ok
    · exact .inl ((dir i inside).allZero zero)
    · refine .inr (ok.congr (dir i inside) fun b within set => ?_)
      rcases bits b (block_lt (good.in_data inside ok.1 within).2) with same | ⟨_, _, free⟩
      · exact same.trans set
      · exact absurd within (free i inside ok.1)
  · exact good.names i inside k within differs ((dir.used inside).mp used) ((dir.used within).mp other)
      ((dir i inside).symm.sameName (dir k within).symm same)
  · exact good.apart i inside k within differs ((dir.used inside).mp used) ((dir.used within).mp other) b
      ((dir i inside).symm.inFile left) ((dir k within).symm.inFile right)

/-- One entry may change to a free one or to one that fits the others. -/
theorem Good.entered (good : Good sectors total disk) (header : SameHeader disk after_) {index : Nat}
    (dir : ∀ i < entries, i ≠ index -> Agree (entryOf total disk i) (entryOf total after_ i))
    (bits : ∀ b < bitmapBlocks total * 4096, bitGet (bitmap after_) b = bitGet (bitmap disk) b)
    (fits : AllZero (entryOf total after_ index) 32 ∨ UsedOk total (bitmap after_) (entryOf total after_ index) ∧
      ∀ i < entries, i ≠ index -> Used total disk i -> ¬ SameName (entryOf total disk i) (entryOf total after_ index) ∧
        ∀ b, InFile (entryOf total disk i) b -> ¬ InFile (entryOf total after_ index) b) :
    Good sectors total after_ := by
  obtain ⟨first, second, _⟩ := good.bounds
  have used_old : ∀ i < entries, i ≠ index -> Used total after_ i -> Used total disk i :=
    fun i inside differs used => (dir i inside differs 0 (by decide)).trans used
  have fits_used : Used total after_ index -> ∀ i < entries, i ≠ index -> Used total disk i ->
      ¬ SameName (entryOf total disk i) (entryOf total after_ index) ∧
        ∀ b, InFile (entryOf total disk i) b -> ¬ InFile (entryOf total after_ index) b := by
    intro used
    rcases fits with zero | ⟨_, fits⟩
    · exact absurd used zero.unused
    · exact fits
  refine ⟨header.header good.header, header.totals.trans good.size, fun b inside => ?_, fun b inside beyond => ?_,
    fun i inside => ?_, fun i inside k within differs used other same => ?_, fun i inside k within differs used other b left right => ?_⟩
  · exact (bits b (block_lt (Nat.lt_of_lt_of_le inside first))).trans (good.low b inside)
  · exact (bits b (Nat.lt_of_lt_of_le inside (Nat.mod_le _ _))).trans (good.high b inside beyond)
  · by_cases here : i = index
    · rw [here]
      exact fits.imp_right fun both => both.1
    · rcases good.kinds i inside with zero | ok
      · exact .inl ((dir i inside here).allZero zero)
      · refine .inr (ok.congr (dir i inside here) fun b within set => ?_)
        exact (bits b (block_lt (good.in_data inside ok.1 within).2)).trans set
  · by_cases here : i = index
    · subst here
      have old := used_old k within (Ne.symm differs) other
      refine (fits_used used k within (Ne.symm differs) old).1 fun j small => ?_
      exact (dir k within (Ne.symm differs) (1 + j) (by omega)).trans (same j small).symm
    by_cases there : k = index
    · subst there
      have old := used_old i inside here used
      refine (fits_used other i inside here old).1 fun j small => ?_
      exact (dir i inside here (1 + j) (by omega)).trans (same j small)
    · exact good.names i inside k within differs (used_old i inside here used) (used_old k within there other)
        ((dir i inside here).symm.sameName (dir k within there).symm same)
  · by_cases here : i = index
    · subst here
      have old := used_old k within (Ne.symm differs) other
      exact (fits_used used k within (Ne.symm differs) old).2 b ((dir k within (Ne.symm differs)).symm.inFile right) left
    by_cases there : k = index
    · subst there
      have old := used_old i inside here used
      exact (fits_used other i inside here old).2 b ((dir i inside here).symm.inFile left) right
    · exact good.apart i inside k within differs (used_old i inside here used) (used_old k within there other) b
        ((dir i inside here).symm.inFile left) ((dir k within there).symm.inFile right)

/-! ## Other files -/

/-- The files of other names keep their entries and their bytes. -/
def Intact (total : Nat) (name : Nat -> Byte) (disk after_ : Disk) : Prop :=
  ∀ i < entries, Used total disk i -> ¬ (∀ j < nameBytes, entryOf total disk i (1 + j) = name j) ->
    Agree (entryOf total disk i) (entryOf total after_ i) ∧ ∀ a, InFile (entryOf total disk i) (a / 512) -> after_ a = disk a

theorem Intact.refl (name : Nat -> Byte) (disk : Disk) : Intact total name disk disk :=
  fun _ _ _ _ => ⟨fun _ _ => rfl, fun _ _ => rfl⟩

theorem Intact.trans {name : Nat -> Byte} {last : Disk} (first : Intact total name disk after_)
    (second : Intact total name after_ last) : Intact total name disk last := by
  intro i inside used other
  obtain ⟨agree, bytes⟩ := first i inside used other
  have still : Used total after_ i := (agree 0 (by decide)).symm.trans used
  obtain ⟨agree', bytes'⟩ := second i inside still fun same => other fun j small =>
    (agree (1 + j) (by unfold nameBytes at small; omega)).trans (same j small)
  exact ⟨fun j small => (agree j small).trans (agree' j small), fun a within => (bytes' a (agree.inFile within)).trans (bytes a within)⟩

/-- The loop of the reader gives the bytes from the first block on. -/
theorem readLoop_eq (disk : Disk) (start off len done : Nat) :
    readLoop disk start off len done = (List.range (len - done)).map fun k => disk (start * 512 + (off + done) + k) := by
  induction rest : len - done using Nat.strongRecOn generalizing done with
  | ind n ih =>
    rw [readLoop.eq_def]
    by_cases more : done < len
    · rw [if_pos more]
      have some_ := take_pos (off + done) more
      have most : min (512 - (off + done) % 512) (len - done) ≤ len - done := Nat.min_le_right _ _
      generalize min (512 - (off + done) % 512) (len - done) = take at some_ most
      rw [ih (len - (done + take)) (by omega) (done + take) rfl]
      have split : n = take + (len - (done + take)) := by omega
      rw [split, List.range_add, List.map_append, List.map_map]
      refine congrArg₂ (· ++ ·) ?_ ?_
      · refine List.map_congr_left fun k _ => congrArg disk ?_
        rw [Nat.add_mul, Nat.add_assoc (start * 512), Nat.div_add_mod']
      · refine List.map_congr_left fun k _ => congrArg disk ?_
        show start * 512 + (off + (done + take)) + k = start * 512 + (off + done) + (take + k)
        omega
    · rw [if_neg more]
      have none : n = 0 := by omega
      rw [none]
      rfl

/-- A file whose entry and bytes are the same reads the same. -/
theorem read_congr (agree : Agree (entryOf total disk i) (entryOf total after_ i))
    (bytes : ∀ a, InFile (entryOf total disk i) (a / 512) -> after_ a = disk a) (off len : Nat) :
    entryGet (volOf total after_) i = entryGet (volOf total disk) i ∧
      read (volOf total after_) after_ i off len = read (volOf total disk) disk i off len := by
  have same : entryGet (volOf total after_) i = entryGet (volOf total disk) i := by
    unfold entryGet
    dsimp only
    show (if entryOf total after_ i 0 ≠ 1#8 then _ else _) = if entryOf total disk i 0 ≠ 1#8 then _ else _
    rw [← agree 0 (by decide)]
    refine if_congr Iff.rfl rfl ?_
    show Entry.mk true (be32 (entryOf total after_ i) 0x10) (be32 (entryOf total after_ i) 0x14) (be32 (entryOf total after_ i) 0x18)
        (be32 (entryOf total after_ i) 0x1C) ((field (behind (entryOf total after_ i) 1) 8).takeWhile (· ≠ 0x20#8) ++
          if entryOf total after_ i 9 ≠ 0x20#8 then
            0x2E#8 :: (field (behind (entryOf total after_ i) 9) 3).takeWhile (· ≠ 0x20#8) else []) = _
    rw [← agree.be32 (by decide), ← agree.be32 (by decide), ← agree.be32 (by decide), ← agree.be32 (by decide),
      ← agree.field (show 1 + 8 ≤ 32 by decide), ← agree.field (show 9 + 3 ≤ 32 by decide), ← agree 9 (by decide)]
    rfl
  refine ⟨same, ?_⟩
  unfold read
  dsimp only
  rw [same]
  by_cases used : (entryGet (volOf total disk) i).used = false
  · rw [if_pos used, if_pos used]
  rw [if_neg used, if_neg used]
  by_cases ended : off ≥ (entryGet (volOf total disk) i).size
  · rw [if_pos ended, if_pos ended]
  rw [if_neg ended, if_neg ended, readLoop_eq, readLoop_eq]
  have fields : (entryGet (volOf total disk) i).start = entryStart (entryOf total disk i) ∧
      (entryGet (volOf total disk) i).size = entryBytes (entryOf total disk i) := by
    unfold entryGet at used ⊢
    dsimp only at used ⊢
    split at used
    · exact absurd rfl used
    · next there =>
        rw [if_neg there]
        exact ⟨rfl, rfl⟩
  rw [fields.1, fields.2] at *
  refine congrArg some (List.map_congr_left fun k member => bytes _ ?_)
  have small := List.mem_range.mp member
  have fits := le_blocksOf (entryBytes (entryOf total disk i))
  have room : off + k < entryBlocks (entryOf total disk i) * 512 := by
    have less : off + k < entryBytes (entryOf total disk i) := by
      split at small
      · omega
      · omega
    exact Nat.lt_of_lt_of_le less fits
  constructor
  · omega
  · omega

end Src32.Fs.Dsfs
