import Src32.Fs.DsfsRoom

namespace Src32.Fs.Dsfs

open SectorWrites

/-!
# Phases of a change

A file is written in four phases: the bits of new blocks, the bytes, the entry and the
bits of blocks that are released.  After any sector of any phase the volume mounts and
the other files are intact.
-/

variable {sectors total : Nat} {disk after_ : Disk} {w : Writer} {name src : Nat -> Byte} {index n : Nat} {existed : Bool}
  {old : Writer.Old} {room : Writer.Room}

/-! ## Bits and bytes -/

/-- A disk on which the run of a file is being written. -/
structure Draft (total : Nat) (disk : Disk) (start n : Nat) (after_ : Disk) : Prop where
  header : SameHeader disk after_
  dir : SameDir total disk after_
  bits : ∀ b < bitmapBlocks total * 4096, bitGet (bitmap after_) b = bitGet (bitmap disk) b ∨
    InRun start n b ∧ bitGet (bitmap after_) b = true
  data : ∀ a, dataStart total * 512 ≤ a -> ¬ InRun start n (a / 512) -> after_ a = disk a

theorem Draft.refl (start n : Nat) : Draft total disk start n disk :=
  ⟨fun _ _ => rfl, fun _ _ _ _ => rfl, fun _ _ => .inl rfl, fun _ _ _ => rfl⟩

theorem Fits.inside (fits : Fits total disk w index old n room) {b : Nat} (within : InRun room.start n b) :
    dataStart total ≤ b ∧ b < total := by
  have some_ : n ≠ 0 := by
    rintro rfl
    exact absurd within.2 (Nat.not_lt.mpr within.1)
  obtain ⟨low, high⟩ := fits.placed some_
  exact ⟨Nat.le_trans low within.1, Nat.lt_of_lt_of_le within.2 high⟩

theorem Draft.good (draft : Draft total disk room.start n after_) (good : Good sectors total disk)
    (fits : Fits total disk w index old n room) : Good sectors total after_ := by
  refine good.marks draft.header draft.dir fun b inside => ?_
  rcases draft.bits b inside with same | ⟨within, set⟩
  · exact .inl same
  · by_cases marked : bitGet (bitmap disk) b = true
    · exact .inl (set.trans marked.symm)
    · obtain ⟨low, high⟩ := fits.inside within
      exact .inr ⟨low, high, fun i within used part => marked ((good.usedOk within used).bit part)⟩

theorem Spot.other (spot : Spot total disk name index existed) {i : Nat} (used : Used total disk i) (differs : ¬ Named total disk name i) :
    i ≠ index := by
  rintro rfl
  cases existed with
  | true => exact differs (spot.here rfl).2
  | false => exact spot.free rfl used

theorem Draft.intact (draft : Draft total disk room.start n after_) (good : Good sectors total disk)
    (spot : Spot total disk name index existed) (fits : Fits total disk w index old n room) : Intact total name disk after_ := by
  intro i inside used differs
  have other := spot.other used differs
  refine ⟨draft.dir i inside, fun a part => draft.data a ?_ fun within => fits.others i inside other used _ within part⟩
  have low := (good.in_data inside used part).1
  omega

/-- The bits of a run are being set. -/
theorem Fits.bitmap_draft (attached : Attached total w) (fits : Fits total disk w index old n room) (k : Nat) :
    Draft total disk room.start n (after sectorSize disk (room.writes.take k)) := by
  rcases fits.writes with ⟨none, _⟩ | saved
  · rw [none, List.take_nil]
    exact Draft.refl _ _
  · rw [saved, attached.bitmapSave_take]
    refine ⟨after_bitmap_header _ _, after_bitmap_dir _ (Nat.min_le_right _ _), fun b _ => ?_, fun a beyond _ => ?_⟩
    · rw [after_bitmap_bits]
      split
      · by_cases within : InRun room.start n b
        · have small := (fits.inside within).2
          refine .inr ⟨within, (bitGet_setRun w _ _ _ b).mpr (.inl ⟨within.1, within.2, ?_⟩)⟩
          rw [attached.size]
          exact small
        · refine .inl (Bool.eq_iff_iff.mpr ((bitGet_setRun w _ _ _ b).trans (or_iff_right fun set => ?_)))
          exact within ⟨set.1, set.2.1⟩
      · exact .inl rfl
    · refine after_bitmap_behind _ (Nat.min_le_right _ _) (Nat.le_trans ?_ beyond)
      exact Nat.mul_le_mul_right _ (Nat.le_add_right _ _)

theorem Fits.bitmap_marked (attached : Attached total w) (fits : Fits total disk w index old n room) {b : Nat}
    (within : InRun room.start n b) : bitGet (bitmap (after sectorSize disk room.writes)) b = true := by
  rcases fits.writes with ⟨none, marked⟩ | saved
  · rw [none]
    exact marked b within
  · have small := (fits.inside within).2
    rw [saved, attached.bitmapSave_eq, after_bitmap_bits, if_pos (block_lt small)]
    exact (bitGet_setRun w _ _ _ b).mpr (.inl ⟨within.1, within.2, attached.size.symm ▸ small⟩)

/-- The sectors of the file. -/
def fileWrites (start bytes : Nat) (src : Nat -> Byte) : List (Write Byte) :=
  if bytes ≠ 0 then run sectorSize start (blocksOf bytes) (Writer.padded src bytes) else []

theorem fileWrites_eq (start bytes : Nat) (src : Nat -> Byte) :
    fileWrites start bytes src = run sectorSize start (blocksOf bytes) (Writer.padded src bytes) := by
  unfold fileWrites
  by_cases none : bytes = 0
  · rw [if_neg (not_not.mpr none), none]
    rfl
  · rw [if_pos none]

/-- The bytes of a file are being written. -/
theorem Draft.file (draft : Draft total disk room.start n after_) (fits : Fits total disk w index old n room) {bytes : Nat}
    (long : n = blocksOf bytes) (k : Nat) :
    Draft total disk room.start n (after sectorSize after_ ((fileWrites room.start bytes src).take k)) := by
  rw [fileWrites_eq, take_run]
  have apart : ∀ a, ¬ InRun room.start n (a / 512) ->
      after sectorSize after_ (run sectorSize room.start (min k (blocksOf bytes)) (Writer.padded src bytes)) a = after_ a := by
    intro a outside
    rw [after_file, if_neg]
    rintro ⟨low, high⟩
    exact outside ⟨low, Nat.lt_of_lt_of_le high (Nat.add_le_add_left (long ▸ Nat.min_le_right _ _) _)⟩
  have below : ∀ a < dataStart total * 512,
      after sectorSize after_ (run sectorSize room.start (min k (blocksOf bytes)) (Writer.padded src bytes)) a = after_ a := by
    intro a inside
    refine apart a fun within => ?_
    have low := (fits.inside within).1
    omega
  obtain ⟨header, dir, bits⟩ := same_tables below
  refine ⟨fun a inside => (header a inside).trans (draft.header a inside),
    fun i inside j small => (draft.dir i inside j small).trans (dir i inside j small), fun b inside => ?_, fun a beyond outside => ?_⟩
  · rw [bits b inside]
    exact draft.bits b inside
  · exact (apart a outside).trans (draft.data a beyond outside)

/-- The disk before the entry is written. -/
structure Written (total : Nat) (disk : Disk) (start n : Nat) (content : Nat -> Byte) (after_ : Disk) : Prop where
  draft : Draft total disk start n after_
  marked : ∀ b, InRun start n b -> bitGet (bitmap after_) b = true
  content : ∀ a, InRun start n (a / 512) -> after_ a = content (a - start * 512)

theorem Fits.written (attached : Attached total w) (fits : Fits total disk w index old n room) {bytes : Nat} (long : n = blocksOf bytes)
    (src : Nat -> Byte) : Written total disk room.start n (Writer.padded src bytes)
      (after sectorSize disk (room.writes ++ fileWrites room.start bytes src)) := by
  have first : Draft total disk room.start n (after sectorSize disk room.writes) := of_prefixes (fits.bitmap_draft attached)
  have whole : Draft total disk room.start n (after sectorSize (after sectorSize disk room.writes) (fileWrites room.start bytes src)) :=
    of_prefixes (first.file fits long)
  rw [after_append]
  refine ⟨whole, fun b within => ?_, fun a within => ?_⟩
  · have below : ∀ a < dataStart total * 512, after sectorSize (after sectorSize disk room.writes) (fileWrites room.start bytes src) a =
        after sectorSize disk room.writes a := by
      intro a inside
      rw [fileWrites_eq, after_file, if_neg]
      rintro ⟨low, high⟩
      have place := (fits.inside ⟨low, long ▸ high⟩).1
      omega
    rw [(same_tables below).2.2 b (block_lt (fits.inside within).2)]
    exact fits.bitmap_marked attached within
  · rw [fileWrites_eq, after_file, if_pos ⟨within.1, long ▸ within.2⟩]

/-! ## The entry -/

/-- The directory that was loaded serves as long as the directory is the same. -/
theorem entered_of_sameDir (same : SameDir total disk after_) (inside : index < entries) (e : Nat -> Byte) :
    after sectorSize after_ (run sectorSize (dirStart total + index / 16) 1
      (behind (Writer.setEntry (directory total disk) index e) (index / 16 * sectorSize))) = entered total after_ index e := by
  funext a
  unfold entered
  rw [after_run (by decide), after_run (by decide)]
  by_cases sector : (dirStart total + index / 16) * sectorSize ≤ a ∧ a < (dirStart total + index / 16 + 1) * sectorSize
  · rw [if_pos sector, if_pos sector]
    have small : index / 16 * sectorSize + (a - (dirStart total + index / 16) * sectorSize) < entries * 32 := by
      unfold sectorSize entries at *
      omega
    unfold behind Writer.setEntry
    generalize index / 16 * sectorSize + (a - (dirStart total + index / 16) * sectorSize) = p at small
    refine if_congr Iff.rfl rfl ?_
    have there : p / 32 < entries := Nat.div_lt_of_lt_mul (Nat.mul_comm entries 32 ▸ small)
    have agree := same (p / 32) there (p % 32) (Nat.mod_lt p (by decide))
    unfold entryOf entry behind entrySize at agree
    rw [Nat.div_add_mod'] at agree
    exact agree
  · rw [if_neg sector, if_neg sector]

/-- What a new entry stands for. -/
theorem Written.usedOk {content : Nat -> Byte} {start bytes created time : Nat} (written : Written total disk start n content after_)
    (long : n = blocksOf bytes) (none : n = 0 -> start = 0) (placed : n ≠ 0 -> dataStart total ≤ start ∧ start + n ≤ total)
    (small : start < 2 ^ 32) (short : bytes < 2 ^ 32) (valid : nameValid (some name) = true) :
    UsedOk total (bitmap after_) (Writer.newEntry name start bytes created time) := by
  have first : entryStart (Writer.newEntry name start bytes created time) = start := newEntry_start small
  have size : entryBytes (Writer.newEntry name start bytes created time) = bytes := newEntry_bytes short
  have blocks : entryBlocks (Writer.newEntry name start bytes created time) = n := (newEntry_blocks short).trans long.symm
  obtain ⟨base, extension⟩ := nameValid_some valid
  have letters : ∀ o k, o + k ≤ nameBytes -> field (behind (Writer.newEntry name start bytes created time) (1 + o)) k =
      field (behind name o) k := by
    intro o k inside
    refine List.map_congr_left fun i member => ?_
    have small := List.mem_range.mp member
    have here : Writer.newEntry name start bytes created time (1 + (o + i)) = name (o + i) := newEntry_name (by omega)
    rw [← Nat.add_assoc] at here
    exact here
  have plain : behind name 0 = name := funext fun i => congrArg name (Nat.zero_add i)
  refine ⟨rfl, fun i inside => ?_, ?_, ?_, ?_, fun k inside => ?_⟩
  · unfold behind Writer.newEntry nameBytes
    rw [if_neg (by omega), if_neg (by omega), if_pos (by omega)]
  · have head := letters 0 8 (by decide)
    rw [plain, Nat.add_zero] at head
    rw [head]
    exact base
  · have tail := letters 8 3 (by decide)
    rw [show 1 + 8 = 9 from rfl] at tail
    rw [tail]
    exact extension
  · rw [first, size, blocks]
    by_cases zero : bytes = 0
    · rw [if_pos zero]
      refine none ?_
      rw [long, zero]
      rfl
    · rw [if_neg zero]
      exact placed fun empty => zero (blocksOf_zero.mp (long ▸ empty))
  · rw [blocks] at inside
    rw [first]
    exact written.marked _ ⟨Nat.le_add_right .., Nat.add_lt_add_left inside _⟩

/-! ## The release -/

/-- The blocks that a change releases are in no file. -/
def Released (total : Nat) (disk : Disk) (oldStart oldBlocks start n : Nat) : Prop :=
  ∀ b, InRun oldStart oldBlocks b -> Writer.kept start n b = false ->
    dataStart total ≤ b ∧ b < total ∧ ∀ i < entries, Used total disk i -> ¬ InFile (entryOf total disk i) b

/-- While blocks are released the volume mounts and all files are intact. -/
theorem Good.release (good : Good sectors total disk) (attached : Attached total w) {oldStart oldBlocks start : Nat}
    (inside : oldStart + oldBlocks ≤ total) (released : Released total disk oldStart oldBlocks start n) (k : Nat) :
    Good sectors total (after sectorSize disk ((w.bitmapSave (w.clearRun (bitmap disk) oldStart oldBlocks start n)).take k)) ∧
      SameDir total disk (after sectorSize disk ((w.bitmapSave (w.clearRun (bitmap disk) oldStart oldBlocks start n)).take k)) ∧
      ∀ a, dataStart total * 512 ≤ a ->
        after sectorSize disk ((w.bitmapSave (w.clearRun (bitmap disk) oldStart oldBlocks start n)).take k) a = disk a := by
  obtain ⟨_, _, small⟩ := good.bounds
  rw [attached.bitmapSave_take]
  have dir : SameDir total disk (after sectorSize disk
      (run sectorSize 2 (min k (bitmapBlocks total)) (w.clearRun (bitmap disk) oldStart oldBlocks start n))) :=
    after_bitmap_dir _ (Nat.min_le_right k (bitmapBlocks total))
  refine ⟨good.marks (after_bitmap_header _ _) dir fun b _ => ?_, dir, fun a beyond => ?_⟩
  · rw [after_bitmap_bits]
    split
    · have cleared := bitGet_clearRun w (bitmap disk) start n b (attached.size.symm ▸ inside) (attached.size.symm ▸ small)
      by_cases gone : oldStart ≤ b ∧ b < oldStart + oldBlocks ∧ Writer.kept start n b = false
      · exact .inr (released b ⟨gone.1, gone.2.1⟩ gone.2.2)
      · exact .inl (Bool.eq_iff_iff.mpr (cleared.trans (and_iff_left gone)))
    · exact .inl rfl
  · refine after_bitmap_behind _ (Nat.min_le_right _ _) (Nat.le_trans ?_ beyond)
    exact Nat.mul_le_mul_right _ (Nat.le_add_right _ _)

/-- The bits after the release. -/
theorem Good.released_bits (good : Good sectors total disk) (attached : Attached total w) {oldStart oldBlocks start b : Nat}
    (inside : oldStart + oldBlocks ≤ total) (small : b < total) :
    bitGet (bitmap (after sectorSize disk (w.bitmapSave (w.clearRun (bitmap disk) oldStart oldBlocks start n)))) b = true ↔
      bitGet (bitmap disk) b = true ∧ ¬ (InRun oldStart oldBlocks b ∧ Writer.kept start n b = false) := by
  obtain ⟨_, _, bound⟩ := good.bounds
  rw [attached.bitmapSave_eq, after_bitmap_bits, if_pos (block_lt small),
    bitGet_clearRun w (bitmap disk) start n b (attached.size.symm ▸ inside) (attached.size.symm ▸ bound)]
  unfold InRun
  rw [and_assoc]

/-- Files are intact where the directory and the bytes of the data are. -/
theorem Good.intact_of_same (good : Good sectors total disk) (dir : SameDir total disk after_)
    (data : ∀ a, dataStart total * 512 ≤ a -> after_ a = disk a) (name : Nat -> Byte) : Intact total name disk after_ := by
  intro i inside used _
  refine ⟨dir i inside, fun a part => data a ?_⟩
  have low := (good.in_data inside used part).1
  omega

/-!
## Changes of a file

A call of the writer that changes a file, from its first sector to its last.
-/

variable {last : Disk} {e content : Nat -> Byte} {start : Nat}

/-- The bitmap marks no block outside the metadata and the files. -/
def Tight (total : Nat) (disk : Disk) : Prop :=
  ∀ b, dataStart total ≤ b -> b < total -> bitGet (bitmap disk) b = true ->
    ∃ i < entries, Used total disk i ∧ InFile (entryOf total disk i) b

/-- The disk after the entry of a file is written. -/
structure Entered (sectors total : Nat) (disk : Disk) (name : Nat -> Byte) (index : Nat) (e : Nat -> Byte) (start n : Nat)
    (content : Nat -> Byte) (after_ : Disk) : Prop where
  good : Good sectors total after_
  intact : Intact total name disk after_
  others : ∀ i < entries, i ≠ index -> Agree (entryOf total disk i) (entryOf total after_ i)
  self : Agree e (entryOf total after_ index)
  bits : ∀ b < bitmapBlocks total * 4096, bitGet (bitmap after_) b = true -> bitGet (bitmap disk) b = true ∨ InRun start n b
  content : ∀ a, InRun start n (a / 512) -> after_ a = content (a - start * 512)

/-- The entry is written over a disk that holds the file. -/
theorem Written.entered (written : Written total disk start n content after_) (inside : ∀ b, InRun start n b -> dataStart total ≤ b)
    (intact : Intact total name disk after_) (good : Good sectors total after_) (spot : Spot total disk name index existed)
    (fits : AllZero e 32 ∨ UsedOk total (bitmap after_) e ∧ (∀ j < nameBytes, e (1 + j) = name j) ∧
      ∀ i < entries, i ≠ index -> Used total disk i -> ∀ b, InFile (entryOf total disk i) b -> ¬ InFile e b) :
    Entered sectors total disk name index e start n content (Dsfs.entered total after_ index e) := by
  have self : Agree e (entryOf total (Dsfs.entered total after_ index e) index) := entered_self index e
  have others : ∀ i, i ≠ index -> Agree (entryOf total after_ i) (entryOf total (Dsfs.entered total after_ index e) i) :=
    fun i differs => entered_other e differs
  have draft := written.draft
  have marks : ∀ b < bitmapBlocks total * 4096, bitGet (bitmap (Dsfs.entered total after_ index e)) b = bitGet (bitmap after_) b :=
    fun b inside => entered_bits index e inside
  have data : ∀ a, dataStart total * 512 ≤ a -> Dsfs.entered total after_ index e a = after_ a :=
    fun a beyond => entered_data spot.inside e beyond
  refine ⟨good.entered (entered_header index e) (fun i _ differs => others i differs) marks ?_, ?_, fun i within differs => ?_, self,
    fun b small set => ?_, fun a within => ?_⟩
  · rcases fits with zero | ⟨ok, named, apart⟩
    · exact .inl (self.allZero zero)
    · refine .inr ⟨ok.congr self fun b within set => ?_, fun i within differs used => ⟨fun same => ?_, fun b part other => ?_⟩⟩
      · rw [marks b (block_lt ?_)]
        · exact set
        · exact Nat.lt_of_lt_of_le within.2 (ok.inside within.some_blocks).2
      · have before : Used total disk i := (draft.dir.used within).mp used
        refine spot.others i within differs before fun j small => ?_
        have letter := same j small
        rw [← self (1 + j) (by unfold nameBytes at small; omega), named j small] at letter
        exact (draft.dir i within (1 + j) (by unfold nameBytes at small; omega)).trans letter
      · have before : Used total disk i := (draft.dir.used within).mp used
        exact apart i within differs before b ((draft.dir i within).symm.inFile part) (self.symm.inFile other)
  · refine intact.trans fun i within used differs => ⟨others i ?_, fun a part => data a ?_⟩
    · have before : Used total disk i := (draft.dir.used within).mp used
      refine spot.other before fun same => differs fun j small => ?_
      exact (draft.dir i within (1 + j) (by unfold nameBytes at small; omega)).symm.trans (same j small)
    · have low := (good.in_data within used part).1
      omega
  · exact fun j small => (draft.dir i within j small).trans (others i differs j small)
  · rw [marks b small] at set
    rcases draft.bits b small with same | ⟨within, _⟩
    · exact .inl (same.symm.trans set)
    · exact .inr within
  · have low := inside _ within
    exact (data a (by omega)).trans (written.content a within)

/-! ## The release -/

/-- The blocks of the old file that the new one does not keep are free. -/
theorem Entered.released (changed : Entered sectors total disk name index e start n content after_) (good : Good sectors total disk)
    (spot : Spot total disk name index existed) (same : old.existed = existed) (file : OldFile total disk index old)
    (some_ : old.blocks ≠ 0) (run : ∀ b, InFile e b -> InRun start n b) : Released total after_ old.start old.blocks start n := by
  intro b within gone
  have part := (file.inFile some_).mp within
  have usedHere := (spot.here (same ▸ file.existed some_)).1
  obtain ⟨low, high⟩ := good.in_data spot.inside usedHere part
  refine ⟨low, high, fun i inside used other => ?_⟩
  by_cases here : i = index
  · rw [here] at other
    have new := run b (changed.self.symm.inFile other)
    have keeps : Writer.kept start n b = true := by
      obtain ⟨first, second⟩ := new
      exact decide_eq_true ⟨by omega, first, by omega⟩
    rw [keeps] at gone
    cases gone
  · have agree := changed.others i inside here
    have before : Used total disk i := (agree 0 (by decide)).trans used
    exact good.apart index spot.inside i inside (Ne.symm here) usedHere before b part (agree.symm.inFile other)

theorem Spot.old_inside (spot : Spot total disk name index existed) (good : Good sectors total disk) (same : old.existed = existed)
    (file : OldFile total disk index old) (some_ : old.blocks ≠ 0) : old.start + old.blocks ≤ total := by
  have usedHere := (spot.here (same ▸ file.existed some_)).1
  obtain ⟨start, size⟩ := file.there (file.existed some_)
  have blocks : old.blocks = entryBlocks (entryOf total disk index) := congrArg blocksOf size
  have place := ((good.usedOk spot.inside usedHere).inside (blocks ▸ some_)).2
  rw [start, blocks]
  exact place

/-- No block is leaked by a change whose bits are those of the new file and of the other ones. -/
theorem Entered.tight (changed : Entered sectors total disk name index e start n content after_) (tight : Tight total disk)
    (spot : Spot total disk name index existed) (same : old.existed = existed) (file : OldFile total disk index old)
    (dir : SameDir total after_ last) (new : ∀ b, InRun start n b -> e 0 = 1#8 ∧ InFile e b)
    (bits : ∀ b, dataStart total ≤ b -> b < total -> bitGet (bitmap last) b = true ->
      InRun start n b ∨ bitGet (bitmap disk) b = true ∧ (old.blocks ≠ 0 -> ¬ InRun old.start old.blocks b)) : Tight total last := by
  intro b low high set
  rcases bits b low high set with within | ⟨before, apart⟩
  · obtain ⟨used, part⟩ := new b within
    refine ⟨index, spot.inside, ?_, (dir index spot.inside).inFile (changed.self.inFile part)⟩
    exact ((changed.self.trans_ (dir index spot.inside)) 0 (by decide)).symm.trans used
  · obtain ⟨i, inside, used, part⟩ := tight b low high before
    have differs : i ≠ index := by
      rintro rfl
      have there : existed = true := by
        by_contra none
        exact spot.free (Bool.not_eq_true _ ▸ none) used
      obtain ⟨_, size⟩ := file.there (same.trans there)
      have some_ : old.blocks ≠ 0 := by
        have blocks : old.blocks = entryBlocks (entryOf total disk i) := congrArg blocksOf size
        rw [blocks]
        exact part.some_blocks
      exact apart some_ ((file.inFile some_).mpr part)
    have agree := (changed.others i inside differs).trans_ (dir i inside)
    exact ⟨i, inside, (agree 0 (by decide)).symm.trans used, agree.inFile part⟩

/-! ## A whole change -/

/-- The disk after a change. -/
structure Changed (sectors total : Nat) (disk : Disk) (name : Nat -> Byte) (index : Nat) (e : Nat -> Byte) (start n : Nat)
    (content : Nat -> Byte) (last : Disk) : Prop where
  good : Good sectors total last
  intact : Intact total name disk last
  others : ∀ i < entries, i ≠ index -> Agree (entryOf total disk i) (entryOf total last i)
  self : Agree e (entryOf total last index)
  content : ∀ a, InRun start n (a / 512) -> last a = content (a - start * 512)
  tight : Tight total disk -> Tight total last

/-- The writes that release the blocks of the old file. -/
def releaseOf (w : Writer) (disk : Disk) (old : Writer.Old) (start n : Nat) : List (Write Byte) :=
  w.bitmapSave (w.clearRun (w.bitmapLoad disk) old.start old.blocks start n)

/-- A change whose old blocks are released. -/
theorem Entered.release (changed : Entered sectors total disk name index e start n content after_) (good : Good sectors total disk)
    (attached : Attached total w) (spot : Spot total disk name index existed) (same : old.existed = existed)
    (file : OldFile total disk index old) (some_ : old.blocks ≠ 0) (run : ∀ b, InFile e b -> InRun start n b)
    (new : ∀ b, InRun start n b -> e 0 = 1#8 ∧ InFile e b) (inside : ∀ b, InRun start n b -> dataStart total ≤ b) :
    (∀ k, Good sectors total (after sectorSize after_ ((releaseOf w after_ old start n).take k)) ∧
      Intact total name disk (after sectorSize after_ ((releaseOf w after_ old start n).take k))) ∧
      Changed sectors total disk name index e start n content (after sectorSize after_ (releaseOf w after_ old start n)) := by
  have released := changed.released good spot same file some_ run
  have bound := spot.old_inside good same file some_
  unfold releaseOf
  rw [attached.bitmapLoad]
  have along := changed.good.release attached bound released
  have steps : ∀ k, Good sectors total (after sectorSize after_ ((w.bitmapSave (w.clearRun (bitmap after_) old.start old.blocks start n)).take k)) ∧
      Intact total name disk (after sectorSize after_ ((w.bitmapSave (w.clearRun (bitmap after_) old.start old.blocks start n)).take k)) := by
    intro k
    obtain ⟨fine, dir, data⟩ := along k
    exact ⟨fine, changed.intact.trans (changed.good.intact_of_same dir data name)⟩
  refine ⟨steps, ?_⟩
  obtain ⟨_, dir, data⟩ := along (w.bitmapSave (w.clearRun (bitmap after_) old.start old.blocks start n)).length
  have whole := steps (w.bitmapSave (w.clearRun (bitmap after_) old.start old.blocks start n)).length
  rw [List.take_length] at dir data whole
  refine ⟨whole.1, whole.2, fun i within differs => (changed.others i within differs).trans_ (dir i within),
    changed.self.trans_ (dir index spot.inside), fun a within => ?_, fun tight => ?_⟩
  · have low := inside _ within
    exact (data a (by omega)).trans (changed.content a within)
  · refine changed.tight tight spot same file dir new fun b low high set => ?_
    obtain ⟨before, gone⟩ := (changed.good.released_bits attached bound high).mp set
    by_cases within : InRun start n b
    · exact .inl within
    · refine .inr ⟨(changed.bits b (block_lt high) before).resolve_right within, fun _ part => gone ⟨part, ?_⟩⟩
      exact decide_eq_false fun keeps => within ⟨keeps.2.1, by have := keeps.2.2; omega⟩

/-- A change without old blocks to release. -/
theorem Entered.settle (changed : Entered sectors total disk name index e start n content after_)
    (spot : Spot total disk name index existed) (same : old.existed = existed) (file : OldFile total disk index old)
    (new : ∀ b, InRun start n b -> e 0 = 1#8 ∧ InFile e b) (kept : old.blocks ≠ 0 -> ∀ b, InRun old.start old.blocks b -> InRun start n b) :
    Changed sectors total disk name index e start n content after_ := by
  refine ⟨changed.good, changed.intact, changed.others, changed.self, changed.content, fun tight => ?_⟩
  refine changed.tight tight spot same file (fun _ _ _ _ => rfl) new fun b _ high set => ?_
  by_cases within : InRun start n b
  · exact .inl within
  · refine .inr ⟨(changed.bits b (block_lt high) set).resolve_right within, fun some_ part => within (kept some_ b part)⟩

end Src32.Fs.Dsfs
