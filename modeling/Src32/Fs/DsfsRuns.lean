import Src32.Fs.DsfsChanges

namespace Src32.Fs.Dsfs

open SectorWrites

/-!
# Calls of the writer

What `dsfs_write_file` and `dsfs_delete_file` do to a volume that mounts, sector by
sector and as a whole.
-/

variable {sectors total : Nat} {disk after_ : Disk} {w : Writer} {index : Nat} {existed : Bool} {old : Writer.Old} {room : Writer.Room}

/-! ## Writing a file -/

/-- The new entry of a file. -/
def entryFor (name : Nat -> Byte) (old : Writer.Old) (start bytes time : Nat) : Nat -> Byte :=
  Writer.newEntry name start bytes (if old.existed then old.created else time) time

theorem inFile_entryFor {name : Nat -> Byte} {start bytes time : Nat} (small : start < 2 ^ 32) (short : bytes < 2 ^ 32) (b : Nat) :
    InFile (entryFor name old start bytes time) b ↔ InRun start (blocksOf bytes) b := by
  unfold InFile InRun entryFor
  rw [newEntry_start small, newEntry_blocks short]

/-- The writes of a file up to its entry. -/
theorem Fits.entryWrites (good : Good sectors total disk) (attached : Attached total w) {name : Nat -> Byte} {bytes : Nat} (src : Nat -> Byte) (time : Nat)
    (spot : Spot total disk name index existed) (fits : Fits total disk w index old (blocksOf bytes) room)
    (valid : nameValid (some name) = true) (short : bytes < 2 ^ 32) :
    (∀ k, Good sectors total (after sectorSize disk ((w.entryWrites (directory total disk) index old room name src bytes time).take k)) ∧
      Intact total name disk (after sectorSize disk ((w.entryWrites (directory total disk) index old room name src bytes time).take k))) ∧
      Entered sectors total disk name index (entryFor name old room.start bytes time) room.start (blocksOf bytes) (Writer.padded src bytes)
        (after sectorSize disk (w.entryWrites (directory total disk) index old room name src bytes time)) := by
  obtain ⟨_, _, bound⟩ := good.bounds
  have small : room.start < 2 ^ 32 := by
    by_cases empty : blocksOf bytes = 0
    · rw [fits.none empty]
      decide
    · exact Nat.lt_of_le_of_lt (Nat.le_trans (Nat.le_add_right _ _) (fits.placed empty).2) bound
  have written := fits.written attached rfl src
  have readyGood := written.draft.good good fits
  have readyIntact := written.draft.intact good spot fits
  have ok : UsedOk total (bitmap (after sectorSize disk (room.writes ++ fileWrites room.start bytes src)))
      (entryFor name old room.start bytes time) := written.usedOk rfl fits.none fits.placed small short valid
  have named : ∀ j < nameBytes, entryFor name old room.start bytes time (1 + j) = name j := fun j inside => newEntry_name inside
  have changed := written.entered (fun b within => (fits.inside within).1) readyIntact readyGood spot (.inr ⟨ok, named,
    fun i inside differs used b part other => fits.others i inside differs used b ((inFile_entryFor small short b).mp other) part⟩)
  have split : w.entryWrites (directory total disk) index old room name src bytes time =
      (room.writes ++ fileWrites room.start bytes src) ++ run sectorSize (dirStart total + index / 16) 1
        (behind (Writer.setEntry (directory total disk) index (entryFor name old room.start bytes time)) (index / 16 * sectorSize)) := by
    unfold Writer.entryWrites
    rw [attached.dirSaveSector_eq]
    rfl
  have same := entered_of_sameDir written.draft.dir spot.inside (entryFor name old room.start bytes time)
  rw [split]
  refine ⟨fun k => ?_, ?_⟩
  · refine prefixes_append (p := fun d => Good sectors total d ∧ Intact total name disk d) ?_ ?_ k
    · refine prefixes_append (p := fun d => Good sectors total d ∧ Intact total name disk d) (fun k => ?_) fun k => ?_
      · have draft := fits.bitmap_draft attached k
        exact ⟨draft.good good fits, draft.intact good spot fits⟩
      · have first : Draft total disk room.start (blocksOf bytes) (after sectorSize disk room.writes) := of_prefixes (fits.bitmap_draft attached)
        have draft : Draft total disk room.start (blocksOf bytes)
            (after sectorSize (after sectorSize disk room.writes) ((fileWrites room.start bytes src).take k)) := first.file fits rfl k
        exact ⟨draft.good good fits, draft.intact good spot fits⟩
    · intro k
      rw [take_run]
      cases k with
      | zero => exact ⟨readyGood, readyIntact⟩
      | succ k =>
        rw [Nat.min_eq_right (Nat.succ_pos k), same]
        exact ⟨changed.good, changed.intact⟩
  · rw [after_append, same]
    exact changed

/-- The writes of a file. -/
theorem Fits.write (good : Good sectors total disk) (attached : Attached total w) {name : Nat -> Byte} {bytes : Nat} (src : Nat -> Byte) (time : Nat)
    (spot : Spot total disk name index existed) (same : old.existed = existed) (file : OldFile total disk index old)
    (fits : Fits total disk w index old (blocksOf bytes) room) (valid : nameValid (some name) = true) (short : bytes < 2 ^ 32) :
    (∀ k, Good sectors total (after sectorSize disk ((w.entryWrites (directory total disk) index old room name src bytes time ++
        w.releaseWrites (after sectorSize disk (w.entryWrites (directory total disk) index old room name src bytes time)) old room bytes).take k)) ∧
      Intact total name disk (after sectorSize disk ((w.entryWrites (directory total disk) index old room name src bytes time ++
        w.releaseWrites (after sectorSize disk (w.entryWrites (directory total disk) index old room name src bytes time)) old room bytes).take k))) ∧
      Changed sectors total disk name index (entryFor name old room.start bytes time) room.start (blocksOf bytes) (Writer.padded src bytes)
        (after sectorSize disk (w.entryWrites (directory total disk) index old room name src bytes time ++
          w.releaseWrites (after sectorSize disk (w.entryWrites (directory total disk) index old room name src bytes time)) old room bytes)) := by
  obtain ⟨_, _, bound⟩ := good.bounds
  obtain ⟨first, changed⟩ := fits.entryWrites good attached src time spot valid short
  have small : room.start < 2 ^ 32 := by
    by_cases empty : blocksOf bytes = 0
    · rw [fits.none empty]
      decide
    · exact Nat.lt_of_le_of_lt (Nat.le_trans (Nat.le_add_right _ _) (fits.placed empty).2) bound
  have new : ∀ b, InRun room.start (blocksOf bytes) b ->
      entryFor name old room.start bytes time 0 = 1#8 ∧ InFile (entryFor name old room.start bytes time) b :=
    fun b within => ⟨rfl, (inFile_entryFor small short b).mpr within⟩
  unfold Writer.releaseWrites
  by_cases more : old.blocks ≠ 0 ∧ (room.reused = false ∨ blocksOf bytes < old.blocks)
  · rw [if_pos more]
    obtain ⟨second, whole⟩ := changed.release good attached spot same file more.1 (fun b => (inFile_entryFor small short b).mp) new
      fun b within => (fits.inside within).1
    refine ⟨fun k => prefixes_append (p := fun d => Good sectors total d ∧ Intact total name disk d) first second k, ?_⟩
    rw [after_append]
    exact whole
  · rw [if_neg more, List.append_nil]
    refine ⟨first, changed.settle spot same file new fun some_ b part => ?_⟩
    have again : room.reused = true := by
      by_contra fresh
      exact more ⟨some_, .inl (Bool.not_eq_true _ ▸ fresh)⟩
    obtain ⟨_, few, start⟩ := fits.reused again
    have all : old.blocks ≤ blocksOf bytes := Nat.not_lt.mp fun less => more ⟨some_, .inr less⟩
    rw [start]
    exact ⟨part.1, Nat.lt_of_lt_of_le part.2 (Nat.add_le_add_left all _)⟩

/-! ## Deleting a file -/

/-- The writes of a deletion. -/
theorem Good.delete (good : Good sectors total disk) (attached : Attached total w) {name : Nat -> Byte}
    (spot : Spot total disk name index true) (file : OldFile total disk index old) (same : old.existed = true) :
    (∀ k, Good sectors total (after sectorSize disk ((w.dirSaveSector (Writer.setEntry (directory total disk) index fun _ => 0) index ++
        if old.blocks = 0 then [] else releaseOf w (after sectorSize disk
          (w.dirSaveSector (Writer.setEntry (directory total disk) index fun _ => 0) index)) old 0 0).take k)) ∧
      Intact total name disk (after sectorSize disk ((w.dirSaveSector (Writer.setEntry (directory total disk) index fun _ => 0) index ++
        if old.blocks = 0 then [] else releaseOf w (after sectorSize disk
          (w.dirSaveSector (Writer.setEntry (directory total disk) index fun _ => 0) index)) old 0 0).take k))) ∧
      Changed sectors total disk name index (fun _ => 0) 0 0 (fun _ => 0)
        (after sectorSize disk (w.dirSaveSector (Writer.setEntry (directory total disk) index fun _ => 0) index ++
          if old.blocks = 0 then [] else releaseOf w (after sectorSize disk
            (w.dirSaveSector (Writer.setEntry (directory total disk) index fun _ => 0) index)) old 0 0)) := by
  have nowhere : ∀ b, ¬ InRun 0 0 b := fun b within => absurd within.2 (Nat.not_lt.mpr within.1)
  have nothing : Written total disk 0 0 (fun _ => 0) disk :=
    ⟨Draft.refl 0 0, fun b within => absurd within (nowhere b), fun a within => absurd within (nowhere _)⟩
  have changed := nothing.entered (e := fun _ => 0) (fun b within => absurd within (nowhere b)) (Intact.refl name disk) good spot
    (.inl fun _ _ => rfl)
  have first : ∀ k, Good sectors total (after sectorSize disk
      ((w.dirSaveSector (Writer.setEntry (directory total disk) index fun _ => 0) index).take k)) ∧
      Intact total name disk (after sectorSize disk
        ((w.dirSaveSector (Writer.setEntry (directory total disk) index fun _ => 0) index).take k)) := by
    intro k
    rw [attached.dirSaveSector_eq, take_run]
    cases k with
    | zero => exact ⟨good, Intact.refl name disk⟩
    | succ k =>
      rw [Nat.min_eq_right (Nat.succ_pos k)]
      exact ⟨changed.good, changed.intact⟩
  have entered_eq : after sectorSize disk (w.dirSaveSector (Writer.setEntry (directory total disk) index fun _ => 0) index) =
      Dsfs.entered total disk index fun _ => 0 := by
    rw [attached.dirSaveSector_eq]
    rfl
  have new : ∀ b, InRun 0 0 b -> (fun _ => 0 : Nat -> Byte) 0 = 1#8 ∧ InFile (fun _ => 0) b := fun b within => absurd within (nowhere b)
  have blank : ∀ b, InFile (fun _ => 0) b -> InRun 0 0 b := by
    intro b part
    exact absurd part.some_blocks (by decide)
  by_cases none : old.blocks = 0
  · rw [if_pos none, List.append_nil]
    refine ⟨first, ?_⟩
    rw [entered_eq]
    exact changed.settle spot same file new fun some_ => absurd none some_
  · rw [if_neg none]
    obtain ⟨second, whole⟩ := changed.release good attached spot same file none blank new fun b within => absurd within (nowhere b)
    rw [← entered_eq] at second whole
    refine ⟨fun k => prefixes_append (p := fun d => Good sectors total d ∧ Intact total name disk d) first second k, ?_⟩
    rw [after_append]
    exact whole

/-!
## Runs of the writer

Calls of the writer one after another, each of them complete or cut after any sector, in
the terms of the reader: its mount, its entries and what it reads.
-/

/-- The entry is a file of this name. -/
def HasName (v : Vol) (name : Nat -> Byte) (i : Nat) : Prop :=
  (entryGet v i).used = true ∧ ∀ j < nameBytes, entry v.dir i (1 + j) = name j

/-- The bitmap of a volume marks no block outside the metadata and the files. -/
def NoLeak (v : Vol) (disk : Disk) : Prop :=
  ∀ b, v.dataStart ≤ b -> b < v.totalBlocks -> bitGet (bitmap disk) b = true ->
    ∃ i < entries, (entryGet v i).used = true ∧ (entryGet v i).start ≤ b ∧ b < (entryGet v i).start + blocksOf (entryGet v i).size

/-- The name that a call is about. -/
def Call.name : Call -> Option (Nat -> Byte)
  | .write name _ _ _ => name
  | .delete name => name

/-- Both volumes mount, and the files of other names have the same entries and read the same. -/
def OthersKept (sectors : Nat) (name : Option (Nat -> Byte)) (disk after_ : Disk) : Prop :=
  ∃ v v', mount sectors disk = some v ∧ mount sectors after_ = some v' ∧
    ∀ i < entries, (entryGet v i).used = true -> (∀ file, name = some file -> ¬ HasName v file i) ->
      entryGet v' i = entryGet v i ∧ ∀ off len, read v' after_ i off len = read v disk i off len

/-- The bytes of a file from `off` on, at most `len` of them. -/
def slice (src : Nat -> Byte) (bytes off len : Nat) : List Byte := (List.range (min len (bytes - off))).map fun k => src (off + k)

/-- The effect of a call that ends with a code. -/
def Done (sectors : Nat) (c : Call) (code : Code) (after_ : Disk) : Prop :=
  ∃ v, mount sectors after_ = some v ∧
    match c with
    | .write name src size _ => code = .ok -> ∃ file, name = some file ∧ ∃ i < entries, HasName v file i ∧
        (entryGet v i).size = size.toNat ∧
        ∀ off len, read v after_ i off len = some (slice (src.getD fun _ => 0) size.toNat off len)
    | .delete name => code = .ok ∨ code = .notFound -> ∀ file, name = some file -> ∀ i < entries, ¬ HasName v file i

/-- No free entry of the directory is left for a file. -/
def NoSlot (v : Vol) (file : Nat -> Byte) : Prop := ∀ i < entries, (entryGet v i).used = true ∧ ¬ HasName v file i

/-- No run of so many free blocks is left. -/
def NoRun (v : Vol) (disk : Disk) (n : Nat) : Prop :=
  ∀ start, v.dataStart ≤ start -> start + n ≤ v.totalBlocks -> ∃ b, start ≤ b ∧ b < start + n ∧ bitGet (bitmap disk) b = true

/-- What a refused call means. -/
def Refused (sectors : Nat) (c : Call) (code : Code) (disk : Disk) : Prop :=
  match c with
  | .write name _ size _ => code = .full ->
      ∃ v file, mount sectors disk = some v ∧ name = some file ∧ (NoSlot v file ∨ NoRun v disk (blocksOf size.toNat))
  | .delete _ => code ≠ .full

/-! ## The reader's terms -/

theorem used_iff (i : Nat) : (entryGet (volOf total disk) i).used = true ↔ Used total disk i := by
  unfold entryGet
  dsimp only
  by_cases used : entry (volOf total disk).dir i 0 ≠ 1#8
  · rw [if_pos used]
    exact iff_of_false Bool.false_ne_true used
  · rw [if_neg used]
    exact iff_of_true rfl (not_not.mp used)

theorem entryGet_fields {i : Nat} (used : Used total disk i) : (entryGet (volOf total disk) i).start = entryStart (entryOf total disk i) ∧
    (entryGet (volOf total disk) i).size = entryBytes (entryOf total disk i) := by
  have there : ¬ entry (volOf total disk).dir i 0 ≠ 1#8 := not_not.mpr used
  unfold entryGet
  dsimp only
  rw [if_neg there]
  exact ⟨rfl, rfl⟩

theorem hasName_iff (name : Nat -> Byte) (i : Nat) : HasName (volOf total disk) name i ↔ Used total disk i ∧ Named total disk name i :=
  and_congr (used_iff i) Iff.rfl

theorem noLeak_iff : NoLeak (volOf total disk) disk ↔ Tight total disk := by
  have one : ∀ i b, ((entryGet (volOf total disk) i).used = true ∧ (entryGet (volOf total disk) i).start ≤ b ∧
      b < (entryGet (volOf total disk) i).start + blocksOf (entryGet (volOf total disk) i).size) ↔
      Used total disk i ∧ InFile (entryOf total disk i) b := by
    intro i b
    rw [used_iff]
    refine and_congr_right fun used => ?_
    obtain ⟨start, size⟩ := entryGet_fields used
    rw [start, size]
    exact Iff.rfl
  unfold NoLeak Tight
  refine forall_congr' fun b => forall_congr' fun _ => forall_congr' fun _ => forall_congr' fun _ => exists_congr fun i => and_congr_right fun _ => ?_
  exact one i b

theorem Good.othersKept (good : Good sectors total disk) (fine : Good sectors total after_) {name : Option (Nat -> Byte)}
    (intact : ∀ file, name = some file -> Intact total file disk after_) (still : name = none -> after_ = disk) :
    OthersKept sectors name disk after_ := by
  refine ⟨volOf total disk, volOf total after_, good.mount_eq, fine.mount_eq, fun i inside used other => ?_⟩
  have there := (used_iff i).mp used
  cases same : name with
  | none =>
    rw [still same]
    exact ⟨rfl, fun _ _ => rfl⟩
  | some file =>
    obtain ⟨agree, bytes⟩ := intact file same i inside there fun named => other file same ((hasName_iff file i).mpr ⟨there, named⟩)
    exact ⟨(read_congr agree bytes 0 0).1, fun off len => (read_congr agree bytes off len).2⟩

/-- The reader reads what a change wrote. -/
theorem Changed.reads {name src : Nat -> Byte} {index bytes time : Nat} {old : Writer.Old} {room : Writer.Room}
    (changed : Changed sectors total disk name index (entryFor name old room.start bytes time) room.start (blocksOf bytes)
      (Writer.padded src bytes) after_) (small : room.start < 2 ^ 32) (short : bytes < 2 ^ 32) :
    HasName (volOf total after_) name index ∧ (entryGet (volOf total after_) index).size = bytes ∧
      ∀ off len, read (volOf total after_) after_ index off len = some (slice src bytes off len) := by
  have self := changed.self
  have used : Used total after_ index := (self 0 (by decide)).symm.trans rfl
  obtain ⟨start, size⟩ := entryGet_fields used
  rw [← self.start, show entryStart (entryFor name old room.start bytes time) = room.start from newEntry_start small] at start
  rw [← self.bytes, show entryBytes (entryFor name old room.start bytes time) = bytes from newEntry_bytes short] at size
  refine ⟨(hasName_iff name index).mpr ⟨used, fun j inside => ?_⟩, size, fun off len => ?_⟩
  · rw [← self (1 + j) (by unfold nameBytes at inside; omega)]
    exact newEntry_name inside
  · have there := (used_iff index).mpr used
    unfold read slice
    dsimp only
    rw [if_neg (by rw [there]; decide), start, size]
    by_cases ended : off ≥ bytes
    · rw [if_pos ended, Nat.sub_eq_zero_of_le ended, Nat.min_zero]
      rfl
    rw [if_neg ended, readLoop_eq, Nat.sub_zero]
    have count : (if len > bytes - off then bytes - off else len) = min len (bytes - off) := by
      split
      · omega
      · omega
    rw [count]
    refine congrArg some (List.map_congr_left fun k member => ?_)
    have inside := List.mem_range.mp member
    have enough := le_blocksOf bytes
    have within : InRun room.start (blocksOf bytes) ((room.start * 512 + (off + 0) + k) / 512) := by
      constructor
      · omega
      · omega
    rw [changed.content _ within]
    have place : room.start * 512 + (off + 0) + k - room.start * 512 = off + k := by omega
    unfold Writer.padded
    rw [place, if_pos (by omega)]

/-- No file has the name of a deleted one. -/
theorem Changed.gone {name : Nat -> Byte} {index : Nat}
    (changed : Changed sectors total disk name index (fun _ => 0) 0 0 (fun _ => 0) after_) (spot : Spot total disk name index true) {i : Nat}
    (inside : i < entries) : ¬ HasName (volOf total after_) name i := by
  rw [hasName_iff]
  rintro ⟨used, named⟩
  by_cases here : i = index
  · rw [here] at used
    exact absurd ((changed.self 0 (by decide)).trans used) (by decide)
  · have agree := changed.others i inside here
    refine spot.others i inside here ((agree 0 (by decide)).trans used) fun j small => ?_
    exact (agree (1 + j) (by unfold nameBytes at small; omega)).trans (named j small)

/-! ## One call -/

/-- What holds of a call, sector by sector and as a whole. -/
structure CallOk (sectors total : Nat) (disk : Disk) (c : Call) (result : Code × List (Write Byte)) : Prop where
  good : ∀ k, Good sectors total (after sectorSize disk (result.2.take k))
  others : ∀ k, OthersKept sectors c.name disk (after sectorSize disk (result.2.take k))
  done : Done sectors c result.1 (after sectorSize disk result.2)
  nothing : result.1 = .args ∨ result.1 = .full -> result.2 = []
  refused : Refused sectors c result.1 disk
  tight : Tight total disk -> Tight total (after sectorSize disk result.2)

/-- A call that writes nothing. -/
theorem Good.idle (good : Good sectors total disk) {c : Call} {code : Code} (done : Done sectors c code disk)
    (refused : Refused sectors c code disk) : CallOk sectors total disk c (code, []) := by
  have same : ∀ k, after sectorSize disk (([] : List (Write Byte)).take k) = disk := fun k => by rw [List.take_nil, after_nil]
  refine ⟨fun k => ?_, fun k => ?_, done, fun _ => rfl, refused, fun tight => tight⟩
  · rw [same]
    exact good
  · rw [same]
    exact good.othersKept good (fun file _ => Intact.refl file disk) fun _ => rfl

/-- A call that ends with another code than success. -/
theorem Good.unchanged (good : Good sectors total disk) {name src : Option (Nat -> Byte)} {size time : Word} {code : Code}
    (other : code ≠ .ok) : Done sectors (.write name src size time) code disk :=
  ⟨volOf total disk, good.mount_eq, fun same => absurd same other⟩

theorem Good.writeFile (good : Good sectors total disk) (attached : Attached total w) (name src : Option (Nat -> Byte)) (size time : Word) :
    CallOk sectors total disk (.write name src size time) (w.writeFile disk name src size time) := by
  have args : CallOk sectors total disk (.write name src size time) (.args, []) :=
    good.idle (good.unchanged (fun same => Code.noConfusion same)) fun same => Code.noConfusion same
  unfold Writer.writeFile
  cases name with
  | none => exact args
  | some file =>
    dsimp only
    by_cases bad : w.mounted = false ∨ nameValid (some file) = false ∨ size ≠ 0 ∧ src = none
    · rw [if_pos bad]
      exact args
    rw [if_neg bad]
    by_cases big : blocksOf size.toNat ≥ 8388608
    · rw [if_pos big]
      exact args
    rw [if_neg big, attached.dirLoad]
    have valid : nameValid (some file) = true := by
      by_contra wrong
      exact bad (.inr (.inl (Bool.not_eq_true _ ▸ wrong)))
    have full : (∀ i < entries, Used total disk i ∧ ¬ Named total disk file i) ∨
        (∀ start, dataStart total ≤ start -> start + blocksOf size.toNat ≤ total ->
          ∃ b, InRun start (blocksOf size.toNat) b ∧ bitGet (bitmap disk) b = true) ->
        CallOk sectors total disk (.write (some file) src size time) (.full, []) := by
      intro reason
      refine good.idle (good.unchanged (fun same => Code.noConfusion same)) fun _ => ⟨volOf total disk, file, good.mount_eq, rfl, ?_⟩
      rcases reason with slots | runs
      · exact .inl fun i inside => ⟨(used_iff i).mpr (slots i inside).1, fun named => (slots i inside).2 ((hasName_iff file i).mp named).2⟩
      · refine .inr fun start low high => ?_
        obtain ⟨b, within, set⟩ := runs start low high
        exact ⟨b, within.1, within.2, set⟩
    cases chosen : (Writer.find (directory total disk) file).or (Writer.findFree (directory total disk)) with
    | none =>
      obtain ⟨missing, taken⟩ := Option.or_eq_none_iff.mp chosen
      refine full (.inl fun i inside => ?_)
      have used : Used total disk i := by
        rcases good.kinds i inside with zero | ok
        · have free := List.find?_eq_none.mp taken i (List.mem_range.mpr inside)
          exact absurd (decide_eq_true (zero 0 (by decide))) free
        · exact ok.1
      exact ⟨used, find_none missing inside used⟩
    | some index =>
      have spot : Spot total disk file index (Writer.find (directory total disk) file).isSome := by
        cases found : Writer.find (directory total disk) file with
        | some there =>
          rw [found, Option.some_or] at chosen
          rw [← Option.some.inj chosen]
          exact good.spot_found found
        | none =>
          rw [found, Option.none_or] at chosen
          exact spot_free found chosen
      have file_ : OldFile total disk index
          (Writer.old (directory total disk) (Writer.find (directory total disk) file).isSome index time.toNat) := old_spec _ _ _
      dsimp only
      cases place : w.room disk (Writer.old (directory total disk) (Writer.find (directory total disk) file).isSome index time.toNat)
          (blocksOf size.toNat) with
      | none => exact full (.inr fun start low high => attached.no_room place low high)
      | some room =>
        have fits := good.fits attached spot rfl file_ place
        obtain ⟨_, _, bound⟩ := good.bounds
        have small : room.start < 2 ^ 32 := by
          by_cases empty : blocksOf size.toNat = 0
          · rw [fits.none empty]
            decide
          · exact Nat.lt_of_le_of_lt (Nat.le_trans (Nat.le_add_right _ _) (fits.placed empty).2) bound
        obtain ⟨along, changed⟩ := fits.write good attached (src.getD fun _ => 0) time.toNat spot rfl file_ valid size.isLt
        obtain ⟨named, long, reads⟩ := changed.reads small size.isLt
        refine ⟨fun k => (along k).1, fun k => good.othersKept (along k).1 (fun other same => ?_) fun none => absurd none (Option.some_ne_none _),
          ⟨volOf total _, changed.good.mount_eq, fun _ => ⟨file, rfl, index, spot.inside, named, long, reads⟩⟩, ?_,
          fun wrong => Code.noConfusion wrong, changed.tight⟩
        · rw [← Option.some.inj same]
          exact (along k).2
        · rintro (wrong | wrong)
          · cases wrong
          · cases wrong

theorem Good.deleteFile (good : Good sectors total disk) (attached : Attached total w) (name : Option (Nat -> Byte)) :
    CallOk sectors total disk (.delete name) (w.deleteFile disk name) := by
  unfold Writer.deleteFile
  cases name with
  | none =>
    exact good.idle ⟨volOf total disk, good.mount_eq, fun _ file same => absurd same.symm (Option.some_ne_none _)⟩ fun same => Code.noConfusion same
  | some file =>
    dsimp only
    rw [if_neg (by rw [attached.mounted]; decide), attached.dirLoad]
    cases found : Writer.find (directory total disk) file with
    | none =>
      refine good.idle ⟨volOf total disk, good.mount_eq, fun _ other same i inside named => ?_⟩ fun same => Code.noConfusion same
      rw [← Option.some.inj same] at named
      obtain ⟨used, letters⟩ := (hasName_iff file i).mp named
      exact find_none found inside used letters
    | some index =>
      have spot := good.spot_found found
      have file_ : OldFile total disk index (Writer.old (directory total disk) true index 0) := old_spec _ _ _
      obtain ⟨along, changed⟩ := good.delete attached spot file_ rfl
      refine ⟨fun k => (along k).1, fun k => good.othersKept (along k).1 (fun other same => ?_) fun none => absurd none (Option.some_ne_none _),
        ⟨volOf total _, changed.good.mount_eq, fun _ other same i inside => ?_⟩, ?_, fun wrong => Code.noConfusion wrong, changed.tight⟩
      · rw [← Option.some.inj same]
        exact (along k).2
      · rw [← Option.some.inj same]
        exact changed.gone spot inside
      · rintro (wrong | wrong)
        · cases wrong
        · cases wrong

theorem Good.call (good : Good sectors total disk) (attached : Attached total w) (c : Call) :
    CallOk sectors total disk c (w.call disk c) := by
  cases c with
  | write name src size time => exact good.writeFile attached name src size time
  | delete name => exact good.deleteFile attached name

/-! ## Runs -/

/-- A call that is complete or is cut after some of its sectors. -/
def Writer.step (w : Writer) (disk : Disk) (c : Call × Option Nat) : Disk :=
  match c.2 with
  | none => after sectorSize disk (w.call disk c.1).2
  | some k => after sectorSize disk ((w.call disk c.1).2.take k)

/-- The disk after some calls. -/
def Writer.steps (w : Writer) (disk : Disk) (calls : List (Call × Option Nat)) : Disk := calls.foldl w.step disk

theorem Good.step (good : Good sectors total disk) (attached : Attached total w) (c : Call × Option Nat) :
    Good sectors total (w.step disk c) := by
  have ok := good.call attached c.1
  unfold Writer.step
  cases c.2 with
  | none => exact of_prefixes ok.good
  | some k => exact ok.good k

theorem Good.steps (good : Good sectors total disk) (attached : Attached total w) (calls : List (Call × Option Nat)) :
    Good sectors total (w.steps disk calls) := by
  unfold Writer.steps
  induction calls generalizing disk with
  | nil => exact good
  | cons c calls ih => exact ih (good.step attached c)

theorem Good.steps_tight (good : Good sectors total disk) (attached : Attached total w) (tight : Tight total disk) {calls : List (Call × Option Nat)}
    (complete : ∀ c ∈ calls, c.2 = none) : Tight total (w.steps disk calls) := by
  unfold Writer.steps
  induction calls generalizing disk with
  | nil => exact tight
  | cons c calls ih =>
    refine ih (good.step attached c) ?_ fun other member => complete other (List.mem_cons_of_mem _ member)
    have whole : w.step disk c = after sectorSize disk (w.call disk c.1).2 := by
      unfold Writer.step
      rw [complete c List.mem_cons_self]
    rw [whole]
    exact (good.call attached c.1).tight tight

/-- After any calls, complete or cut, a further call keeps the volume mountable and the other
files intact after each of its sectors; a complete one does what it says, a refused one
writes nothing and is refused with a reason, and complete calls leak no block. -/
theorem writer_keeps_volumes (sectors : Nat) (disk : Disk) (v : Vol) (mounted : mount sectors disk = some v) (tight : NoLeak v disk)
    (calls : List (Call × Option Nat)) (c : Call) :
    (∀ k, OthersKept sectors c.name ((attach disk).2.steps disk calls)
      (after sectorSize ((attach disk).2.steps disk calls) (((attach disk).2.call ((attach disk).2.steps disk calls) c).2.take k))) ∧
      Done sectors c ((attach disk).2.call ((attach disk).2.steps disk calls) c).1
        ((attach disk).2.steps disk (calls ++ [(c, none)])) ∧
      (((attach disk).2.call ((attach disk).2.steps disk calls) c).1 = .args ∨
          ((attach disk).2.call ((attach disk).2.steps disk calls) c).1 = .full ->
        ((attach disk).2.call ((attach disk).2.steps disk calls) c).2 = []) ∧
      Refused sectors c ((attach disk).2.call ((attach disk).2.steps disk calls) c).1 ((attach disk).2.steps disk calls) ∧
      ((∀ done ∈ calls, done.2 = none) -> ∃ v', mount sectors ((attach disk).2.steps disk (calls ++ [(c, none)])) = some v' ∧
        NoLeak v' ((attach disk).2.steps disk (calls ++ [(c, none)]))) := by
  have good : Good sectors (totalBlocks disk) disk := mount_isSome.mp (by rw [mounted]; rfl)
  have same : v = volOf (totalBlocks disk) disk := Option.some.inj (mounted.symm.trans good.mount_eq)
  rw [same, noLeak_iff] at tight
  have attached := good.attach.2
  have before := good.steps attached calls
  have ok := before.call attached c
  have last : (attach disk).2.steps disk (calls ++ [(c, none)]) = after sectorSize ((attach disk).2.steps disk calls)
      ((attach disk).2.call ((attach disk).2.steps disk calls) c).2 := by
    unfold Writer.steps
    rw [List.foldl_append]
    rfl
  rw [last]
  refine ⟨ok.others, ok.done, ok.nothing, ok.refused, fun complete => ⟨volOf (totalBlocks disk) _, (of_prefixes ok.good).mount_eq, ?_⟩⟩
  rw [noLeak_iff]
  exact ok.tight (good.steps_tight attached tight complete)

/-! ## A small volume -/

/-- The end of the boot sector and the superblock of an empty volume of 20 blocks. -/
def smallHeader : List Byte :=
  [0x55, 0xAA, 0x44, 0x53, 0x46, 0x53, 0, 1, 0, 0, 0, 0, 0, 20, 0, 0, 0, 2, 0, 0, 0, 1, 0, 0, 0, 3, 0, 0, 0, 16, 0, 0, 0, 19]

def smallVolume : Disk := fun a =>
  if 510 ≤ a ∧ a < 544 then smallHeader.getD (a - 510) 0
  else if a = 1024 ∨ a = 1025 then 0xFF
  else if a = 1026 then 0xE0
  else 0

theorem smallVolume_zero {a : Nat} (outside : 544 ≤ a ∧ a < 1024 ∨ 1027 ≤ a) : smallVolume a = 0 := by
  unfold smallVolume
  rw [if_neg (by omega), if_neg (by omega), if_neg (by omega)]

theorem smallVolume_good : Good 20 20 smallVolume := by
  have blank : ∀ i, AllZero (entryOf 20 smallVolume i) 32 := by
    intro i j _
    refine smallVolume_zero (.inr ?_)
    show 1027 ≤ 3 * 512 + (i * 32 + j)
    omega
  have header : HeaderOk 20 smallVolume := by
    refine ⟨by decide, by decide, by decide, by decide, by decide, by decide, by decide, by decide, by decide, by decide, by decide,
      by decide, fun i inside => smallVolume_zero (.inl ?_)⟩
    show 544 ≤ 512 + (0x24 + i) ∧ 512 + (0x24 + i) < 1024
    omega
  refine ⟨header, by decide, by decide, fun b _ beyond => ?_, fun i _ => .inl (blank i),
    fun i _ k _ _ used => absurd used (blank i).unused, fun i _ k _ _ used => absurd used (blank i).unused⟩
  by_cases near : b < 24
  · have all : ∀ b < 24, 20 ≤ b -> bitGet (bitmap smallVolume) b = false := by decide
    exact all b near beyond
  · rw [bitGet_eq]
    have zero : bitmap smallVolume (b / 8) = 0 := by
      refine smallVolume_zero (.inr ?_)
      show 1027 ≤ 2 * 512 + b / 8
      omega
    rw [zero]
    exact BitVec.getLsbD_zero

theorem smallVolume_tight : Tight 20 smallVolume := by
  intro b low high set
  have all : ∀ b < 20, dataStart 20 ≤ b -> bitGet (bitmap smallVolume) b = false := by decide
  exact absurd (set.symm.trans (all b high low)) (by decide)

/-- A file is written to the small volume. -/
def smallCall : Call := .write (some fun i => if i = 0 then 0x41 else 0x20) (some fun _ => 0x2A) 5 0

theorem writer_keeps_small_volume :
    ∃ v, mount 20 ((attach smallVolume).2.steps smallVolume ([] ++ [(smallCall, none)])) = some v ∧
      NoLeak v ((attach smallVolume).2.steps smallVolume ([] ++ [(smallCall, none)])) :=
  (writer_keeps_volumes 20 smallVolume _ smallVolume_good.mount_eq (noLeak_iff.mpr smallVolume_tight) [] smallCall).2.2.2.2
    fun _ member => absurd member List.not_mem_nil

end Src32.Fs.Dsfs
