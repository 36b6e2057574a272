import Src32.Fs.DsfsWrites

namespace Src32.Fs.Dsfs

open SectorWrites

/-!
# Room for a file

The entry and the blocks that the writer chooses.  The blocks are free, or they are old
blocks of the file itself.
-/

variable {sectors total : Nat} {disk : Disk} {w : Writer}

/-! ## Names -/

variable {name : Nat -> Byte} {index i : Nat} {old : Writer.Old} {required : Bool} {f : List Byte}

theorem padding_loop {found : Bool} (valid : nameFieldLoop required f true found = true) :
    f.all (· = 0x20#8) = true ∧ (found || !required) = true := by
  induction f with
  | nil => exact ⟨rfl, valid⟩
  | cons c rest ih =>
    unfold nameFieldLoop at valid
    by_cases blank : c = 0x20#8
    · rw [if_pos blank] at valid
      obtain ⟨all, some_⟩ := ih valid
      refine ⟨?_, some_⟩
      rw [List.all_cons, all, decide_eq_true blank]
      rfl
    · rw [if_neg blank, if_pos (by rfl)] at valid
      cases valid

theorem name_loop {found : Bool} (valid : nameFieldLoop required f false found = true) :
    (f.takeWhile (· ≠ 0x20#8)).all nameChar = true ∧ (f.dropWhile (· ≠ 0x20#8)).all (· = 0x20#8) = true ∧
      (found = true ∨ required = false ∨ 1 ≤ (f.takeWhile (· ≠ 0x20#8)).length) := by
  induction f generalizing found with
  | nil =>
    refine ⟨rfl, rfl, ?_⟩
    unfold nameFieldLoop at valid
    cases found with
    | true => exact .inl rfl
    | false =>
      cases required with
      | true => cases valid
      | false => exact .inr (.inl rfl)
  | cons c rest ih =>
    unfold nameFieldLoop at valid
    by_cases blank : c = 0x20#8
    · rw [if_pos blank] at valid
      obtain ⟨all, some_⟩ := padding_loop valid
      have other : ¬ decide (c ≠ 0x20#8) = true := fun differs => of_decide_eq_true differs blank
      rw [List.takeWhile_cons_of_neg (p := fun x : Byte => decide (x ≠ 0x20#8)) other,
        List.dropWhile_cons_of_neg (p := fun x : Byte => decide (x ≠ 0x20#8)) other]
      refine ⟨rfl, ?_, ?_⟩
      · rw [List.all_cons, all, decide_eq_true blank]
        rfl
      · rcases Bool.or_eq_true_iff.mp some_ with found | free
        · exact .inl found
        · exact .inr (.inl (Bool.not_eq_true' _ ▸ free))
    · rw [if_neg blank, Bool.false_or] at valid
      by_cases letter : nameChar c = true
      · rw [letter, if_neg (by decide)] at valid
        obtain ⟨all, rest_, _⟩ := ih valid
        rw [List.takeWhile_cons_of_pos (p := fun x : Byte => decide (x ≠ 0x20#8)) (decide_eq_true blank),
          List.dropWhile_cons_of_pos (p := fun x : Byte => decide (x ≠ 0x20#8)) (decide_eq_true blank)]
        refine ⟨?_, rest_, .inr (.inr (Nat.succ_pos _))⟩
        rw [List.all_cons, letter, all]
        rfl
      · rw [Bool.not_eq_true] at letter
        rw [letter, if_pos (by decide)] at valid
        cases valid

/-- The fields of the writer's names pass the reader's tests. -/
theorem fieldOk_of_valid (valid : nameFieldValid f required = true) :
    fieldOk f (if required then 1 else 0) = true := by
  obtain ⟨all, rest, some_⟩ := name_loop valid
  unfold fieldOk
  refine decide_eq_true ⟨all, ?_, rest⟩
  rcases some_ with found | free | long
  · cases found
  · rw [free]
    exact Nat.zero_le _
  · split
    · exact long
    · exact Nat.zero_le _

theorem nameValid_some (valid : nameValid (some name) = true) :
    fieldOk (field name 8) 1 = true ∧ fieldOk (field (behind name 8) 3) 0 = true := by
  unfold nameValid at valid
  obtain ⟨first, second⟩ := Bool.and_eq_true_iff.mp valid
  exact ⟨fieldOk_of_valid first, fieldOk_of_valid second⟩

/-! ## The entry -/

/-- The name of an entry. -/
def Named (total : Nat) (disk : Disk) (name : Nat -> Byte) (i : Nat) : Prop := ∀ j < nameBytes, entryOf total disk i (1 + j) = name j

/-- The entry that a file of this name has or gets. -/
structure Spot (total : Nat) (disk : Disk) (name : Nat -> Byte) (index : Nat) (existed : Bool) : Prop where
  inside : index < entries
  here : existed = true -> Used total disk index ∧ Named total disk name index
  free : existed = false -> ¬ Used total disk index
  others : ∀ i < entries, i ≠ index -> Used total disk i -> ¬ Named total disk name i

theorem find_some {dir : Nat -> Byte} (found : Writer.find dir name = some i) :
    i < entries ∧ entry dir i 0 = 1#8 ∧ ∀ j < nameBytes, entry dir i (1 + j) = name j := by
  unfold Writer.find at found
  refine ⟨List.mem_range.mp (List.mem_of_find?_eq_some found), ?_⟩
  have tested := List.find?_some found
  exact of_decide_eq_true tested

theorem find_none {dir : Nat -> Byte} (missing : Writer.find dir name = none) (inside : i < entries)
    (used : entry dir i 0 = 1#8) : ¬ ∀ j < nameBytes, entry dir i (1 + j) = name j := by
  unfold Writer.find at missing
  intro same
  exact List.find?_eq_none.mp missing i (List.mem_range.mpr inside) (decide_eq_true ⟨used, same⟩)

/-- No two files have one name. -/
theorem Good.one_name (good : Good sectors total disk) {k : Nat} (inside : i < entries) (within : k < entries)
    (used : Used total disk i) (other : Used total disk k) (first : Named total disk name i)
    (second : Named total disk name k) :
    i = k := by
  by_contra differs
  exact good.names i inside k within differs used other fun j small => (first j small).trans (second j small).symm

theorem Good.spot_found (good : Good sectors total disk)
    (found : Writer.find (directory total disk) name = some index) : Spot total disk name index true := by
  obtain ⟨inside, used, named⟩ := find_some found
  refine ⟨inside, fun _ => ⟨used, named⟩, fun wrong => Bool.noConfusion wrong, fun i within differs other same => ?_⟩
  exact differs (good.one_name within inside other used same named)

theorem spot_free (missing : Writer.find (directory total disk) name = none)
    (free : Writer.findFree (directory total disk) = some index) : Spot total disk name index false := by
  unfold Writer.findFree at free
  have tested := List.find?_some free
  have zero : entryOf total disk index 0 = 0#8 := of_decide_eq_true tested
  refine ⟨List.mem_range.mp (List.mem_of_find?_eq_some free), fun wrong => Bool.noConfusion wrong, fun _ used => ?_,
    fun i within _ used same => find_none missing within used same⟩
  exact absurd (zero.symm.trans used) (by decide)

/-! ## The blocks -/

/-- A run of blocks. -/
def InRun (start n b : Nat) : Prop := start ≤ b ∧ b < start + n

/-- What is known of the old file. -/
structure OldFile (total : Nat) (disk : Disk) (index : Nat) (old : Writer.Old) : Prop where
  there : old.existed = true -> old.start = entryStart (entryOf total disk index) ∧ old.size = entryBytes (entryOf total disk index)
  none : old.existed = false -> old.size = 0

theorem old_spec (index time : Nat) (existed : Bool) :
    OldFile total disk index (Writer.old (directory total disk) existed index time) := by
  unfold Writer.old
  constructor
  · rintro rfl
    exact ⟨rfl, rfl⟩
  · rintro rfl
    rfl

theorem OldFile.existed (file : OldFile total disk index old) (some_ : old.blocks ≠ 0) :
    old.existed = true := by
  by_contra none
  exact some_ (blocksOf_zero.mpr (file.none (Bool.not_eq_true _ ▸ none)))

theorem OldFile.inFile {b : Nat} (file : OldFile total disk index old) (some_ : old.blocks ≠ 0) :
    InRun old.start old.blocks b ↔ InFile (entryOf total disk index) b := by
  obtain ⟨start, size⟩ := file.there (file.existed some_)
  unfold InRun InFile entryBlocks Writer.Old.blocks
  rw [start, size]

/-- The blocks that a file gets. -/
structure Fits (total : Nat) (disk : Disk) (w : Writer) (index : Nat) (old : Writer.Old) (n : Nat) (room : Writer.Room) : Prop where
  none : n = 0 -> room.start = 0
  placed : n ≠ 0 -> dataStart total ≤ room.start ∧ room.start + n ≤ total
  others : ∀ i < entries, i ≠ index -> Used total disk i -> ∀ b, InRun room.start n b -> ¬ InFile (entryOf total disk i) b
  writes : room.writes = [] ∧ (∀ b, InRun room.start n b -> bitGet (bitmap disk) b = true) ∨
    room.writes = w.bitmapSave (w.setRun (bitmap disk) room.start n)
  reused : room.reused = true -> old.blocks ≠ 0 ∧ n ≤ old.blocks ∧ room.start = old.start
  fresh : room.reused = false -> ∀ b, InRun room.start n b -> old.blocks ≠ 0 -> ¬ InRun old.start old.blocks b

theorem Good.fits (good : Good sectors total disk) (attached : Attached total w) {n : Nat} {existed : Bool}
    (spot : Spot total disk name index existed) (same : old.existed = existed) (file : OldFile total disk index old)
    {room : Writer.Room} (found : w.room disk old n = some room) : Fits total disk w index old n room := by
  have usedHere : old.blocks ≠ 0 -> Used total disk index := fun some_ => (spot.here (same ▸ file.existed some_)).1
  unfold Writer.room at found
  by_cases empty : n = 0
  · rw [if_pos empty] at found
    rw [← Option.some.inj found, empty]
    have nowhere : ∀ b, ¬ InRun 0 0 b := fun b within => absurd within.2 (Nat.not_lt.mpr within.1)
    refine ⟨fun _ => rfl, fun more => absurd rfl more, fun _ _ _ _ b within => absurd within (nowhere b), .inl ⟨rfl, fun b within => ?_⟩,
      fun wrong => Bool.noConfusion wrong, fun _ b within => absurd within (nowhere b)⟩
    exact absurd within (nowhere b)
  rw [if_neg empty] at found
  by_cases again : old.blocks ≠ 0 ∧ n ≤ old.blocks
  · rw [if_pos again] at found
    rw [← Option.some.inj found]
    have part : ∀ b, InRun old.start n b -> InFile (entryOf total disk index) b := fun b within =>
      (file.inFile again.1).mp ⟨within.1, Nat.lt_of_lt_of_le within.2 (Nat.add_le_add_left again.2 _)⟩
    have used := usedHere again.1
    have ok := good.usedOk spot.inside used
    refine ⟨fun none => absurd none empty, fun _ => ?_, fun i inside differs other b within => ?_, .inl ⟨rfl, fun b within => ok.bit (part b within)⟩,
      fun _ => ⟨again.1, again.2, rfl⟩, fun wrong => Bool.noConfusion wrong⟩
    · obtain ⟨start, size⟩ := file.there (file.existed again.1)
      have blocks : old.blocks = entryBlocks (entryOf total disk index) := congrArg blocksOf size
      obtain ⟨low, high⟩ := ok.inside (blocks ▸ again.1)
      rw [← start, ← blocks] at high
      rw [← start] at low
      exact ⟨low, Nat.le_trans (Nat.add_le_add_left again.2 _) high⟩
    · exact good.apart index spot.inside i inside (Ne.symm differs) used other b (part b within)
  rw [if_neg again] at found
  by_cases big : n > w.total - w.dataStart
  · rw [if_pos big] at found
    cases found
  rw [if_neg big] at found
  obtain ⟨start, search, made⟩ := Option.map_eq_some_iff.mp found
  rw [← made]
  rw [attached.size, attached.dataFirst] at big
  rw [attached.size, attached.dataFirst, attached.bitmapLoad] at search
  have member := List.mem_range'_1.mp (List.mem_of_find?_eq_some search)
  have tested := List.find?_some search
  have clear : ∀ j < n, w.bmGet (bitmap disk) (start + j) = false := of_decide_eq_true tested
  obtain ⟨first, _, _⟩ := good.bounds
  have bits : ∀ b, InRun start n b -> ¬ bitGet (bitmap disk) b = true := by
    intro b within set
    obtain ⟨low, high⟩ := within
    have unset := clear (b - start) (by omega)
    rw [Nat.add_sub_cancel' low, bmGet_eq, attached.size] at unset
    exact of_decide_eq_false unset ⟨by omega, set⟩
  refine ⟨fun none => absurd none empty, fun _ => ⟨member.1, by show start + n ≤ total; omega⟩, fun i inside _ other b within part => ?_, .inr ?_,
    fun wrong => Bool.noConfusion wrong, fun _ b within some_ part => ?_⟩
  · exact bits b within ((good.usedOk inside other).bit part)
  · show w.bitmapSave (w.setRun (w.bitmapLoad disk) start n) = w.bitmapSave (w.setRun (bitmap disk) start n)
    rw [attached.bitmapLoad]
  · exact bits b within ((good.usedOk spot.inside (usedHere some_)).bit ((file.inFile some_).mp part))

/-- Without blocks there is no run of free ones. -/
theorem Attached.no_room (attached : Attached total w) {n : Nat} (full : w.room disk old n = none) {start : Nat}
    (low : dataStart total ≤ start) (high : start + n ≤ total) :
    ∃ b, InRun start n b ∧ bitGet (bitmap disk) b = true := by
  unfold Writer.room at full
  by_cases empty : n = 0
  · rw [if_pos empty] at full
    cases full
  rw [if_neg empty] at full
  by_cases again : old.blocks ≠ 0 ∧ n ≤ old.blocks
  · rw [if_pos again] at full
    cases full
  rw [if_neg again] at full
  have small : ¬ n > w.total - w.dataStart := by
    rw [attached.size, attached.dataFirst]
    omega
  rw [if_neg small, Option.map_eq_none_iff, attached.size, attached.dataFirst, attached.bitmapLoad] at full
  have member : start ∈ List.range' (dataStart total) (total - n + 1 - dataStart total) := List.mem_range'_1.mpr (by omega)
  have taken := List.find?_eq_none.mp full start member
  unfold Writer.freeRun at taken
  rw [decide_eq_true_eq] at taken
  obtain ⟨j, rest⟩ := not_forall.mp taken
  obtain ⟨inside, marked⟩ := not_forall.mp rest
  rw [bmGet_eq] at marked
  have set := of_decide_eq_true (Bool.eq_true_of_not_eq_false marked)
  exact ⟨start + j, ⟨Nat.le_add_right .., Nat.add_lt_add_left inside _⟩, set.2⟩

end Src32.Fs.Dsfs
