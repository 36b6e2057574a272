import Src32.Lib.Runs
import Src32.Libfnd.NameKeys

namespace Src32.Fs

open Libfnd

/-!
# The index of a directory

`dir_index_get` and `dir_find` of `fs2.c`.  Up to four directories have an index of
the folded hashes of their entries; a change of the volume drops them all before
it writes.
-/

/-- An entry of a directory; a free one has inode number 0. -/
structure Dirent where
  ino : Nat
  name : List Byte

/-- `FS2_NAME_MAX_BYTES`. -/
def nameMaxBytes : Nat := 1024

/-- One `fs2_dir_index` in use: hashes and slots. -/
structure DirIndex where
  dir : Nat
  keys : List (Word × Nat)
  freeSlot : Nat
  age : Word

/-- `FS2_DIRIDX`. -/
def dirIdx : Nat := 4

/-- The directories on the media and their indices. -/
structure Directories where
  dirs : Nat -> Option (List Dirent)
  index : Nat -> Option DirIndex
  clock : Word

/-- What fails in one call. -/
structure Failures where
  inode : Bool
  memory : Bool
  scan : Nat -> Bool
  entry : Nat -> Bool

inductive Found where
  | found (slot : Nat) (d : Dirent)
  | notFound (slot : Nat)
  | notDir
  | io
  | noMemory

/-- `dirent_read`: nothing for an error. -/
def direntRead (slots : List Dirent) (fails : Nat -> Bool) (s : Nat) : Option Dirent :=
  match slots[s]? with
  | none => none
  | some d =>
    if fails s then none
    else if d.ino = 0 then some d
    else if d.name.length = 0 ∨ d.name.length > nameMaxBytes then none
    else some d

section Index

variable (t : Casefold)

/-- One round of the scan: an entry's hash, or the first free slot. -/
def indexEntry (slots : List Dirent) (fails : Nat -> Bool) (x : List (Word × Nat) × Nat) (s : Nat) :
    Option (List (Word × Nat) × Nat) :=
  match direntRead slots fails s with
  | none => none
  | some d =>
    if d.ino = 0 then some (x.1, if x.2 = slots.length then s else x.2)
    else some (x.1 ++ [(t.nameKeyHash d.name, s)], x.2)

/-- The scan of `dir_index_get`. -/
def indexScan (slots : List Dirent) (fails : Nat -> Bool) : Option (List (Word × Nat) × Nat) :=
  (List.range slots.length).foldlM (indexEntry t slots fails) ([], slots.length)

/-- One round of the search for an index, or for the one to give up. -/
def indexVisit (v : Directories) (dir : Nat) (s : Option Nat × Nat) (i : Nat) : Option Nat × Nat :=
  match s.1 with
  | some _ => s
  | none =>
    match v.index i with
    | none => (none, i)
    | some c =>
      if c.dir = dir then (some i, s.2)
      else
        match v.index s.2 with
        | none => s
        | some victim => if c.age < victim.age then (none, i) else s

/-- `dir_index_get`: an index, or the error. -/
def dirIndexGet (v : Directories) (dir : Nat) (slots : List Dirent) (fails : Failures) :
    Except Found DirIndex × Directories :=
  match (List.range dirIdx).foldl (indexVisit v dir) (none, 0) with
  | (some i, _) =>
    match v.index i with
    | none => (.error .io, v)
    | some x =>
      let x := { x with age := v.clock + 1 }
      (.ok x, { v with index := Function.update v.index i (some x), clock := v.clock + 1 })
  | (none, victim) =>
    let v := { v with index := Function.update v.index victim none }
    if fails.memory then (.error .noMemory, v)
    else
      match indexScan t slots fails.scan with
      | none => (.error .io, v)
      | some (keys, freeSlot) =>
        let x : DirIndex := ⟨dir, keys, freeSlot, v.clock + 1⟩
        (.ok x, { v with index := Function.update v.index victim (some x), clock := v.clock + 1 })

/-- The loop of `dir_find` over the index. -/
def findKey (slots : List Dirent) (fails : Nat -> Bool) (name : List Byte) (freeSlot : Nat) : List (Word × Nat) -> Found
  | [] => .notFound freeSlot
  | (hash, s) :: rest =>
    if hash ≠ t.nameKeyHash name then findKey slots fails name freeSlot rest
    else
      match direntRead slots fails s with
      | none => .io
      | some d =>
        if d.ino ≠ 0 ∧ t.nameKeyEqual d.name name = true then .found s d
        else findKey slots fails name freeSlot rest

/-- `dir_find`. -/
def dirFind (v : Directories) (dir : Nat) (name : List Byte) (fails : Failures) : Found × Directories :=
  if fails.inode then (.io, v)
  else
    match v.dirs dir with
    | none => (.notDir, v)
    | some slots =>
      match dirIndexGet t v dir slots fails with
      | (.error error, v) => (error, v)
      | (.ok x, v) => (findKey t slots fails.entry name x.freeSlot x.keys, v)

end Index

/-- `dir_index_drop`. -/
def Directories.drop (v : Directories) : Directories := { v with index := fun _ => none }

/-! ## A linear scan -/

section Linear

variable (t : Casefold)

/-- The slot holds an entry of that name. -/
def holds (slots : List Dirent) (name : List Byte) (s : Nat) : Bool :=
  match slots[s]? with
  | none => false
  | some d => decide (d.ino ≠ 0) && t.nameKeyEqual d.name name

def isFree (slots : List Dirent) (s : Nat) : Bool :=
  match slots[s]? with
  | none => false
  | some d => decide (d.ino = 0)

/-- The first free slot, or the number of slots. -/
def firstFree (slots : List Dirent) : Nat := ((List.range slots.length).find? (isFree slots)).getD slots.length

/-- The first entry of that name. -/
def linearFind (slots : List Dirent) (name : List Byte) : Found :=
  match (List.range slots.length).find? (holds t slots name) with
  | none => .notFound (firstFree slots)
  | some s => .found s (slots.getD s ⟨0, []⟩)

end Linear

/-! ## Runs -/

/-- What happens to a volume: a lookup, or a change of directories. -/
inductive DirAction where
  | find (dir : Nat) (name : List Byte) (fails : Failures)
  | change (dirs : Nat -> Option (List Dirent))

/-- The runs from the mount on, which begins with no index. -/
def lookups (t : Casefold) : System Directories DirAction where
  initial := fun v => ∀ i, v.index i = none
  step := fun first action second =>
    match action with
    | .find dir name fails => second = (dirFind t first dir name fails).2
    | .change dirs => second = { first.drop with dirs := dirs }

/-- An index is what the scan of its directory gives. -/
def Indexed (t : Casefold) (v : Directories) (x : DirIndex) : Prop :=
  ∃ slots fails, v.dirs x.dir = some slots ∧ indexScan t slots fails = some (x.keys, x.freeSlot)

def Current (t : Casefold) (v : Directories) : Prop := ∀ i x, v.index i = some x -> Indexed t v x

section Proofs

variable {t : Casefold} {v : Directories}

variable {slots : List Dirent} {fails : Nat -> Bool} {dir : Nat}

/-- Of the entry that was read. -/
theorem direntRead_some {s : Nat} {d : Dirent} (read : direntRead slots fails s = some d) : slots[s]? = some d := by
  unfold direntRead at read
  cases here : slots[s]? with
  | none =>
    rw [here] at read
    cases read
  | some e =>
    rw [here] at read
    dsimp only at read
    split_ifs at read
    · exact read
    · exact read

/-- The used entries of the slots of a list, with their hashes. -/
def keysOf (t : Casefold) (slots : List Dirent) (range : List Nat) : List (Word × Nat) :=
  range.filterMap fun s =>
    match slots[s]? with
    | none => none
    | some d => if d.ino = 0 then none else some (t.nameKeyHash d.name, s)

theorem indexScan_spec {keys : List (Word × Nat)} {freeSlot : Nat}
    (done : indexScan t slots fails = some (keys, freeSlot)) :
    keys = keysOf t slots (List.range slots.length) ∧ freeSlot = firstFree slots := by
  have rounds : ∀ n ≤ slots.length, ∀ x, (List.range n).foldlM (indexEntry t slots fails) ([], slots.length) = some x ->
      x.1 = keysOf t slots (List.range n) ∧ x.2 = ((List.range n).find? (isFree slots)).getD slots.length := by
    intro n
    induction n with
    | zero =>
      intro _ x same
      cases same
      exact ⟨rfl, rfl⟩
    | succ n ih =>
      intro most x same
      rw [List.range_succ, List.foldlM_append] at same
      cases before : (List.range n).foldlM (indexEntry t slots fails) ([], slots.length) with
      | none =>
        rw [before] at same
        cases same
      | some y =>
        obtain ⟨first, second⟩ := ih (by omega) y before
        rw [before] at same
        change (indexEntry t slots fails y n >>= fun z => pure z) = some x at same
        rw [bind_pure] at same
        unfold indexEntry at same
        cases read : direntRead slots fails n with
        | none =>
          rw [read] at same
          cases same
        | some d =>
          have here := direntRead_some read
          rw [read] at same
          dsimp only at same
          have mark : isFree slots n = decide (d.ino = 0) := by
            unfold isFree
            rw [here]
          have entry : keysOf t slots [n] = if d.ino = 0 then [] else [(t.nameKeyHash d.name, n)] := by
            unfold keysOf
            rw [List.filterMap_cons, here, List.filterMap_nil]
            dsimp only
            split_ifs <;> rfl
          rw [List.range_succ, List.find?_append, List.find?_singleton, mark]
          unfold keysOf at entry ⊢
          rw [List.filterMap_append, entry]
          change x.1 = keysOf t slots (List.range n) ++ _ ∧ _
          rw [← first]
          by_cases free : d.ino = 0
          · rw [if_pos free] at same
            cases same
            rw [if_pos free, List.append_nil, second]
            refine ⟨rfl, ?_⟩
            cases earlier : (List.range n).find? (isFree slots) with
            | none =>
              dsimp only [Option.getD_none]
              rw [if_pos rfl, decide_eq_true free]
              rfl
            | some k =>
              have below := List.mem_range.mp (List.mem_of_find?_eq_some earlier)
              dsimp only [Option.getD_some]
              rw [if_neg (by omega)]
              rfl
          · rw [if_neg free] at same
            cases same
            rw [if_neg free, decide_eq_false free, second]
            refine ⟨rfl, ?_⟩
            rw [if_neg Bool.false_ne_true, Option.or_none]
  exact rounds slots.length (Nat.le_refl _) (keys, freeSlot) done

/-- Names with equal keys have equal hashes. -/
theorem nameKeyHash_congr {a b : List Byte} (same : t.nameKeyEqual a b = true) : t.nameKeyHash a = t.nameKeyHash b := by
  unfold Casefold.nameKeyEqual at same
  unfold Casefold.nameKeyHash
  rw [Casefold.keyHash_eq, Casefold.keyHash_eq, (Casefold.keyEqual_iff _ _).mp same]

/-- What a linear scan of some slots finds. -/
def scanOf (t : Casefold) (slots : List Dirent) (name : List Byte) (freeSlot : Nat) (range : List Nat) : Found :=
  match range.find? (holds t slots name) with
  | none => .notFound freeSlot
  | some s => .found s (slots.getD s ⟨0, []⟩)

/-- Every used entry can be read. -/
def Readable (slots : List Dirent) (fails : Nat -> Bool) : Prop :=
  ∀ s d, slots[s]? = some d -> direntRead slots fails s = some d

/-- The search through the hashes finds what a linear scan does, or cannot read. -/
theorem findKey_spec (slots : List Dirent) (fails : Nat -> Bool) (name : List Byte) (freeSlot : Nat) (range : List Nat) :
    findKey t slots fails name freeSlot (keysOf t slots range) = scanOf t slots name freeSlot range ∨
      findKey t slots fails name freeSlot (keysOf t slots range) = .io ∧ ¬Readable slots fails := by
  induction range with
  | nil => exact .inl rfl
  | cons s range ih =>
    -- A slot whose entry has another name or none is passed by both.
    have passes : holds t slots name s = false ->
        scanOf t slots name freeSlot (s :: range) = scanOf t slots name freeSlot range := by
      intro other
      unfold scanOf
      rw [List.find?_cons_of_neg (by rw [other]; exact Bool.false_ne_true)]
    cases here : slots[s]? with
    | none =>
      have other : holds t slots name s = false := by
        unfold holds
        rw [here]
      have same : keysOf t slots (s :: range) = keysOf t slots range := by
        unfold keysOf
        rw [List.filterMap_cons, here]
      rw [same, passes other]
      exact ih
    | some d =>
      have entry : holds t slots name s = (decide (d.ino ≠ 0) && t.nameKeyEqual d.name name) := by
        unfold holds
        rw [here]
      by_cases free : d.ino = 0
      · have same : keysOf t slots (s :: range) = keysOf t slots range := by
          unfold keysOf
          rw [List.filterMap_cons, here]
          dsimp only
          rw [if_pos free]
        rw [same, passes (by rw [entry, decide_eq_false (not_not.mpr free), Bool.false_and])]
        exact ih
      · have same : keysOf t slots (s :: range) = (t.nameKeyHash d.name, s) :: keysOf t slots range := by
          unfold keysOf
          rw [List.filterMap_cons, here]
          dsimp only
          rw [if_neg free]
        rw [same]
        unfold findKey
        by_cases other : t.nameKeyHash d.name ≠ t.nameKeyHash name
        · have differ : t.nameKeyEqual d.name name = false :=
            Bool.eq_false_iff.mpr fun equal => other (nameKeyHash_congr equal)
          rw [if_pos other, passes (by rw [entry, differ, Bool.and_false])]
          exact ih
        · rw [if_neg other]
          cases read : direntRead slots fails s with
          | none =>
            refine .inr ⟨rfl, fun readable => ?_⟩
            rw [readable s d here] at read
            cases read
          | some e =>
            have equal := direntRead_some read
            rw [here] at equal
            cases equal
            dsimp only
            by_cases match_ : t.nameKeyEqual d.name name = true
            · rw [if_pos ⟨free, match_⟩]
              left
              unfold scanOf
              rw [List.find?_cons_of_pos (by rw [entry, match_, decide_eq_true free]; rfl)]
              dsimp only
              rw [List.getD_eq_getElem?_getD, here, Option.getD_some]
            · rw [if_neg fun both => match_ both.2, passes (by rw [entry, Bool.eq_false_iff.mpr match_, Bool.and_false])]
              exact ih

theorem indexVisit_spec {i : Nat} (list : List Nat) (s : Option Nat × Nat)
    (found : (list.foldl (indexVisit v dir) s).1 = some i) : s.1 = some i ∨ ∃ c, v.index i = some c ∧ c.dir = dir := by
  induction list generalizing s with
  | nil => exact .inl found
  | cons k list ih =>
    rw [List.foldl_cons] at found
    rcases ih _ found with visited | other
    · unfold indexVisit at visited
      cases before : s.1 with
      | some j =>
        rw [before] at visited
        dsimp only at visited
        rw [before] at visited
        exact .inl visited
      | none =>
        rw [before] at visited
        dsimp only at visited
        cases entry : v.index k with
        | none =>
          rw [entry] at visited
          cases visited
        | some c =>
          rw [entry] at visited
          dsimp only at visited
          by_cases own : c.dir = dir
          · rw [if_pos own] at visited
            cases visited
            exact .inr ⟨c, entry, own⟩
          · rw [if_neg own] at visited
            cases victim : v.index s.2 with
            | none =>
              rw [victim] at visited
              dsimp only at visited
              rw [before] at visited
              cases visited
            | some w =>
              rw [victim] at visited
              dsimp only at visited
              split_ifs at visited
              rw [before] at visited
              cases visited
    · exact .inr other

theorem Current.update (current : Current t v) {i : Nat} {x : Option DirIndex} {clock : Word}
    (entry : ∀ y, x = some y -> Indexed t v y) :
    Current t { v with index := Function.update v.index i x, clock := clock } := by
  intro j y here
  by_cases own : j = i
  · subst own
    exact entry y ((Function.update_self j x v.index).symm.trans here)
  · exact current j y ((Function.update_of_ne own x v.index).symm.trans here)

theorem indexScan_readable (readable : Readable slots fails) :
    (indexScan t slots fails).isSome = true := by
  have rounds : ∀ n ≤ slots.length, ∃ x, (List.range n).foldlM (indexEntry t slots fails) ([], slots.length) = some x := by
    intro n
    induction n with
    | zero => exact fun _ => ⟨_, rfl⟩
    | succ n ih =>
      intro most
      obtain ⟨x, before⟩ := ih (by omega)
      have read := readable n slots[n] (List.getElem?_eq_getElem (by omega))
      rw [List.range_succ, List.foldlM_append, before]
      change ∃ y, (indexEntry t slots fails x n >>= fun z => pure z) = some y
      rw [bind_pure]
      unfold indexEntry
      rw [read]
      dsimp only
      by_cases free : slots[n].ino = 0
      · rw [if_pos free]
        exact ⟨_, rfl⟩
      · rw [if_neg free]
        exact ⟨_, rfl⟩
  obtain ⟨x, done⟩ := rounds slots.length (Nat.le_refl _)
  unfold indexScan
  rw [done]
  rfl

/-- An index is current, or there is an error. -/
theorem dirIndexGet_spec (current : Current t v) (media : v.dirs dir = some slots) (fails : Failures) :
    Current t (dirIndexGet t v dir slots fails).2 ∧ (dirIndexGet t v dir slots fails).2.dirs = v.dirs ∧
      ((∃ x, (dirIndexGet t v dir slots fails).1 = .ok x ∧ x.keys = keysOf t slots (List.range slots.length) ∧
          x.freeSlot = firstFree slots) ∨
        ((dirIndexGet t v dir slots fails).1 = .error .io ∨ (dirIndexGet t v dir slots fails).1 = .error .noMemory) ∧
          ¬(fails.memory = false ∧ Readable slots fails.scan)) := by
  unfold dirIndexGet
  cases search : (List.range dirIdx).foldl (indexVisit v dir) (none, 0) with
  | mk found victim =>
    cases found with
    | some i =>
      have chosen : ((List.range dirIdx).foldl (indexVisit v dir) (none, 0)).1 = some i := by rw [search]
      obtain ⟨c, entry, own⟩ := (indexVisit_spec _ _ chosen).resolve_left nofun
      have indexed := current i c entry
      obtain ⟨others, failed, here, scan⟩ := indexed
      dsimp only
      rw [entry]
      dsimp only
      refine ⟨current.update fun y same => ?_, rfl, .inl ⟨_, rfl, ?_⟩⟩
      · cases same
        exact ⟨others, failed, here, scan⟩
      · rw [own, media] at here
        cases here
        exact indexScan_spec scan
    | none =>
      dsimp only
      by_cases memory : fails.memory = true
      · rw [if_pos memory]
        refine ⟨current.update nofun, rfl, .inr ⟨.inr rfl, fun calm => ?_⟩⟩
        rw [calm.1] at memory
        cases memory
      · rw [if_neg memory]
        cases scan : indexScan t slots fails.scan with
        | none =>
          refine ⟨current.update nofun, rfl, .inr ⟨.inl rfl, fun calm => ?_⟩⟩
          have some_ := @indexScan_readable t slots fails.scan calm.2
          rw [scan] at some_
          cases some_
        | some x =>
          obtain ⟨keys, freeSlot⟩ := x
          dsimp only
          rw [Function.update_idem]
          refine ⟨current.update fun y same => ?_, rfl, .inl ⟨_, rfl, indexScan_spec scan⟩⟩
          cases same
          exact ⟨slots, fails.scan, media, scan⟩

theorem current_of_reachable (reached : (lookups t).Reachable v) : Current t v := by
  apply reached.invariant
  · intro start none i x here
    rw [none i] at here
    cases here
  · intro first action second current step
    cases action with
    | find dir name fails =>
      rw [show second = (dirFind t first dir name fails).2 from step]
      unfold dirFind
      split_ifs
      · exact current
      · cases media : first.dirs dir with
        | none => exact current
        | some slots =>
          have spec := (dirIndexGet_spec current media fails).1
          dsimp only
          cases get : dirIndexGet t first dir slots fails with
          | mk result next =>
            rw [get] at spec
            cases result with
            | error error => exact spec
            | ok x => exact spec
    | change dirs =>
      rw [show second = { first.drop with dirs := dirs } from step]
      exact fun i x here => nomatch here

/-- In every run a lookup finds what a linear scan with key comparison finds, when it does
not fail. -/
theorem dirFind_linear (current : Current t v) (media : v.dirs dir = some slots) (name : List Byte)
    (fails : Failures) :
    ((dirFind t v dir name fails).1 = linearFind t slots name ∨
        (dirFind t v dir name fails).1 = .io ∨ (dirFind t v dir name fails).1 = .noMemory) ∧
      (fails.inode = false -> fails.memory = false -> Readable slots fails.scan -> Readable slots fails.entry ->
        (dirFind t v dir name fails).1 = linearFind t slots name) := by
  have spec := (dirIndexGet_spec current media fails).2.2
  unfold dirFind
  by_cases inode : fails.inode = true
  · rw [if_pos inode]
    refine ⟨.inr (.inl rfl), fun calm => ?_⟩
    rw [calm] at inode
    cases inode
  · rw [if_neg inode, media]
    dsimp only
    cases get : dirIndexGet t v dir slots fails with
    | mk result next =>
      rw [get] at spec
      dsimp only at spec ⊢
      cases result with
      | error error =>
        obtain ⟨x, bad, _⟩ | ⟨which, disturbed⟩ := spec
        · cases bad
        · refine ⟨.inr ?_, fun _ memory scan _ => absurd ⟨memory, scan⟩ disturbed⟩
          rcases which with same | same
          · cases same
            exact .inl rfl
          · cases same
            exact .inr rfl
      | ok x =>
        obtain ⟨y, same, keys, freeSlot⟩ | ⟨which, _⟩ := spec
        · cases same
          dsimp only
          rw [keys, freeSlot]
          rcases @findKey_spec t slots fails.entry name (firstFree slots) (List.range slots.length) with linear | ⟨io, bad⟩
          · rw [linear]
            exact ⟨.inl rfl, fun _ _ _ _ => rfl⟩
          · rw [io]
            exact ⟨.inr (.inl rfl), fun _ _ _ readable => absurd readable bad⟩
        · rcases which with bad | bad
          · cases bad
          · cases bad

end Proofs

/-! ## Keys -/

/-- Keys are folded texts: names are equal when these are, equal names hash alike, and
so a lookup through an index finds what a linear scan does.  The check accepts
exactly the well-formed names. -/
theorem name_keys (t : Casefold) :
    (∀ a b ca cb, ValidName a ca -> ValidName b cb ->
        (t.nameKeyEqual a b = true ↔ ca.flatMap t.full = cb.flatMap t.full)) ∧
      (Equivalence fun a b : List Byte => t.nameKeyEqual a b = true) ∧
      (∀ a b, t.nameKeyEqual a b = true -> t.nameKeyHash a = t.nameKeyHash b) ∧
      (∀ v, (lookups t).Reachable v -> ∀ dir slots, v.dirs dir = some slots -> ∀ name fails,
        ((dirFind t v dir name fails).1 = linearFind t slots name ∨
            (dirFind t v dir name fails).1 = .io ∨ (dirFind t v dir name fails).1 = .noMemory) ∧
          (fails.inode = false -> fails.memory = false -> Readable slots fails.scan -> Readable slots fails.entry ->
            (dirFind t v dir name fails).1 = linearFind t slots name)) ∧
      ∀ s n, nameCheck s = .ok n ↔ ∃ cps, ValidName s cps ∧ cps.length = n := by
  refine ⟨fun a b ca cb validA validB => ?_, ⟨fun a => ?_, fun {a b} same => ?_, fun {a b c} first second => ?_⟩,
    fun a b same => nameKeyHash_congr same, fun v reached dir slots media name fails => ?_, fun s n => nameCheck_iff⟩
  · unfold Casefold.nameKeyEqual
    rw [Casefold.keyEqual_iff, validA.text, validB.text, Casefold.folded_text validA.scalars,
      Casefold.folded_text validB.scalars]
  · exact (Casefold.keyEqual_iff _ _).mpr rfl
  · exact (Casefold.keyEqual_iff _ _).mpr ((Casefold.keyEqual_iff _ _).mp same).symm
  · exact (Casefold.keyEqual_iff _ _).mpr (((Casefold.keyEqual_iff _ _).mp first).trans ((Casefold.keyEqual_iff _ _).mp second))
  · exact dirFind_linear (current_of_reachable reached) media name fails

/-- The letters and sharp s, which folds to two letters. -/
def sharpTable : Casefold where
  laterFrom := [0xDF]
  laterTo := [0x80000000]
  cfMulti := [0x73, 0x73, 0]
  rows := rfl
  sorted := by decide
  behind := by decide
  expansions := by decide

/-- A sharp s and two capital letters are one name. -/
theorem name_keys_sharp : sharpTable.nameKeyEqual [0xC3, 0x9F] [0x53, 0x53] = true :=
  ((name_keys sharpTable).1 [0xC3, 0x9F] [0x53, 0x53] [0xDF] [0x53, 0x53]
    ⟨by decide, by decide, by decide, by decide, by decide, by decide, by decide⟩
    ⟨by decide, by decide, by decide, by decide, by decide, by decide, by decide⟩).mpr (by decide)

end Src32.Fs
