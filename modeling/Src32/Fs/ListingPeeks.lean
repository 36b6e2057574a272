import Src32.Fs.Listing

namespace Src32.Fs

open Libfnd

/-!
# What a listing has still to show

A position stands for the entries that a listing has still to show.  What a peek gives
is the first of them, and the position behind it stands for the others.
-/

/-! ## Slots in order -/

/-- A directory as slots, some of which show an entry. -/
structure Slots where
  slot : Nat -> Option DirItem
  count : Nat

/-- The entries from a slot on. -/
def Slots.from_ (s : Slots) (cursor : Nat) : List DirItem := (List.range' cursor (s.count - cursor)).filterMap s.slot

namespace Slots

variable {s : Slots} {cursor next : Nat} {item : DirItem}

theorem from_end (done : s.count ≤ cursor) : s.from_ cursor = [] := by
  unfold from_
  rw [Nat.sub_eq_zero_of_le done]
  rfl

theorem from_next (inside : cursor < s.count) : s.from_ cursor = (s.slot cursor).toList ++ s.from_ (cursor + 1) := by
  unfold from_
  rw [show s.count - cursor = s.count - (cursor + 1) + 1 by omega, List.range'_succ, List.filterMap_cons]
  cases s.slot cursor <;> rfl

theorem from_item (inside : cursor < s.count) (shown : s.slot cursor = some item) :
    s.from_ cursor = item :: s.from_ (cursor + 1) := by
  rw [from_next inside, shown]
  rfl

/-- Slots without an entry are passed. -/
theorem from_skip (least : cursor ≤ next) (empty : ∀ i, cursor ≤ i -> i < next -> s.slot i = none) :
    s.from_ cursor = s.from_ next := by
  induction least with
  | refl => rfl
  | @step next least ih =>
    rw [ih fun i from_ less => empty i from_ (Nat.lt_succ_of_lt less)]
    by_cases inside : next < s.count
    · rw [from_next inside, empty next least (Nat.lt_succ_self next)]
      rfl
    · rw [from_end (Nat.not_lt.mp inside), from_end (Nat.le_succ_of_le (Nat.not_lt.mp inside))]

end Slots

theorem scanFrom_none {s : Slots} {n cursor : Nat} (whole : s.count - cursor ≤ n)
    (done : scanFrom s.slot n cursor = none) : s.from_ cursor = [] := by
  induction n generalizing cursor with
  | zero => exact Slots.from_end (by omega)
  | succ n ih =>
    unfold scanFrom at done
    cases shown : s.slot cursor with
    | some item =>
      rw [shown] at done
      cases done
    | none =>
      rw [shown] at done
      rw [Slots.from_skip (Nat.le_succ cursor) fun i least less => by
        rw [show i = cursor by omega]
        exact shown]
      exact ih (by omega) done

theorem scanFrom_some {s : Slots} {n cursor next : Nat} {item : DirItem} (whole : n ≤ s.count - cursor)
    (done : scanFrom s.slot n cursor = some (item, next)) : s.from_ cursor = item :: s.from_ next := by
  induction n generalizing cursor with
  | zero => cases done
  | succ n ih =>
    unfold scanFrom at done
    cases shown : s.slot cursor with
    | some found =>
      rw [shown] at done
      cases done
      exact Slots.from_item (by omega) shown
    | none =>
      rw [shown] at done
      rw [Slots.from_skip (Nat.le_succ cursor) fun i least less => by
        rw [show i = cursor by omega]
        exact shown]
      exact ih (by omega) done

/-! ## What a directory shows -/

section Server

variable (t : Casefold) (mounts : Nat -> Mount) (node : Node)

/-- A reserved name hides what folds to it in the root. -/
def Hidden (name : List Byte) : Prop :=
  node.isRoot = true ∧ ∃ r ∈ rootReserved, t.folded (Casefold.foldInit r.1) = t.folded (Casefold.foldInit name)

variable {t node} in
theorem vfsReserved_iff {name : List Byte} : (node.isRoot && vfsReserved t node name) = true ↔ Hidden t node name := by
  unfold vfsReserved Hidden
  rw [← Bool.and_assoc, Bool.and_self, Bool.and_eq_true, List.any_eq_true]
  refine and_congr_right fun _ => exists_congr fun r => and_congr_right fun _ => ?_
  exact t.keyEqual_iff _ _

open Classical in
/-- A slot of an FS2 directory shows an entry that is in use and not hidden. -/
noncomputable def fs2Slot (slots : List Dirent) (s : Nat) : Option DirItem :=
  match slots[s]? with
  | none => none
  | some d => if d.ino = 0 ∨ Hidden t node d.name then none else some ⟨⟨node.mnt, d.ino⟩, d.name, nameChars d.name⟩

/-- The slots of a directory. -/
noncomputable def diskSlots : Slots :=
  match (mounts node.mnt).kind with
  | .fs2 => ⟨fs2Slot t node (((mounts node.mnt).vol node.ino).getD []), (((mounts node.mnt).vol node.ino).getD []).length⟩
  | .dsfs => ⟨dsfsSlot (mounts node.mnt).dsfs node.mnt, dsfsEntries⟩
  | .dev => if node.mnt = vfsDd then ⟨ddSlot mounts, 4⟩ else ⟨devSlot, vfsDevnodes.length⟩
  | .virtual => if node.mnt = vfsDd then ⟨ddSlot mounts, 4⟩ else ⟨fun _ => none, 0⟩

/-- The reserved names that the root shows. -/
def reservedSlots : Slots := if node.isRoot = true then ⟨reservedSlot mounts, 4⟩ else ⟨fun _ => none, 0⟩

/-- What is still to be shown. -/
noncomputable def remaining (p : Position) : List DirItem :=
  if p.phase = 0 then (diskSlots t mounts node).from_ p.cursor ++ (reservedSlots mounts node).from_ 0
  else (reservedSlots mounts node).from_ p.cursor

/-- Everything that a listing shows. -/
noncomputable def visible : List DirItem :=
  (List.range (diskSlots t mounts node).count).filterMap (diskSlots t mounts node).slot ++
    (List.range (reservedSlots mounts node).count).filterMap (reservedSlots mounts node).slot

theorem remaining_start : remaining t mounts node ⟨0, 0⟩ = visible t mounts node := by
  unfold remaining visible Slots.from_
  rw [if_pos rfl, List.range_eq_range', List.range_eq_range']
  rfl

/-- A peek that shows the first of what remains. -/
def Shows (p : Position) : Peek -> Prop
  | .item item next => remaining t mounts node p = item :: remaining t mounts node next
  | .finished => remaining t mounts node p = []
  | .failed _ => True

/-- A peek into the directory itself. -/
def ShowsDisk (cursor : Nat) : Peek -> Prop
  | .item item next => next.phase = 0 ∧ (diskSlots t mounts node).from_ cursor = item :: (diskSlots t mounts node).from_ next.cursor
  | .finished => (diskSlots t mounts node).from_ cursor = []
  | .failed _ => True

variable {t mounts node}

/-! ## Peeks -/

/-- What the loop over `n` slots from `s` on finds: the first one in use. -/
def FindsNext (slots : List Dirent) (s n : Nat) : DirNext -> Prop
  | .finished => ∀ i, s ≤ i -> i < s + n -> ∀ d, slots[i]? = some d -> d.ino = 0
  | .entry next d => ∃ i, next = i + 1 ∧ s ≤ i ∧ i < s + n ∧ slots[i]? = some d ∧ d.ino ≠ 0 ∧
      ∀ j, s ≤ j -> j < i -> ∀ d, slots[j]? = some d -> d.ino = 0
  | .failed _ => True

theorem dirNextFrom_finds (slots : List Dirent) (fails : Nat -> Bool) (n s : Nat) :
    FindsNext slots s n (dirNextFrom slots fails n s) := by
  induction n generalizing s with
  | zero =>
    intro i least less
    omega
  | succ n ih =>
    unfold dirNextFrom
    cases read : direntRead slots fails s with
    | none => trivial
    | some d =>
      have here := direntRead_some read
      dsimp only
      by_cases used : d.ino ≠ 0
      · rw [if_pos used]
        exact ⟨s, rfl, Nat.le_refl s, by omega, here, used, fun j least less => by omega⟩
      rw [if_neg used]
      -- The slot is free, and the rest of the loop goes on behind it.
      have free : ∀ e, slots[s]? = some e -> e.ino = 0 := by
        intro e same
        rw [here] at same
        cases same
        exact not_not.mp used
      have rest := ih (s + 1)
      cases found : dirNextFrom slots fails n (s + 1) with
      | failed error => trivial
      | finished =>
        rw [found] at rest
        intro i least less
        rcases Nat.eq_or_lt_of_le least with rfl | more
        · exact free
        · exact rest i more (by omega)
      | entry next d =>
        rw [found] at rest
        obtain ⟨i, same, least, less, at_, some_, passed⟩ := rest
        refine ⟨i, same, by omega, by omega, at_, some_, fun j from_ below => ?_⟩
        rcases Nat.eq_or_lt_of_le from_ with rfl | more
        · exact free
        · exact passed j more below

section Fs2

variable {slots : List Dirent}

theorem fs2Slot_free {s : Nat} (free : ∀ d, slots[s]? = some d -> d.ino = 0) : fs2Slot t node slots s = none := by
  unfold fs2Slot
  cases here : slots[s]? with
  | none => rfl
  | some d => exact if_pos (.inl (free d here))

theorem fs2Slot_hidden {s : Nat} {d : Dirent} (here : slots[s]? = some d) (hidden : Hidden t node d.name) :
    fs2Slot t node slots s = none := by
  unfold fs2Slot
  rw [here]
  exact if_pos (.inr hidden)

theorem fs2Slot_shown {s : Nat} {d : Dirent} (here : slots[s]? = some d) (used : d.ino ≠ 0) (shown : ¬Hidden t node d.name) :
    fs2Slot t node slots s = some ⟨⟨node.mnt, d.ino⟩, d.name, nameChars d.name⟩ := by
  unfold fs2Slot
  rw [here]
  exact if_neg (not_or.mpr ⟨used, shown⟩)

theorem diskSlots_fs2 (kind : (mounts node.mnt).kind = .fs2) (here : (mounts node.mnt).vol node.ino = some slots) :
    diskSlots t mounts node = ⟨fs2Slot t node slots, slots.length⟩ := by
  unfold diskSlots
  rw [kind, here]
  rfl

theorem peekFs2_shows (kind : (mounts node.mnt).kind = .fs2) (fails : Nat -> Failures) {n cursor : Nat}
    (enough : (((mounts node.mnt).vol node.ino).getD []).length - cursor < n) :
    ∃ peek, peekFs2 t mounts node fails n cursor = some peek ∧ ShowsDisk t mounts node cursor peek := by
  induction n generalizing cursor with
  | zero => exact absurd enough (Nat.not_lt_zero _)
  | succ n ih =>
    unfold peekFs2 fs2DirNext
    by_cases broken : (fails n).inode = true
    · rw [if_pos broken]
      exact ⟨_, rfl, trivial⟩
    rw [if_neg broken]
    cases here : (mounts node.mnt).vol node.ino with
    | none => exact ⟨_, rfl, trivial⟩
    | some slots =>
      rw [here, Option.getD_some] at enough
      have disk := @diskSlots_fs2 t mounts node slots kind here
      have finds := dirNextFrom_finds slots (fails n).entry (slots.length - cursor) cursor
      dsimp only
      cases next : dirNextFrom slots (fails n).entry (slots.length - cursor) cursor with
      | failed error => exact ⟨_, rfl, trivial⟩
      | finished =>
        rw [next] at finds
        refine ⟨_, rfl, ?_⟩
        change (diskSlots t mounts node).from_ cursor = []
        rw [disk, Slots.from_skip (Nat.le_max_left cursor slots.length) fun i least less => ?_]
        · exact Slots.from_end (Nat.le_max_right _ _)
        · exact fs2Slot_free (finds i least (by omega))
      | entry after d =>
        rw [next] at finds
        obtain ⟨i, rfl, least, less, at_, used, passed⟩ := finds
        have skip : (diskSlots t mounts node).from_ cursor = (diskSlots t mounts node).from_ i := by
          rw [disk]
          exact Slots.from_skip least fun j from_ below => fs2Slot_free (passed j from_ below)
        dsimp only
        by_cases hides : (node.isRoot && vfsReserved t node d.name) = true
        · rw [if_pos hides]
          have hidden : (diskSlots t mounts node).from_ i = (diskSlots t mounts node).from_ (i + 1) := by
            rw [disk]
            refine Slots.from_skip (Nat.le_succ i) fun j from_ below => ?_
            rw [show j = i by omega]
            exact fs2Slot_hidden at_ (vfsReserved_iff.mp hides)
          obtain ⟨peek, runs, shows⟩ := @ih (i + 1) (by rw [here, Option.getD_some]; omega)
          refine ⟨peek, runs, ?_⟩
          cases peek with
          | item item next =>
            refine ⟨shows.1, ?_⟩
            rw [skip, hidden]
            exact shows.2
          | finished =>
            change (diskSlots t mounts node).from_ cursor = []
            rw [skip, hidden]
            exact shows
          | failed error => trivial
        · rw [if_neg hides]
          refine ⟨_, rfl, rfl, ?_⟩
          rw [skip, disk]
          exact Slots.from_item (by change i < slots.length; omega)
            (fs2Slot_shown at_ used fun hidden => hides (vfsReserved_iff.mpr hidden))

end Fs2

theorem peekOf_shows {s : Slots} (same : diskSlots t mounts node = s) (cursor : Nat) :
    ShowsDisk t mounts node cursor (peekOf (scanFrom s.slot (s.count - cursor) cursor)) := by
  cases found : scanFrom s.slot (s.count - cursor) cursor with
  | none =>
    change (diskSlots t mounts node).from_ cursor = []
    rw [same]
    exact scanFrom_none (Nat.le_refl _) found
  | some pair =>
    obtain ⟨item, next⟩ := pair
    refine ⟨rfl, ?_⟩
    rw [same]
    exact scanFrom_some (Nat.le_refl _) found

theorem peekDisk_shows (fails : Nat -> Failures) (cursor : Nat) :
    ∃ peek, peekDisk t mounts node fails cursor = some peek ∧ ShowsDisk t mounts node cursor peek := by
  cases kind : (mounts node.mnt).kind with
  | fs2 =>
    obtain ⟨peek, runs, shows⟩ := @peekFs2_shows t mounts node kind fails
      ((((mounts node.mnt).vol node.ino).getD []).length + 1 - cursor + 1) cursor (by omega)
    refine ⟨peek, ?_, shows⟩
    unfold peekDisk
    rw [kind]
    exact runs
  | dsfs =>
    refine ⟨_, by unfold peekDisk; rw [kind], @peekOf_shows t mounts node ⟨dsfsSlot (mounts node.mnt).dsfs node.mnt, dsfsEntries⟩ ?_ cursor⟩
    unfold diskSlots
    rw [kind]
  | dev =>
    by_cases dd : node.mnt = vfsDd
    · refine ⟨_, by unfold peekDisk; rw [kind]; exact if_pos dd, @peekOf_shows t mounts node ⟨ddSlot mounts, 4⟩ ?_ cursor⟩
      unfold diskSlots
      rw [kind]
      exact if_pos dd
    · have disk : diskSlots t mounts node = ⟨devSlot, vfsDevnodes.length⟩ := by
        unfold diskSlots
        rw [kind]
        exact if_neg dd
      unfold peekDisk
      rw [kind]
      dsimp only
      rw [if_neg dd]
      by_cases inside : cursor < vfsDevnodes.length
      · rw [if_pos inside]
        have shown : devSlot cursor = some ⟨⟨vfsDev, 2 + cursor⟩, vfsDevnodes[cursor], vfsDevnodes[cursor].length⟩ := by
          unfold devSlot
          rw [List.getElem?_eq_getElem inside]
          rfl
        rw [shown]
        refine ⟨_, rfl, rfl, ?_⟩
        rw [disk]
        exact Slots.from_item inside shown
      · rw [if_neg inside]
        refine ⟨_, rfl, ?_⟩
        change (diskSlots t mounts node).from_ cursor = []
        rw [disk]
        exact Slots.from_end (Nat.not_lt.mp inside)
  | virtual =>
    by_cases dd : node.mnt = vfsDd
    · refine ⟨_, by unfold peekDisk; rw [kind]; exact if_pos dd, @peekOf_shows t mounts node ⟨ddSlot mounts, 4⟩ ?_ cursor⟩
      unfold diskSlots
      rw [kind]
      exact if_pos dd
    · refine ⟨_, by unfold peekDisk; rw [kind]; exact if_neg dd, ?_⟩
      change (diskSlots t mounts node).from_ cursor = []
      unfold diskSlots
      rw [kind]
      dsimp only
      rw [if_neg dd]
      exact Slots.from_end (Nat.zero_le cursor)

theorem peekReserved_shows (t : Casefold) {p : Position} {cursor : Nat}
    (same : remaining t mounts node p = (reservedSlots mounts node).from_ cursor) :
    Shows t mounts node p (peekReserved mounts node cursor) := by
  unfold peekReserved
  by_cases root : node.isRoot = true
  · have slots : reservedSlots mounts node = ⟨reservedSlot mounts, 4⟩ := if_pos root
    rw [if_pos root]
    rw [slots] at same
    cases found : scanFrom (reservedSlot mounts) (4 - cursor) cursor with
    | none => exact same.trans (@scanFrom_none ⟨reservedSlot mounts, 4⟩ _ _ (Nat.le_refl _) found)
    | some pair =>
      obtain ⟨item, next⟩ := pair
      change remaining t mounts node p = item :: remaining t mounts node ⟨1, next⟩
      rw [same, @scanFrom_some ⟨reservedSlot mounts, 4⟩ _ _ _ _ (Nat.le_refl _) found]
      unfold remaining
      rw [if_neg (show ¬(1 = 0) from Nat.one_ne_zero), slots]
  · rw [if_neg root]
    refine same.trans ?_
    rw [show reservedSlots mounts node = ⟨fun _ => none, 0⟩ from if_neg root]
    exact Slots.from_end (Nat.zero_le cursor)

/-- A peek does not loop, and shows the first of what remains. -/
theorem dirPeek_shows (fails : Nat -> Failures) (p : Position) :
    ∃ peek, dirPeek t mounts node fails p = some peek ∧ Shows t mounts node p peek := by
  unfold dirPeek
  by_cases first : p.phase = 0
  · rw [if_pos first]
    have rest : remaining t mounts node p =
        (diskSlots t mounts node).from_ p.cursor ++ (reservedSlots mounts node).from_ 0 := if_pos first
    obtain ⟨peek, runs, shows⟩ := @peekDisk_shows t mounts node fails p.cursor
    rw [runs]
    cases peek with
    | failed error => exact ⟨_, rfl, trivial⟩
    | finished =>
      refine ⟨_, rfl, peekReserved_shows t ?_⟩
      rw [rest, show (diskSlots t mounts node).from_ p.cursor = [] from shows, List.nil_append]
    | item item next =>
      refine ⟨_, rfl, ?_⟩
      obtain ⟨phase, whole⟩ := shows
      change remaining t mounts node p = item :: remaining t mounts node next
      rw [rest, whole, List.cons_append]
      unfold remaining
      rw [if_pos phase]
  · rw [if_neg first]
    exact ⟨_, rfl, peekReserved_shows t (if_neg first)⟩

/-! ## Peeks that do not fail -/

/-- No read fails. -/
def Calm (fails : Failures) : Prop := fails.inode = false ∧ ∀ s, fails.entry s = false

/-- The directory is there, with names of the right lengths. -/
def Legible (mounts : Nat -> Mount) (node : Node) : Prop := (mounts node.mnt).kind = .fs2 ->
  ∃ slots, (mounts node.mnt).vol node.ino = some slots ∧ ∀ d ∈ slots, d.ino ≠ 0 -> 1 ≤ d.name.length ∧ d.name.length ≤ nameMaxBytes

theorem direntRead_calm {slots : List Dirent} {fails : Nat -> Bool} {s : Nat} (calm : ∀ s, fails s = false)
    (names : ∀ d ∈ slots, d.ino ≠ 0 -> 1 ≤ d.name.length ∧ d.name.length ≤ nameMaxBytes) (inside : s < slots.length) :
    direntRead slots fails s = some slots[s] := by
  unfold direntRead
  rw [List.getElem?_eq_getElem inside]
  dsimp only
  rw [calm s, if_neg Bool.false_ne_true]
  by_cases free : slots[s].ino = 0
  · rw [if_pos free]
  · rw [if_neg free, if_neg]
    have valid := names slots[s] (List.getElem_mem inside) free
    omega

theorem dirNextFrom_calm {slots : List Dirent} {fails : Nat -> Bool} (calm : ∀ s, fails s = false)
    (names : ∀ d ∈ slots, d.ino ≠ 0 -> 1 ≤ d.name.length ∧ d.name.length ≤ nameMaxBytes) {n s : Nat}
    (inside : s + n ≤ slots.length ∨ n = 0) (error : FsError) : dirNextFrom slots fails n s ≠ .failed error := by
  induction n generalizing s with
  | zero => exact DirNext.noConfusion
  | succ n ih =>
    unfold dirNextFrom
    rw [direntRead_calm calm names (by omega)]
    dsimp only
    split_ifs
    · exact DirNext.noConfusion
    · exact ih (by omega)

theorem peekFs2_calm {fails : Nat -> Failures} (calm : ∀ n, Calm (fails n)) (kind : (mounts node.mnt).kind = .fs2)
    (readable : Legible mounts node) {n cursor : Nat} (error : FsError) :
    peekFs2 t mounts node fails n cursor ≠ some (.failed error) := by
  induction n generalizing cursor with
  | zero => exact (Option.some_ne_none _).symm
  | succ n ih =>
    obtain ⟨slots, here, names⟩ := readable kind
    unfold peekFs2 fs2DirNext
    rw [(calm n).1, if_neg Bool.false_ne_true, here]
    dsimp only
    have fine := fun e => @dirNextFrom_calm slots _ (calm n).2 names (slots.length - cursor) cursor (by omega) e
    cases next : dirNextFrom slots (fails n).entry (slots.length - cursor) cursor with
    | failed e => exact absurd next (fine e)
    | finished => exact fun same => Peek.noConfusion (Option.some.inj same)
    | entry after d =>
      dsimp only
      split_ifs
      · exact ih
      · exact fun same => Peek.noConfusion (Option.some.inj same)

theorem peekReserved_calm (cursor : Nat) (error : FsError) : peekReserved mounts node cursor ≠ .failed error := by
  unfold peekReserved
  split_ifs
  · cases scanFrom (reservedSlot mounts) (4 - cursor) cursor <;> exact Peek.noConfusion
  · exact Peek.noConfusion

theorem peekOf_calm (found : Option (DirItem × Nat)) (error : FsError) : peekOf found ≠ .failed error := by
  cases found <;> exact Peek.noConfusion

theorem dirPeek_calm {fails : Nat -> Failures} (calm : ∀ n, Calm (fails n)) (readable : Legible mounts node) (p : Position)
    (error : FsError) : dirPeek t mounts node fails p ≠ some (.failed error) := by
  have disk : peekDisk t mounts node fails p.cursor ≠ some (.failed error) := by
    unfold peekDisk
    cases kind : (mounts node.mnt).kind with
    | fs2 => exact peekFs2_calm calm kind readable error
    | dsfs => exact fun same => peekOf_calm _ error (Option.some.inj same)
    | dev =>
      dsimp only
      split_ifs
      · exact fun same => peekOf_calm _ error (Option.some.inj same)
      · cases devSlot p.cursor <;> exact fun same => Peek.noConfusion (Option.some.inj same)
      · exact fun same => Peek.noConfusion (Option.some.inj same)
    | virtual =>
      dsimp only
      split_ifs
      · exact fun same => peekOf_calm _ error (Option.some.inj same)
      · exact fun same => Peek.noConfusion (Option.some.inj same)
  unfold dirPeek
  split_ifs
  · cases found : peekDisk t mounts node fails p.cursor with
    | none => exact (Option.some_ne_none _).symm
    | some peek =>
      rw [found] at disk
      cases peek with
      | finished => exact fun same => peekReserved_calm 0 error (Option.some.inj same)
      | item item next => exact disk
      | failed e => exact disk
  · exact fun same => peekReserved_calm p.cursor error (Option.some.inj same)

end Server

end Src32.Fs
