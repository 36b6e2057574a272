import Src32.Startup.Read

namespace Src32.Startup

open Fallible
open BitVec (ofNat)

/-!
# The layout of a startup block

What the loops of the writer leave in the buffer: a table whose entries name the
strings behind it.  The loops of the reader find the same strings there.
-/

/-- Bytes of some strings with their NULs. -/
def space (strings : List CString) : Nat := (strings.map fun s => s.bytes.length + 1).sum

/-- The table entries from entry `i` on name these strings, which follow one
another from `off` on. -/
def Stored (block : Buffer) (table i off : Nat) : List CString -> Prop
  | [] => True
  | s :: rest =>
    Holds block (table + 4 * i) (wordBytes (ofNat 32 off)) ∧ Holds block off s.stored ∧
      Stored block table (i + 1) (off + (s.bytes.length + 1)) rest

variable {block next : Buffer} {i off table : Nat}

theorem space_cons (s : CString) (rest : List CString) : space (s :: rest) = s.bytes.length + 1 + space rest := by
  unfold space
  rw [List.map_cons, List.sum_cons]

theorem length_stored (s : CString) : s.stored.length = s.bytes.length + 1 := by
  unfold CString.stored
  rw [List.length_append, List.length_singleton]

/-- Strings stay where neither they nor their table are written over. -/
theorem Stored.agree {strings : List CString} (stored : Stored block table i off strings)
    (entries : ∀ k, table + 4 * i ≤ k -> k < table + 4 * (i + strings.length) -> next k = block k)
    (bytes : ∀ k, off ≤ k -> k < off + space strings -> next k = block k) : Stored next table i off strings := by
  induction strings generalizing i off with
  | nil => trivial
  | cons s rest ih =>
    obtain ⟨entry, string, more⟩ := stored
    rw [List.length_cons] at entries
    rw [space_cons] at bytes
    refine ⟨entry.agree fun k above below => ?_, string.agree fun k above below => ?_, ih more ?_ ?_⟩
    · have four : (wordBytes (ofNat 32 off)).length = 4 := rfl
      exact entries k above (by omega)
    · rw [length_stored] at below
      exact bytes k above (by omega)
    · intro k above below
      exact entries k (by omega) (by omega)
    · intro k above below
      exact bytes k (by omega) (by omega)

/-! ## The writer -/

theorem strLen_succ (s : CString) : (strLen s + 1).toNat = s.bytes.length + 1 := by
  have fits := s.fits
  have one : (1 : Word).toNat = 1 := rfl
  unfold strLen
  rw [BitVec.toNat_add, BitVec.toNat_ofNat, one]
  omega

theorem max_toNat : startupMax.toNat = 4096 := rfl

/-- A string loop stores all strings, or there is no room for them. -/
theorem putStrings_cases (strings : List CString) {table off : Word} (aligned : table.toNat % 4 = 0)
    (below : table.toNat + 4 * (i + strings.length) ≤ off.toNat) (inside : off.toNat ≤ 4096) :
    (4096 < off.toNat + space strings ∧ putStrings table block i off strings = .error .limit) ∨
      (off.toNat + space strings ≤ 4096 ∧ ∃ next final, putStrings table block i off strings = .ok (next, final) ∧
        final.toNat = off.toNat + space strings ∧ Stored next table.toNat i off.toNat strings ∧
        ∀ k, k < table.toNat + 4 * i ∨ (table.toNat + 4 * (i + strings.length) ≤ k ∧ k < off.toNat) ∨
          off.toNat + space strings ≤ k -> next k = block k) := by
  induction strings generalizing block i off with
  | nil =>
    have none : space [] = 0 := rfl
    exact Or.inr ⟨by omega, block, off, rfl, by omega, trivial, fun _ _ => rfl⟩
  | cons s rest ih =>
    rw [List.length_cons] at below ⊢
    rw [space_cons]
    have length := strLen_succ s
    have room : (startupMax - off).toNat = 4096 - off.toNat := by
      have max := max_toNat
      bv_omega
    unfold putStrings
    dsimp only
    by_cases long : strLen s + 1 > startupMax - off
    · have more : (startupMax - off).toNat < (strLen s + 1).toNat := long
      exact Or.inl ⟨by omega, if_pos long⟩
    · rw [if_neg long]
      have most : ¬ (startupMax - off).toNat < (strLen s + 1).toNat := long
      have slot : 4 * (table.toNat / 4 + i) = table.toNat + 4 * i := by omega
      rw [max_toNat, storeWord_ok (by omega)]
      dsimp only
      rw [storeBytes_ok (by rw [length_stored]; omega)]
      dsimp only
      rw [slot]
      have ends : (off + (strLen s + 1)).toNat = off.toNat + (s.bytes.length + 1) := by
        rw [BitVec.toNat_add, length]
        omega
      have four : (wordBytes off).length = 4 := rfl
      -- The string and its entry are in place before the rest follows.
      generalize written : (block.patch (table.toNat + 4 * i) (wordBytes off)).patch off.toNat s.stored = middle
      have entry : Holds middle (table.toNat + 4 * i) (wordBytes off) := by
        rw [← written]
        exact (holds_patch _ _ _).patch (Or.inl (by omega))
      have string : Holds middle off.toNat s.stored := by
        rw [← written]
        exact holds_patch _ _ _
      have outside : ∀ k, k < table.toNat + 4 * i ∨ (table.toNat + 4 * (i + 1) ≤ k ∧ k < off.toNat) ∨
          off.toNat + (s.bytes.length + 1) ≤ k -> middle k = block k := by
        intro k apart
        rw [← written, patch_outside (by rw [length_stored]; omega), patch_outside (by omega)]
      have following : table.toNat + 4 * (i + 1 + rest.length) ≤ (off + (strLen s + 1)).toNat := by omega
      rcases ih following (by omega) with ⟨excess, failed⟩ | ⟨fits, next, final, done, last, stored, frame⟩
      · exact Or.inl ⟨by omega, failed⟩
      · rw [ends] at last stored frame
        refine Or.inr ⟨by omega, next, final, done, by omega, ⟨?_, ?_, stored⟩, fun k apart => ?_⟩
        · rw [BitVec.ofNat_toNat, BitVec.setWidth_eq]
          exact entry.agree fun k above less => frame k (Or.inl (by omega))
        · refine string.agree fun k above less => frame k (Or.inr (Or.inl ⟨by omega, ?_⟩))
          rw [length_stored] at less
          omega
        · rw [frame k (by omega), outside k (by omega)]

/-- The pairs of the role table. -/
theorem putRoles_ok {roles : Word} (aligned : roles.toNat % 4 = 0) (count : Nat)
    (inside : roles.toNat + 8 * (i + count) ≤ 4096) : ∃ next, putRoles roles block i count = .ok next ∧
      (∀ m, i ≤ m -> m < i + count -> Holds next (roles.toNat + 8 * m) (wordBytes (ofNat 32 (m + 1))) ∧
        Holds next (roles.toNat + 8 * m + 4) (wordBytes (ofNat 32 (m + 1)))) ∧
      ∀ k, k < roles.toNat + 8 * i ∨ roles.toNat + 8 * (i + count) ≤ k -> next k = block k := by
  induction count generalizing block i with
  | zero => exact ⟨block, rfl, fun m above below => by omega, fun _ _ => rfl⟩
  | succ count ih =>
    have first : 4 * (roles.toNat / 4 + 2 * i) = roles.toNat + 8 * i := by omega
    have second : 4 * (roles.toNat / 4 + 2 * i + 1) = roles.toNat + 8 * i + 4 := by omega
    unfold putRoles
    rw [max_toNat, storeWord_ok (by omega)]
    dsimp only
    rw [storeWord_ok (by omega)]
    dsimp only
    rw [first, second]
    have four : (wordBytes (ofNat 32 (i + 1))).length = 4 := rfl
    generalize written : (block.patch (roles.toNat + 8 * i) (wordBytes (ofNat 32 (i + 1)))).patch
      (roles.toNat + 8 * i + 4) (wordBytes (ofNat 32 (i + 1))) = middle
    obtain ⟨next, done, pairs, frame⟩ := @ih middle (i + 1) (by omega)
    refine ⟨next, done, fun m above below => ?_, fun k apart => ?_⟩
    · by_cases here : m = i
      · rw [here]
        have name : Holds middle (roles.toNat + 8 * i) (wordBytes (ofNat 32 (i + 1))) := by
          rw [← written]
          exact (holds_patch _ _ _).patch (Or.inl (by omega))
        have handle : Holds middle (roles.toNat + 8 * i + 4) (wordBytes (ofNat 32 (i + 1))) := by
          rw [← written]
          exact holds_patch _ _ _
        exact ⟨name.agree fun k above less => frame k (Or.inl (by omega)),
          handle.agree fun k above less => frame k (Or.inl (by omega))⟩
      · exact pairs m (by omega) (by omega)
    · rw [frame k (by omega), ← written, patch_outside (by omega), patch_outside (by omega)]

/-- The words of the header. -/
theorem putHeader_ok (values : List Word) {w : Nat} (inside : 4 * (w + values.length) ≤ 4096) :
    ∃ next, putHeader block w values = .ok next ∧
      (∀ (m : Nat) value, values[m]? = some value -> Holds next (4 * (w + m)) (wordBytes value)) ∧
      ∀ k, k < 4 * w ∨ 4 * (w + values.length) ≤ k -> next k = block k := by
  induction values generalizing block w with
  | nil =>
    refine ⟨block, rfl, fun m value found => ?_, fun _ _ => rfl⟩
    cases found
  | cons value rest ih =>
    rw [List.length_cons] at inside ⊢
    unfold putHeader
    rw [max_toNat, storeWord_ok (by omega)]
    dsimp only
    obtain ⟨next, done, words, frame⟩ := @ih (block.patch (4 * w) (wordBytes value)) (w + 1) (by omega)
    have four : (wordBytes value).length = 4 := rfl
    refine ⟨next, done, fun m other found => ?_, fun k apart => ?_⟩
    · cases m with
      | zero =>
        cases found
        exact (holds_patch block (4 * w) (wordBytes value)).agree fun k above less => frame k (Or.inl (by omega))
      | succ m =>
        have later := words m other found
        have index : w + 1 + m = w + (m + 1) := by omega
        rw [index] at later
        exact later
    · rw [frame k (by omega), patch_outside (by omega)]

/-! ## The reader -/

theorem scan_holds {bytes : List Byte} (clean : ∀ b ∈ bytes, b ≠ 0) (holds : Holds block i (bytes ++ [0])) {left : Nat}
    (room : bytes.length < left) : scan block left i = some bytes := by
  induction bytes generalizing i left with
  | nil =>
    cases left with
    | zero => cases room
    | succ left =>
      have zero : block i = 0 := holds 0 Nat.one_pos
      unfold scan
      rw [if_pos zero]
  | cons b rest ih =>
    cases left with
    | zero => cases room
    | succ left =>
      rw [List.length_cons] at room
      have first : block i = b := holds 0 (by rw [List.length_append, List.length_cons]; omega)
      have nonzero : ¬ block i = 0 := by
        rw [first]
        exact clean b List.mem_cons_self
      have later : Holds block (i + 1) (rest ++ [0]) := by
        intro k inside
        have here := holds (k + 1) (by rw [List.cons_append, List.length_cons]; omega)
        have index : i + 1 + k = i + (k + 1) := by omega
        rw [index]
        exact here
      unfold scan
      rw [if_neg nonzero, ih (fun c member => clean c (List.mem_cons_of_mem b member)) later (by omega), first]
      rfl

theorem blockString_holds {s : CString} {offset size : Word} (holds : Holds block offset.toNat s.stored)
    (inside : offset.toNat + (s.bytes.length + 1) ≤ size.toNat) : blockString block offset size = some s.bytes :=
  scan_holds s.clean holds (by omega)

/-- The reader finds the stored strings. -/
theorem readStrings_stored {strings : List CString} {table size : Word} (aligned : table.toNat % 4 = 0)
    (stored : Stored block table.toNat i off strings) (below : table.toNat + 4 * (i + strings.length) ≤ size.toNat)
    (inside : off + space strings ≤ size.toNat) :
    readStrings block size table i strings.length = .ok (some (strings.map CString.bytes)) := by
  induction strings generalizing i off with
  | nil => rfl
  | cons s rest ih =>
    obtain ⟨entry, string, more⟩ := stored
    rw [List.length_cons] at below ⊢
    rw [space_cons] at inside
    have limit := size.isLt
    have slot : 4 * (table.toNat / 4 + i) = table.toNat + 4 * i := by omega
    rw [← slot] at entry
    have offset : (ofNat 32 off).toNat = off := by
      rw [BitVec.toNat_ofNat]
      omega
    unfold readStrings
    rw [entry.loadWord (by omega)]
    dsimp only
    rw [← offset] at string
    rw [blockString_holds string (by omega)]
    dsimp only
    rw [ih more (by omega) (by omega)]
    rfl

/-- The reader finds the stored roles. -/
theorem readRoles_stored {roles size : Word} (aligned : roles.toNat % 4 = 0) (count : Nat) (role : Nat -> Word)
    (pairs : ∀ m, i ≤ m -> m < i + count -> Holds block (roles.toNat + 8 * m) (wordBytes (ofNat 32 (m + 1))) ∧
      Holds block (roles.toNat + 8 * m + 4) (wordBytes (ofNat 32 (m + 1)))) (known : i + count ≤ 5)
    (inside : roles.toNat + 8 * (i + count) ≤ size.toNat) : ∃ final, readRoles block size roles i role count = .ok final ∧
      ∀ k, final k = if i < k ∧ k ≤ i + count then ofNat 32 k else role k := by
  induction count generalizing i role with
  | zero =>
    refine ⟨role, rfl, fun k => ?_⟩
    rw [if_neg (by omega)]
  | succ count ih =>
    obtain ⟨name, handle⟩ := pairs i (Nat.le_refl i) (by omega)
    have first : roles.toNat + 8 * i = 4 * (roles.toNat / 4 + 2 * i) := by omega
    have second : roles.toNat + 8 * i + 4 = 4 * (roles.toNat / 4 + 2 * i + 1) := by omega
    rw [first] at name
    rw [second] at handle
    have index : (ofNat 32 (i + 1)).toNat = i + 1 := by
      rw [BitVec.toNat_ofNat]
      omega
    have valid : ofNat 32 (i + 1) ≥ 1 ∧ ofNat 32 (i + 1) ≤ 5 := by
      constructor
      · change (1 : Word).toNat ≤ (ofNat 32 (i + 1)).toNat
        have one : (1 : Word).toNat = 1 := rfl
        omega
      · change (ofNat 32 (i + 1)).toNat ≤ (5 : Word).toNat
        have five : (5 : Word).toNat = 5 := rfl
        omega
    unfold readRoles
    rw [name.loadWord (by omega)]
    dsimp only
    rw [handle.loadWord (by omega)]
    dsimp only
    rw [if_pos valid, index]
    obtain ⟨final, done, result⟩ := ih (i := i + 1) (fun k => if k = i + 1 then ofNat 32 (i + 1) else role k)
      (fun m above below => pairs m (by omega) (by omega)) (by omega) (by omega)
    refine ⟨final, done, fun k => ?_⟩
    rw [result k]
    by_cases here : k = i + 1
    · have now : i < k ∧ k ≤ i + (count + 1) := ⟨by omega, by omega⟩
      rw [if_neg (by omega), if_pos now, if_pos here, here]
    · by_cases later : i + 1 < k ∧ k ≤ i + 1 + count
      · have now : i < k ∧ k ≤ i + (count + 1) := ⟨by omega, by omega⟩
        rw [if_pos later, if_pos now]
      · have never : ¬ (i < k ∧ k ≤ i + (count + 1)) := by omega
        rw [if_neg later, if_neg never, if_neg here]

end Src32.Startup
