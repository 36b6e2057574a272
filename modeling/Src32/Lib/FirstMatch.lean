import Mathlib.Algebra.Order.Ring.Nat
import Mathlib.Data.List.Basic

namespace Src32.FirstMatch

/-!
# First match in a fixed table

A small associative memory is a vector searched from its first slot.  The
lemmas here say what overwriting one slot does to such a search: a hit in
another slot survives when it was found before the overwritten one, a missing
key is found at its new slot, and slots that do not match are interchangeable.
`AtMostOne` is the invariant under which the order of the search is
immaterial.
-/

variable {α : Type} {n : Nat} {p : α -> Bool} {table : Vector α n}

/-- A search that failed finds the entry that is then stored. -/
theorem find?_set_of_none {i : Nat} (bound : i < n) {new : α} (missing : table.find? p = none)
    (matching : p new) : (table.set i new).find? p = some new := by
  rw [Vector.find?_eq_some_iff_getElem]
  refine ⟨matching, i, bound, Vector.getElem_set_self bound, ?_⟩
  intro j earlier
  rw [Vector.getElem_set_ne bound (by omega) (by omega)]
  have noHit := Vector.find?_eq_none.mp missing table[j] (Vector.getElem_mem (by omega))
  simpa using noHit

/-- Two entries that do not match are the same to a search. -/
theorem find?_set_congr {i : Nat} (bound : i < n) {first second : α} (firstMisses : p first = false)
    (secondMisses : p second = false) : (table.set i first).find? p = (table.set i second).find? p := by
  have same : ∀ (j : Nat) (h : j < n),
      p (table.set i first)[j] = p (table.set i second)[j] ∧
        (p (table.set i first)[j] = true -> (table.set i first)[j] = (table.set i second)[j]) := by
    intro j h
    by_cases equal : i = j
    · subst equal
      simp [firstMisses, secondMisses]
    · simp [Vector.getElem_set_ne bound h equal]
  apply Option.ext
  intro found
  rw [Vector.find?_eq_some_iff_getElem, Vector.find?_eq_some_iff_getElem]
  constructor
  · rintro ⟨hit, j, h, rfl, earlier⟩
    refine ⟨hit, j, h, ((same j h).2 hit).symm, ?_⟩
    intro k before
    rw [← (same k (by omega)).1]
    exact earlier k before
  · rintro ⟨hit, j, h, rfl, earlier⟩
    refine ⟨hit, j, h, (same j h).2 ((same j h).1.trans hit), ?_⟩
    intro k before
    rw [(same k (by omega)).1]
    exact earlier k before

/-- The slot of the first match. -/
def IsFirst (p : α -> Bool) (table : Vector α n) (i : Fin n) : Prop :=
  p table[i] = true ∧ ∀ j : Fin n, j < i -> p table[j] = false

instance (i : Fin n) : Decidable (IsFirst p table i) :=
  inferInstanceAs (Decidable (_ ∧ _))

/-- A hit survives an overwrite of any slot but its own by an entry that does
not match. -/
theorem find?_set_of_not_isFirst {i : Fin n} {new : α} (newMisses : p new = false)
    (other : ¬ IsFirst p table i) : (table.set i new).find? p = table.find? p := by
  apply Option.ext
  intro found
  rw [Vector.find?_eq_some_iff_getElem, Vector.find?_eq_some_iff_getElem]
  constructor
  · rintro ⟨hit, j, h, rfl, earlier⟩
    have apart : i.val ≠ j := by
      rintro rfl
      simp [newMisses] at hit
    rw [Vector.getElem_set_ne i.isLt h apart] at hit ⊢
    refine ⟨hit, j, h, rfl, ?_⟩
    intro k before
    by_cases same : i.val = k
    · subst same
      by_contra hits
      refine other ⟨by simpa using hits, ?_⟩
      intro m less
      have miss := earlier m (by omega)
      rw [Vector.getElem_set_ne i.isLt m.isLt (by omega)] at miss
      simpa using miss
    · have miss := earlier k before
      rwa [Vector.getElem_set_ne i.isLt (by omega) same] at miss
  · rintro ⟨hit, j, h, rfl, earlier⟩
    have apart : i.val ≠ j := by
      rintro rfl
      exact other ⟨hit, fun m less => by simpa using earlier m less⟩
    refine ⟨by simpa [Vector.getElem_set_ne i.isLt h apart] using hit, j, h,
      Vector.getElem_set_ne i.isLt h apart, ?_⟩
    intro k before
    by_cases same : i.val = k
    · subst same
      simp [newMisses]
    · rw [Vector.getElem_set_ne i.isLt (by omega) same]
      exact earlier k before

/-- A found entry is stored in some slot and matches. -/
theorem exists_slot_of_find? {found : α} (hit : table.find? p = some found) :
    (∃ i : Fin n, table[i] = found) ∧ p found = true := by
  obtain ⟨matching, i, h, same, _⟩ := Vector.find?_eq_some_iff_getElem.mp hit
  exact ⟨⟨⟨i, h⟩, same⟩, matching⟩

/-- No two slots match. -/
def AtMostOne (p : α -> Bool) (table : Vector α n) : Prop :=
  ∀ i j : Fin n, p table[i] = true -> p table[j] = true -> i = j

theorem AtMostOne.of_misses (misses : ∀ i : Fin n, p table[i] = false) : AtMostOne p table := by
  intro i j hit _
  exact absurd hit (by simp only [misses i, Bool.false_eq_true, not_false_iff])

/-- Storing an entry keeps the table free of double matches when the entry does
not match or nothing matched before. -/
theorem AtMostOne.set {i : Fin n} {new : α} (unique : AtMostOne p table)
    (fresh : p new = true -> table.find? p = none) : AtMostOne p (table.set i new) := by
  intro j k
  by_cases first : i.val = j.val <;> by_cases second : i.val = k.val
  · intro _ _
    exact Fin.ext (first ▸ second)
  · intro hitFirst hitSecond
    have stored : p new = true := by
      simpa [Fin.getElem_fin, ← first] using hitFirst
    have noHit := Vector.find?_eq_none.mp (fresh stored) table[k] (Vector.getElem_mem k.isLt)
    rw [Fin.getElem_fin, Vector.getElem_set_ne i.isLt k.isLt second] at hitSecond
    exact absurd hitSecond noHit
  · intro hitFirst hitSecond
    have stored : p new = true := by
      simpa [Fin.getElem_fin, ← second] using hitSecond
    have noHit := Vector.find?_eq_none.mp (fresh stored) table[j] (Vector.getElem_mem j.isLt)
    rw [Fin.getElem_fin, Vector.getElem_set_ne i.isLt j.isLt first] at hitFirst
    exact absurd hitFirst noHit
  · intro hitFirst hitSecond
    rw [Fin.getElem_fin, Vector.getElem_set_ne i.isLt j.isLt first] at hitFirst
    rw [Fin.getElem_fin, Vector.getElem_set_ne i.isLt k.isLt second] at hitSecond
    exact unique j k hitFirst hitSecond

/-- A map that only takes matches away keeps them unique. -/
theorem AtMostOne.map {β : Type} {q : β -> Bool} {f : α -> β} (unique : AtMostOne p table)
    (shrinks : ∀ a, q (f a) = true -> p a = true) : AtMostOne q (table.map f) := by
  intro i j hitFirst hitSecond
  exact unique i j (shrinks _ (by simpa using hitFirst)) (shrinks _ (by simpa using hitSecond))

end Src32.FirstMatch
