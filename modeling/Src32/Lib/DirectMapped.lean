import Mathlib.Algebra.Order.Ring.Nat

namespace Src32.DirectMapped

open Function (update update_self update_of_ne)

/-!
# Direct-mapped caches

Every address has one line that may hold it.  A cache mirrors a medium if each
of its valid lines is the line of its address and holds what the medium has
there.
-/

variable {Address Slot Data : Type}

/-- A line: the address it holds, if it is valid, and the data. -/
structure Line (Address Data : Type) where
  address : Address
  valid : Bool
  data : Data

variable {place : Address -> Slot} {cache : Slot -> Line Address Data} {media : Address -> Data}

/-- The line of an address, if it holds the address. -/
def find [DecidableEq Address] (place : Address -> Slot) (cache : Slot -> Line Address Data) (a : Address) :
    Option (Line Address Data) :=
  if (cache (place a)).valid = true ∧ (cache (place a)).address = a then some (cache (place a)) else none

/-- The line of an address holds it from now on. -/
def fill [DecidableEq Slot] (place : Address -> Slot) (cache : Slot -> Line Address Data) (a : Address) (data : Data) :
    Slot -> Line Address Data :=
  update cache (place a) ⟨a, true, data⟩

/-- A line is not valid any more. -/
def drop [DecidableEq Slot] (cache : Slot -> Line Address Data) (k : Slot) : Slot -> Line Address Data :=
  update cache k { cache k with valid := false }

/-- What is cached is what the medium has. -/
def Mirrors (place : Address -> Slot) (cache : Slot -> Line Address Data) (media : Address -> Data) : Prop :=
  ∀ k, (cache k).valid = true -> place (cache k).address = k ∧ (cache k).data = media (cache k).address

variable {a : Address}

theorem find_some [DecidableEq Address] {line : Line Address Data} (found : find place cache a = some line) :
    line = cache (place a) ∧ line.valid = true ∧ line.address = a := by
  unfold find at found
  split at found
  · next holds =>
      cases found
      exact ⟨rfl, holds⟩
  · cases found

theorem find_none [DecidableEq Address] (missed : find place cache a = none)
    (valid : (cache (place a)).valid = true) : (cache (place a)).address ≠ a := by
  intro same
  unfold find at missed
  rw [if_pos ⟨valid, same⟩] at missed
  cases missed

theorem Mirrors.find_data [DecidableEq Address] (mirrors : Mirrors place cache media) {line : Line Address Data}
    (found : find place cache a = some line) : line.data = media a := by
  obtain ⟨rfl, valid, same⟩ := find_some found
  rw [(mirrors _ valid).2, same]

/-- No line is valid. -/
theorem mirrors_empty (place : Address -> Slot) (media : Address -> Data) (none : ∀ k, (cache k).valid = false) :
    Mirrors place cache media := by
  intro k valid
  rw [none k] at valid
  cases valid

theorem Mirrors.fill [DecidableEq Slot] (mirrors : Mirrors place cache media) {data : Data} (same : data = media a) :
    Mirrors place (fill place cache a data) media := by
  intro k valid
  unfold DirectMapped.fill at valid ⊢
  by_cases here : k = place a
  · rw [here, update_self]
    exact ⟨rfl, same⟩
  · rw [update_of_ne here] at valid ⊢
    exact mirrors k valid

/-- Only the line of an address can hold it. -/
theorem Mirrors.elsewhere (mirrors : Mirrors place cache media) {k : Slot} (other : k ≠ place a)
    (valid : (cache k).valid = true) : (cache k).address ≠ a := by
  intro same
  apply other
  rw [← same]
  exact (mirrors k valid).1.symm

/-- The medium changes at an address together with its line. -/
theorem Mirrors.write [DecidableEq Slot] [DecidableEq Address] (mirrors : Mirrors place cache media) (a : Address)
    (data : Data) : Mirrors place (DirectMapped.fill place cache a data) (update media a data) := by
  intro k valid
  unfold DirectMapped.fill at valid ⊢
  by_cases here : k = place a
  · rw [here, update_self]
    exact ⟨rfl, (update_self (f := media) a data).symm⟩
  · rw [update_of_ne here] at valid ⊢
    rw [update_of_ne (mirrors.elsewhere here valid)]
    exact mirrors k valid

/-- The medium may change at an address that is not cached. -/
theorem Mirrors.lose [DecidableEq Address] (mirrors : Mirrors place cache media) (gone : find place cache a = none)
    (data : Data) : Mirrors place cache (update media a data) := by
  intro k valid
  have other : (cache k).address ≠ a := by
    by_cases here : k = place a
    · rw [here] at valid ⊢
      exact find_none gone valid
    · exact mirrors.elsewhere here valid
  rw [update_of_ne other]
  exact mirrors k valid

theorem Mirrors.drop [DecidableEq Slot] (mirrors : Mirrors place cache media) (k : Slot) :
    Mirrors place (drop cache k) media := by
  intro j valid
  unfold DirectMapped.drop at valid ⊢
  by_cases here : j = k
  · rw [here, update_self] at valid
    cases valid
  · rw [update_of_ne here] at valid ⊢
    exact mirrors j valid

theorem find_drop [DecidableEq Slot] [DecidableEq Address] (a : Address) :
    find place (DirectMapped.drop cache (place a)) a = none := by
  unfold find DirectMapped.drop
  rw [update_self, if_neg (fun holds => by cases holds.1)]

/-- A list of addresses is filled. -/
def fillAll [DecidableEq Slot] (place : Address -> Slot) (cache : Slot -> Line Address Data)
    (entries : List (Address × Data)) : Slot -> Line Address Data :=
  entries.foldl (fun cache entry => fill place cache entry.1 entry.2) cache

theorem Mirrors.fillAll [DecidableEq Slot] (mirrors : Mirrors place cache media) {entries : List (Address × Data)}
    (same : ∀ entry ∈ entries, entry.2 = media entry.1) : Mirrors place (fillAll place cache entries) media := by
  unfold DirectMapped.fillAll
  induction entries generalizing cache with
  | nil => exact mirrors
  | cons entry rest ih =>
    exact ih (mirrors.fill (same entry List.mem_cons_self)) fun other member => same other (List.mem_cons_of_mem _ member)

/-- Addresses with other lines do not touch a line. -/
theorem fillAll_away [DecidableEq Slot] {entries : List (Address × Data)} {k : Slot}
    (away : ∀ entry ∈ entries, place entry.1 ≠ k) : fillAll place cache entries k = cache k := by
  unfold DirectMapped.fillAll
  induction entries generalizing cache with
  | nil => rfl
  | cons entry rest ih =>
    rw [List.foldl_cons, ih fun other member => away other (List.mem_cons_of_mem _ member)]
    unfold fill
    rw [update_of_ne (away entry List.mem_cons_self).symm]

/-- The first address of a list is cached if the others have other lines. -/
theorem fillAll_first [DecidableEq Slot] {data : Data} {entries : List (Address × Data)}
    (away : ∀ entry ∈ entries, place entry.1 ≠ place a) :
    fillAll place cache ((a, data) :: entries) (place a) = ⟨a, true, data⟩ := by
  have after := @fillAll_away _ _ _ place (fill place cache a data) _ entries (place a) away
  unfold fill at after
  rw [update_self] at after
  exact after

end Src32.DirectMapped
