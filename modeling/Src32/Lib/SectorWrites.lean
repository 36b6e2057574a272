import Mathlib.Data.List.Basic

namespace Src32

/-!
# Writes of whole sectors

A disk as its bytes, and the sectors that are written to it one after another.  A write of
several sectors is a list of single ones, so what a cut of the power or an error leaves is
what a prefix of the list leaves.
-/

namespace SectorWrites

variable {α : Type} {size : Nat} {disk : Nat -> α}

/-- A sector and its new bytes. -/
structure Write (α : Type) where
  sector : Nat
  data : Nat -> α

/-- The disk after a write. -/
def apply (size : Nat) (disk : Nat -> α) (w : Write α) : Nat -> α :=
  fun a => if a / size = w.sector then w.data (a % size) else disk a

/-- The disk after a list of writes. -/
def after (size : Nat) (disk : Nat -> α) (writes : List (Write α)) : Nat -> α := writes.foldl (apply size) disk

/-- The writes of `count` sectors from a buffer. -/
def run (size first count : Nat) (buffer : Nat -> α) : List (Write α) :=
  (List.range count).map fun k => ⟨first + k, fun o => buffer (k * size + o)⟩

theorem after_nil : after size disk [] = disk := rfl

theorem after_append (first second : List (Write α)) : after size disk (first ++ second) = after size (after size disk first) second :=
  List.foldl_append

/-- The bytes after a run of sectors. -/
theorem after_run (positive : 0 < size) (first count : Nat) (buffer : Nat -> α) (a : Nat) :
    after size disk (run size first count buffer) a =
      if first * size ≤ a ∧ a < (first + count) * size then buffer (a - first * size) else disk a := by
  induction count with
  | zero =>
    rw [if_neg (fun inside => absurd inside.2 (Nat.not_lt.mpr inside.1))]
    rfl
  | succ count ih =>
    have last : run size first (count + 1) buffer =
        run size first count buffer ++ [⟨first + count, fun o => buffer (count * size + o)⟩] := by
      unfold run
      rw [List.range_succ, List.map_append]
      rfl
    have split := Nat.div_add_mod' a size
    have small := Nat.mod_lt a positive
    rw [last, after_append]
    show (if a / size = first + count then buffer (count * size + a % size) else
      after size disk (run size first count buffer) a) = _
    have next : (first + (count + 1)) * size = (first + count) * size + size := by
      rw [← Nat.add_assoc, Nat.add_mul _ 1, Nat.one_mul]
    have whole : (first + count) * size = first * size + count * size := Nat.add_mul ..
    by_cases here : a / size = first + count
    · rw [here] at split
      rw [if_pos here, if_pos ⟨by omega, by omega⟩]
      congr 1
      omega
    · rw [if_neg here, ih]
      by_cases inside : first * size ≤ a ∧ a < (first + count) * size
      · rw [if_pos inside, if_pos ⟨inside.1, by omega⟩]
      · rw [if_neg inside, if_neg]
        rintro ⟨low, high⟩
        refine here (Nat.div_eq_of_lt_le ?_ ?_)
        · exact Nat.not_lt.mp fun less => inside ⟨low, less⟩
        · rw [Nat.add_mul _ 1, Nat.one_mul, ← next]
          exact high

/-- A prefix of a run is a shorter run. -/
theorem take_run (first count n : Nat) (buffer : Nat -> α) :
    (run size first count buffer).take n = run size first (min n count) buffer := by
  unfold run
  rw [← List.map_take, List.take_range]

/-- A property that holds all along two lists of writes holds all along the whole. -/
theorem prefixes_append {p : (Nat -> α) -> Prop} {first second : List (Write α)}
    (begins : ∀ n, p (after size disk (first.take n)))
    (ends : ∀ n, p (after size (after size disk first) (second.take n))) (n : Nat) :
    p (after size disk ((first ++ second).take n)) := by
  rw [List.take_append]
  by_cases short : n ≤ first.length
  · rw [Nat.sub_eq_zero_of_le short, List.take_zero, List.append_nil]
    exact begins n
  · rw [List.take_of_length_le (Nat.le_of_not_le short), after_append]
    exact ends (n - first.length)

/-- A property that holds all along a list of writes holds at its end. -/
theorem of_prefixes {p : (Nat -> α) -> Prop} {writes : List (Write α)}
    (along : ∀ n, p (after size disk (writes.take n))) : p (after size disk writes) := by
  have whole := along writes.length
  rwa [List.take_length] at whole

end SectorWrites
end Src32
