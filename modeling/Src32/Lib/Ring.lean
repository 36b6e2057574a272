import Mathlib.Algebra.Order.Ring.Nat
import Mathlib.Data.List.Basic
import Mathlib.Data.Nat.ModEq

namespace Src32

/-!
# Ring buffers

A ring buffer stores a queue in an array that is used round and round: `head`
is the cell of the oldest element and `count` says how many follow.  What it
holds is the list of its contents; elements are taken off its front and added
at its end.
-/

/-- Positions count on past the end of the array. -/
structure Ring (α : Type) where
  head : Nat
  count : Nat
  cells : Nat -> α

namespace Ring

variable {α : Type} {size : Nat} {r : Ring α}

/-- The elements from position `start` on. -/
def read (cells : Nat -> α) (size start n : Nat) : List α := (List.range n).map fun k => cells ((start + k) % size)

/-- Elements are stored from position `start` on. -/
def store (size : Nat) : (Nat -> α) -> Nat -> List α -> Nat -> α
  | cells, _, [] => cells
  | cells, start, a :: rest => store size (Function.update cells (start % size) a) (start + 1) rest

/-- The elements in the buffer, the oldest first. -/
def contents (r : Ring α) (size : Nat) : List α := read r.cells size r.head r.count

/-- The oldest `n` elements. -/
def front (r : Ring α) (size n : Nat) : List α := read r.cells size r.head n

/-- The oldest `n` elements go. -/
def take (r : Ring α) (size n : Nat) : Ring α := { r with head := (r.head + n) % size, count := r.count - n }

/-- Elements join at the end. -/
def put (r : Ring α) (size : Nat) (items : List α) : Ring α :=
  { r with cells := store size r.cells (r.head + r.count) items, count := r.count + items.length }

theorem read_length (cells : Nat -> α) (size start n : Nat) : (read cells size start n).length = n := by
  unfold read
  rw [List.length_map, List.length_range]

/-- Reading on past `m` elements. -/
theorem read_add (cells : Nat -> α) (size start m n : Nat) :
    read cells size start (m + n) = read cells size start m ++ read cells size (start + m) n := by
  unfold read
  rw [List.range_add, List.map_append, List.map_map]
  congr 1
  apply List.map_congr_left
  intro k _
  change cells ((start + (m + k)) % size) = cells ((start + m + k) % size)
  rw [Nat.add_assoc]

/-- Only the position in the array counts. -/
theorem read_mod (cells : Nat -> α) (size start n : Nat) : read cells size (start % size) n = read cells size start n := by
  unfold read
  apply List.map_congr_left
  intro k _
  rw [Nat.mod_add_mod]

/-- What is read off the front is what is no longer there. -/
theorem contents_front {n : Nat} (few : n ≤ r.count) : r.front size n ++ (r.take size n).contents size = r.contents size := by
  unfold contents take front
  dsimp only
  rw [read_mod, ← read_add, Nat.add_sub_cancel' few]

/-- Distinct positions less than a round apart are distinct cells. -/
theorem apart {start i j : Nat} (first : i < size) (second : j < size) (same : (start + i) % size = (start + j) % size) :
    i = j := by
  have equal : i % size = j % size := Nat.ModEq.add_left_cancel' start same
  rwa [Nat.mod_eq_of_lt first, Nat.mod_eq_of_lt second] at equal

theorem store_away (items : List α) {cells : Nat -> α} {start i : Nat}
    (away : ∀ j < items.length, i ≠ (start + j) % size) : store size cells start items i = cells i := by
  induction items generalizing cells start with
  | nil => rfl
  | cons a rest ih =>
    change store size (Function.update cells (start % size) a) (start + 1) rest i = cells i
    rw [ih fun j few => ?_]
    · exact Function.update_of_ne (away 0 (Nat.succ_pos _)) ..
    · have other := away (j + 1) (Nat.succ_lt_succ few)
      rw [Nat.add_assoc, Nat.add_comm 1 j]
      exact other

/-- What was stored is read back. -/
theorem read_store (items : List α) {cells : Nat -> α} {start : Nat} (fits : items.length ≤ size) :
    read (store size cells start items) size start items.length = items := by
  induction items generalizing cells start with
  | nil => rfl
  | cons a rest ih =>
    have fewer : rest.length < size := fits
    rw [List.length_cons, Nat.add_comm, read_add]
    change read _ size start 1 ++ read (store size (Function.update cells (start % size) a) (start + 1) rest) size
      (start + 1) rest.length = _
    rw [ih fewer.le]
    have first : store size cells start (a :: rest) ((start + 0) % size) = a := by
      change store size (Function.update cells (start % size) a) (start + 1) rest (start % size) = a
      rw [store_away rest fun j few same => ?_]
      · exact Function.update_self ..
      · rw [Nat.add_assoc] at same
        have zero : 0 = 1 + j := apart (by omega) (by omega) same
        omega
    change [store size cells start (a :: rest) ((start + 0) % size)] ++ rest = a :: rest
    rw [first]
    rfl

theorem contents_put {items : List α} (fits : r.count + items.length ≤ size) :
    (r.put size items).contents size = r.contents size ++ items := by
  unfold contents put
  dsimp only
  rw [read_add, read_store items (by omega)]
  congr 1
  apply List.map_congr_left
  intro k member
  have less := List.mem_range.mp member
  apply store_away
  intro j few same
  rw [Nat.add_assoc] at same
  have equal := apart (by omega) (by omega) same
  omega

end Ring
end Src32
