import Mathlib.Algebra.Order.Ring.Nat
import Mathlib.Data.List.Basic

namespace Src32

/-!
# Scans

## First fit

The search for the lowest run of free cells in a row: a counter of the free
cells just passed, reset at every taken one.
-/

/-- The loop: `left` cells from `at_` on are still to be looked at, and the
`run` cells before them are free. -/
def firstFit (taken : Nat -> Bool) (size : Nat) : Nat -> Nat -> Nat -> Option Nat
  | 0, _, _ => none
  | left + 1, at_, run =>
    let run := if taken at_ then 0 else run + 1
    if run = size then some (at_ + 1 - size) else firstFit taken size left (at_ + 1) run

/-- A run that is found is free and in range. -/
theorem firstFit_spec {taken : Nat -> Bool} {size left at_ run found : Nat} (short : run ≤ at_)
    (free : ∀ k, at_ - run ≤ k -> k < at_ -> taken k = false)
    (done : firstFit taken size left at_ run = some found) :
    found + size ≤ at_ + left ∧ ∀ k, found ≤ k -> k < found + size -> taken k = false := by
  induction left generalizing at_ run with
  | zero => cases done
  | succ left ih =>
    unfold firstFit at done
    dsimp only at done
    have longer : (if taken at_ then 0 else run + 1) ≤ at_ + 1 := by split <;> omega
    have clear : ∀ k, at_ + 1 - (if taken at_ then 0 else run + 1) ≤ k -> k < at_ + 1 ->
        taken k = false := by
      intro k above below
      cases here : taken at_ with
      | true =>
        rw [here, if_pos rfl] at above
        omega
      | false =>
        rw [here, if_neg Bool.false_ne_true] at above
        by_cases last : k = at_
        · rw [last]
          exact here
        · exact free k (by omega) (by omega)
    generalize (if taken at_ then 0 else run + 1) = next at done longer clear
    split_ifs at done with whole
    · cases done
      subst whole
      exact ⟨by omega, fun k above below => clear k above (by omega)⟩
    · obtain ⟨fits, all⟩ := ih longer clear done
      exact ⟨by omega, all⟩

/-!
## The first least element of a list

A scan that replaces its candidate only by a strictly smaller one ends with the
first of the least elements below the bound it starts from.
-/

section FirstLeast

variable {α : Type} (key : α -> Nat)

/-- Keep the candidate unless the next element is strictly below it. -/
def keepLess (best : Nat × Option α) (next : α) : Nat × Option α :=
  if key next < best.1 then (key next, some next) else best

/-- A scan whose candidate stays below every element keeps the candidate. -/
theorem foldl_keepLess_of_le (best : Nat × Option α) (elements : List α) (least : ∀ x ∈ elements, best.1 ≤ key x) :
    elements.foldl (keepLess key) best = best := by
  induction elements with
  | nil => rfl
  | cons x rest ih =>
    have stays : keepLess key best x = best := if_neg (Nat.not_lt.mpr (least x List.mem_cons_self))
    rw [List.foldl_cons, stays]
    exact ih (fun y member => least y (List.mem_cons_of_mem _ member))

/-- The scan finds the first least element once some element is below the bound
it starts from. -/
theorem foldl_keepLess (best : Nat × Option α) (elements : List α) (some_lt : ∃ x ∈ elements, key x < best.1) :
    ∃ before winner after, elements = before ++ winner :: after ∧
      elements.foldl (keepLess key) best = (key winner, some winner) ∧
      (∀ x ∈ before, key winner < key x) ∧ ∀ x ∈ after, key winner ≤ key x := by
  induction elements generalizing best with
  | nil =>
    obtain ⟨x, member, -⟩ := some_lt
    exact absurd member List.not_mem_nil
  | cons x rest ih =>
    rw [List.foldl_cons]
    by_cases lower : ∃ y ∈ rest, key y < (keepLess key best x).1
    · -- the winner comes later and is below what the scan kept here
      obtain ⟨before, winner, after, rfl, found, earlier, later⟩ := ih _ lower
      have below : key winner < (keepLess key best x).1 := by
        obtain ⟨y, member, less⟩ := lower
        rcases List.mem_append.mp member with inBefore | inAfter
        · exact Nat.lt_trans (earlier y inBefore) less
        · rcases List.mem_cons.mp inAfter with rfl | inAfter
          · exact less
          · exact Nat.lt_of_le_of_lt (later y inAfter) less
      have head : key winner < key x := by
        unfold keepLess at below
        split at below
        · exact below
        · next kept => exact Nat.lt_of_lt_of_le below (Nat.not_lt.mp kept)
      refine ⟨x :: before, winner, after, rfl, found, ?_, later⟩
      intro y member
      rcases List.mem_cons.mp member with rfl | member
      · exact head
      · exact earlier y member
    · -- the first element is the winner
      have least : ∀ y ∈ rest, (keepLess key best x).1 ≤ key y :=
        fun y member => Nat.not_lt.mp (fun less => lower ⟨y, member, less⟩)
      have replaced : key x < best.1 := by
        by_contra kept
        have same : keepLess key best x = best := if_neg kept
        obtain ⟨y, member, less⟩ := some_lt
        rcases List.mem_cons.mp member with rfl | member
        · exact kept less
        · have bound := least y member
          rw [same] at bound
          exact absurd less (Nat.not_lt.mpr bound)
      have new : keepLess key best x = (key x, some x) := if_pos replaced
      refine ⟨[], x, rest, rfl, ?_, fun y member => absurd member List.not_mem_nil, ?_⟩
      · rw [foldl_keepLess_of_le key _ rest least, new]
      · intro y member
        have bound := least y member
        rwa [new] at bound

end FirstLeast

end Src32
