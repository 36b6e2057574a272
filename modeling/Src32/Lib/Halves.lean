import Mathlib.Logic.Function.Basic

namespace Src32

open Function (update_self update_of_ne)

/-!
# Characters of two cells in a line

A line of cells where a character may take two cells.  A cell is of kind 1 if it is the
first half of such a character, of kind 2 if it is the second half, and of another kind
otherwise.  Overwriting a half frees the other one, so halves always stand together.
-/

namespace Halves

variable {width : Nat} {k : Nat -> Nat}

/-- Every first half is followed by a second half, and every second half follows a first one. -/
def Paired (width : Nat) (k : Nat -> Nat) : Prop :=
  ∀ x < width, (k x = 1 -> x + 1 < width ∧ k (x + 1) = 2) ∧ (k x = 2 -> 0 < x ∧ k (x - 1) = 1)

/-- The other half of a character becomes a cell of its own. -/
def breakAt (width : Nat) (k : Nat -> Nat) (x : Nat) : Nat -> Nat :=
  if k x = 1 ∧ x + 1 < width ∧ k (x + 1) = 2 then Function.update k (x + 1) 0
  else if k x = 2 ∧ x ≠ 0 ∧ k (x - 1) = 1 then Function.update k (x - 1) 0
  else k

def overwrite (width : Nat) (k : Nat -> Nat) (x kind : Nat) : Nat -> Nat := Function.update (breakAt width k x) x kind

theorem Paired.congr {other : Nat -> Nat} (paired : Paired width k) (same : ∀ x < width, other x = k x) : Paired width other := by
  intro x inside
  rw [same x inside]
  obtain ⟨first, second⟩ := paired x inside
  refine ⟨fun one => ?_, fun two => ?_⟩
  · obtain ⟨room, next⟩ := first one
    exact ⟨room, (same (x + 1) room).trans next⟩
  · obtain ⟨low, before⟩ := second two
    exact ⟨low, (same (x - 1) (Nat.lt_of_le_of_lt (Nat.sub_le x 1) inside)).trans before⟩

/-- A line without halves. -/
theorem Paired.of_zero (zero : ∀ x < width, k x = 0) : Paired width k := by
  intro x inside
  rw [zero x inside]
  exact ⟨fun one => absurd one (by decide), fun two => absurd two (by decide)⟩

/-- Kinds on a line of halves after one of them is broken. -/
theorem breakAt_apply (paired : Paired width k) {x : Nat} (inside : x < width) (y : Nat) :
    breakAt width k x y = if k x = 1 ∧ y = x + 1 ∨ k x = 2 ∧ y + 1 = x then 0 else k y := by
  obtain ⟨first, second⟩ := paired x inside
  unfold breakAt
  by_cases one : k x = 1
  · rw [if_pos ⟨one, first one⟩]
    by_cases next : y = x + 1
    · rw [if_pos (.inl ⟨one, next⟩), next, update_self]
    · rw [if_neg (by omega), update_of_ne next]
  · rw [if_neg (fun both => one both.1)]
    by_cases two : k x = 2
    · obtain ⟨low, before⟩ := second two
      rw [if_pos ⟨two, Nat.ne_of_gt low, before⟩]
      by_cases previous : y = x - 1
      · rw [if_pos (.inr ⟨two, by omega⟩), previous, update_self]
      · rw [if_neg (by omega), update_of_ne previous]
    · rw [if_neg (fun both => two both.1), if_neg (by omega)]

theorem overwrite_apply (paired : Paired width k) {x : Nat} (inside : x < width) (kind y : Nat) :
    overwrite width k x kind y =
      if y = x then kind else if k x = 1 ∧ y = x + 1 ∨ k x = 2 ∧ y + 1 = x then 0 else k y := by
  unfold overwrite
  by_cases here : y = x
  · rw [if_pos here, here, update_self]
  · rw [if_neg here, update_of_ne here, breakAt_apply paired inside]

/-- Kinds never become halves by being overwritten with something else. -/
theorem overwrite_zero (x : Nat) {y : Nat} (zero : k y = 0) : overwrite width k x 0 y = 0 := by
  unfold overwrite
  by_cases here : y = x
  · rw [here, update_self]
  · rw [update_of_ne here]
    unfold breakAt
    split
    · by_cases next : y = x + 1
      · rw [next, update_self]
      · rw [update_of_ne next, zero]
    · split
      · by_cases previous : y = x - 1
        · rw [previous, update_self]
        · rw [update_of_ne previous, zero]
      · exact zero

theorem overwrite_self (x kind : Nat) : overwrite width k x kind x = kind := update_self ..

/-- Only the cells of the line matter. -/
theorem overwrite_congr {other : Nat -> Nat} (same : ∀ x < width, other x = k x) {x y : Nat} (inside : x < width)
    (within : y < width) (kind : Nat) : overwrite width other x kind y = overwrite width k x kind y := by
  unfold overwrite
  by_cases here : y = x
  · rw [here, update_self, update_self]
  rw [update_of_ne here, update_of_ne here]
  have first : (other x = 1 ∧ x + 1 < width ∧ other (x + 1) = 2) ↔ (k x = 1 ∧ x + 1 < width ∧ k (x + 1) = 2) := by
    rw [same x inside]
    exact and_congr_right fun _ => and_congr_right fun room => by rw [same (x + 1) room]
  have second : (other x = 2 ∧ x ≠ 0 ∧ other (x - 1) = 1) ↔ (k x = 2 ∧ x ≠ 0 ∧ k (x - 1) = 1) := by
    rw [same x inside, same (x - 1) (Nat.lt_of_le_of_lt (Nat.sub_le x 1) inside)]
  have update : ∀ z, Function.update other z 0 y = Function.update k z 0 y := by
    intro z
    by_cases there : y = z
    · rw [there, update_self, update_self]
    · rw [update_of_ne there, update_of_ne there, same y within]
  unfold breakAt
  by_cases left : k x = 1 ∧ x + 1 < width ∧ k (x + 1) = 2
  · rw [if_pos left, if_pos (first.mpr left), update]
  rw [if_neg left, if_neg (mt first.mp left)]
  by_cases right : k x = 2 ∧ x ≠ 0 ∧ k (x - 1) = 1
  · rw [if_pos right, if_pos (second.mpr right), update]
  · rw [if_neg right, if_neg (mt second.mp right), same y within]

/-- A cell of its own may overwrite any cell. -/
theorem Paired.overwrite_single (paired : Paired width k) {x : Nat} (inside : x < width) :
    Paired width (overwrite width k x 0) := by
  intro y within
  have here := paired x inside
  have there := paired y within
  rw [overwrite_apply paired inside, overwrite_apply paired inside, overwrite_apply paired inside]
  constructor
  · intro one
    by_cases a : y = x
    · rw [if_pos a] at one
      exact absurd one (by decide)
    rw [if_neg a] at one
    by_cases b : k x = 1 ∧ y = x + 1 ∨ k x = 2 ∧ y + 1 = x
    · rw [if_pos b] at one
      exact absurd one (by decide)
    rw [if_neg b] at one
    obtain ⟨room, next⟩ := there.1 one
    refine ⟨room, ?_⟩
    rw [if_neg, if_neg]
    · exact next
    · rintro (⟨first, same⟩ | ⟨second, same⟩)
      · exact a (by omega)
      · have before := (here.2 second).2
        rw [show x - 1 = y + 1 by omega, next] at before
        exact absurd before (by decide)
    · intro same
      rw [same] at next
      exact b (.inr ⟨next, same⟩)
  · intro two
    by_cases a : y = x
    · rw [if_pos a] at two
      exact absurd two (by decide)
    rw [if_neg a] at two
    by_cases b : k x = 1 ∧ y = x + 1 ∨ k x = 2 ∧ y + 1 = x
    · rw [if_pos b] at two
      exact absurd two (by decide)
    rw [if_neg b] at two
    obtain ⟨low, before⟩ := there.2 two
    refine ⟨low, ?_⟩
    rw [if_neg, if_neg]
    · exact before
    · rintro (⟨first, same⟩ | ⟨second, same⟩)
      · have gap : x + 2 = y := by omega
        have next := (here.1 first).2
        rw [show x + 1 = y - 1 by omega, before] at next
        exact absurd next (by decide)
      · exact a (by omega)
    · intro same
      rw [same] at before
      exact b (.inl ⟨before, by omega⟩)

/-- Two halves may overwrite any two neighbours. -/
theorem Paired.overwrite_pair (paired : Paired width k) {x : Nat} (inside : x + 1 < width) :
    Paired width (overwrite width (overwrite width k x 1) (x + 1) 2) := by
  have here := paired x (Nat.lt_of_succ_lt inside)
  have next := paired (x + 1) inside
  have first := overwrite_apply paired (Nat.lt_of_succ_lt inside) 1
  have at_next : overwrite width k x 1 (x + 1) = if k x = 1 then 0 else k (x + 1) := by
    rw [first, if_neg (by omega)]
    by_cases one : k x = 1
    · rw [if_pos (.inl ⟨one, rfl⟩), if_pos one]
    · rw [if_neg (by omega), if_neg one]
  have final : ∀ y, overwrite width (overwrite width k x 1) (x + 1) 2 y = if y = x + 1 then 2
      else if k (x + 1) = 1 ∧ y = x + 2 then 0 else overwrite width k x 1 y := by
    intro y
    have outer : overwrite width (overwrite width k x 1) (x + 1) 2 y =
        Function.update (breakAt width (overwrite width k x 1) (x + 1)) (x + 1) 2 y := rfl
    rw [outer]
    by_cases self : y = x + 1
    · rw [if_pos self, self, update_self]
    · rw [if_neg self, update_of_ne self]
      unfold breakAt
      rw [at_next]
      by_cases one : k (x + 1) = 1
      · have other : k x ≠ 1 := fun same => absurd ((here.1 same).2.symm.trans one) (by decide)
        obtain ⟨room, two⟩ := next.1 one
        have right : overwrite width k x 1 (x + 1 + 1) = 2 := by
          rw [first, if_neg (by omega), if_neg (by omega), two]
        rw [if_neg other, if_pos ⟨one, room, right⟩]
        by_cases behind : y = x + 2
        · rw [if_pos ⟨one, behind⟩, behind, update_self]
        · rw [if_neg (fun both => behind both.2), update_of_ne (show y ≠ x + 1 + 1 from behind)]
      · have low : (if k x = 1 then 0 else k (x + 1)) ≠ 1 := by
          split
          · decide
          · exact one
        have high : (if k x = 1 then 0 else k (x + 1)) ≠ 2 := by
          split
          · decide
          · next other => exact fun two => other (next.2 two).2
        rw [if_neg (fun both => low both.1), if_neg (fun both => high both.1), if_neg (fun both => one both.1)]
  have whole : ∀ y, overwrite width (overwrite width k x 1) (x + 1) 2 y = if y = x + 1 then 2
      else if k (x + 1) = 1 ∧ y = x + 2 then 0 else if y = x then 1
      else if k x = 1 ∧ y = x + 1 ∨ k x = 2 ∧ y + 1 = x then 0 else k y := fun y => by rw [final, first]
  intro y within
  have there := paired y within
  rw [whole, whole, whole]
  constructor
  · intro one
    by_cases a : y = x + 1
    · rw [if_pos a] at one
      exact absurd one (by decide)
    rw [if_neg a] at one
    by_cases b : k (x + 1) = 1 ∧ y = x + 2
    · rw [if_pos b] at one
      exact absurd one (by decide)
    rw [if_neg b] at one
    by_cases c : y = x
    · rw [c]
      exact ⟨inside, if_pos rfl⟩
    rw [if_neg c] at one
    by_cases d : k x = 1 ∧ y = x + 1 ∨ k x = 2 ∧ y + 1 = x
    · rw [if_pos d] at one
      exact absurd one (by decide)
    rw [if_neg d] at one
    obtain ⟨room, two⟩ := there.1 one
    refine ⟨room, ?_⟩
    rw [if_neg (by omega), if_neg (by omega), if_neg, if_neg]
    · exact two
    · rintro (⟨left, same⟩ | ⟨right, same⟩)
      · exact c (by omega)
      · have before := (here.2 right).2
        rw [show x - 1 = y + 1 by omega, two] at before
        exact absurd before (by decide)
    · intro same
      rw [same] at two
      exact d (.inr ⟨two, same⟩)
  · intro two
    by_cases a : y = x + 1
    · refine ⟨by omega, ?_⟩
      rw [if_neg (by omega), if_neg (by omega), if_pos (by omega)]
    rw [if_neg a] at two
    by_cases b : k (x + 1) = 1 ∧ y = x + 2
    · rw [if_pos b] at two
      exact absurd two (by decide)
    rw [if_neg b] at two
    by_cases c : y = x
    · rw [if_pos c] at two
      exact absurd two (by decide)
    rw [if_neg c] at two
    by_cases d : k x = 1 ∧ y = x + 1 ∨ k x = 2 ∧ y + 1 = x
    · rw [if_pos d] at two
      exact absurd two (by decide)
    rw [if_neg d] at two
    obtain ⟨low, one⟩ := there.2 two
    refine ⟨low, ?_⟩
    rw [if_neg, if_neg, if_neg (by omega), if_neg]
    · exact one
    · rintro (⟨left, same⟩ | ⟨right, same⟩)
      · have behind := (here.1 left).2
        rw [← same, one] at behind
        exact absurd behind (by decide)
      · exact c (by omega)
    · rintro ⟨left, same⟩
      have behind := (next.1 left).2
      rw [show x + 1 + 1 = y - 1 by omega, one] at behind
      exact absurd behind (by decide)
    · intro same
      rw [same] at one
      exact b ⟨one, by omega⟩

end Halves
end Src32
