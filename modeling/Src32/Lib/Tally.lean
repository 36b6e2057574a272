import Mathlib.Algebra.Order.Ring.Nat
import Mathlib.Data.Fintype.Prod

namespace Src32

/-!
# Counting the references of a table

A table has a slot for every index and a slot names at most one object.  The
tally of an object is the number of slots that name it.
-/

variable {ι α : Type} [Fintype ι] [DecidableEq α]

/-- How many slots of the table name `a`. -/
def tally (table : ι -> Option α) (a : α) : Nat := (Finset.univ.filter fun i => table i = some a).card

variable {table : ι -> Option α} {a b : α} {i : ι}

theorem tally_pos : 0 < tally table a ↔ ∃ i, table i = some a := by
  unfold tally
  rw [Finset.card_pos]
  constructor
  · rintro ⟨i, member⟩
    exact ⟨i, (Finset.mem_filter.mp member).2⟩
  · rintro ⟨i, names⟩
    exact ⟨i, Finset.mem_filter.mpr ⟨Finset.mem_univ i, names⟩⟩

theorem tally_zero : tally table a = 0 ↔ ∀ i, table i ≠ some a := by
  rw [← Nat.le_zero, ← Nat.not_lt, tally_pos, not_exists]

theorem tally_empty : tally (fun _ : ι => (none : Option α)) a = 0 :=
  tally_zero.mpr fun _ => nofun

variable [DecidableEq ι]

/-- An empty slot comes to name `a`. -/
theorem tally_fill (empty : table i = none) (b : α) :
    tally (Function.update table i (some a)) b = tally table b + if b = a then 1 else 0 := by
  unfold tally
  split
  · next same =>
      subst same
      have grown : (Finset.univ.filter fun j => Function.update table i (some b) j = some b) =
          insert i (Finset.univ.filter fun j => table j = some b) := by
        ext j
        rw [Finset.mem_filter, Finset.mem_insert, Finset.mem_filter]
        by_cases here : j = i
        · subst here
          rw [Function.update_self]
          exact ⟨fun _ => Or.inl rfl, fun _ => ⟨Finset.mem_univ _, rfl⟩⟩
        · rw [Function.update_of_ne here]
          exact ⟨Or.inr, fun either => either.resolve_left here⟩
      rw [grown, Finset.card_insert_of_notMem]
      intro member
      rw [Finset.mem_filter, empty] at member
      cases member.2
  · next different =>
      rw [Nat.add_zero]
      refine congrArg Finset.card (Finset.filter_congr fun j _ => ?_)
      by_cases here : j = i
      · subst here
        rw [Function.update_self, empty]
        exact ⟨fun same => absurd (Option.some.inj same).symm different, nofun⟩
      · rw [Function.update_of_ne here]

/-- A slot that names `a` is emptied. -/
theorem tally_clear (names : table i = some a) (b : α) :
    tally (Function.update table i none) b + (if b = a then 1 else 0) = tally table b := by
  have empty : Function.update table i none i = none := Function.update_self ..
  have back := tally_fill (a := a) empty b
  rw [Function.update_idem, ← names, Function.update_eq_self] at back
  exact back.symm

end Src32
