import Mathlib.Algebra.Order.Ring.Nat
import Mathlib.Data.List.Nodup

namespace Src32.PostOrder

/-!
# Post-order

An order of the nodes of a graph in which every successor of a node comes
before it.  A graph that has such an order has no cycles.
-/

variable {α : Type} {succ next : α -> List α} {order : List α}

/-- The successors of every node are before it. -/
def Sorted (succ : α -> List α) (order : List α) : Prop :=
  ∀ before a after, order = before ++ a :: after -> ∀ b ∈ succ a, b ∈ before

theorem sorted_nil : Sorted succ [] := by
  intro before a after split
  cases before <;> cases split

/-- A node goes behind its successors. -/
theorem Sorted.append (sorted : Sorted succ order) {a : α} (closed : ∀ b ∈ succ a, b ∈ order) :
    Sorted succ (order ++ [a]) := by
  intro before c after split b member
  rcases List.append_eq_append_iff.mp split with ⟨more, rfl, rest⟩ | ⟨more, rfl, rest⟩
  · -- The node is the last one.
    cases more with
    | nil =>
      cases rest
      rw [List.append_nil]
      exact closed b member
    | cons d others =>
      cases others <;> cases rest
  · cases more with
    | nil =>
      cases rest
      rw [List.append_nil] at closed
      exact closed b member
    | cons d others =>
      cases rest
      exact sorted before _ others rfl b member

theorem Sorted.congr (sorted : Sorted succ order) (same : ∀ a ∈ order, next a = succ a) : Sorted next order := by
  intro before a after split b member
  rw [same a (by rw [split]; exact List.mem_append_right _ List.mem_cons_self)] at member
  exact sorted before a after split b member

/-- A successor of a node is in the order, and before the node. -/
theorem Sorted.earlier [DecidableEq α] (sorted : Sorted succ order) (nodup : order.Nodup) {a b : α} (listed : a ∈ order)
    (member : b ∈ succ a) : b ∈ order ∧ order.idxOf b < order.idxOf a := by
  obtain ⟨before, after, split⟩ := List.append_of_mem listed
  have inside := sorted before a after split b member
  rw [split] at nodup ⊢
  have absent : a ∉ before := fun again =>
    (List.nodup_append.mp nodup).2.2 a again a List.mem_cons_self rfl
  refine ⟨List.mem_append_left _ inside, ?_⟩
  rw [List.idxOf_append_of_mem inside, List.idxOf_append_of_notMem absent, List.idxOf_cons_self, Nat.add_zero]
  exact List.idxOf_lt_length_iff.mpr inside

/-- Nothing in the order leads to itself. -/
theorem Sorted.acyclic [DecidableEq α] (sorted : Sorted succ order) (nodup : order.Nodup) {a : α} (listed : a ∈ order) :
    ¬ Relation.TransGen (fun first second => second ∈ succ first) a a := by
  have down : ∀ b, Relation.TransGen (fun first second => second ∈ succ first) a b -> b ∈ order ∧
      order.idxOf b < order.idxOf a := by
    intro b path
    induction path with
    | single edge => exact sorted.earlier nodup listed edge
    | tail _ edge ih =>
      obtain ⟨inside, less⟩ := sorted.earlier nodup ih.1 edge
      exact ⟨inside, Nat.lt_trans less ih.2⟩
  exact fun cycle => Nat.lt_irrefl _ (down a cycle).2

end Src32.PostOrder
