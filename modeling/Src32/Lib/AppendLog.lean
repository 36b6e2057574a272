import Mathlib.Algebra.Order.Ring.Nat
import Mathlib.Data.List.Basic

namespace Src32.AppendLog

/-!
# Logs that are only appended to

A log is stored as its records one after the other, each with its number and
all of one length.  Whatever is left of the stored log when its end is cut off
is the stored form of the first records and a part of the next one.
-/

variable {α β : Type} {encode : Nat -> α -> List β} {size : Nat}

/-- The records of a log, numbered from `k` on. -/
def stored (encode : Nat -> α -> List β) : Nat -> List α -> List β
  | _, [] => []
  | k, a :: rest => encode k a ++ stored encode (k + 1) rest

theorem stored_append (k : Nat) (first second : List α) :
    stored encode k (first ++ second) = stored encode k first ++ stored encode (k + first.length) second := by
  induction first generalizing k with
  | nil => rfl
  | cons a rest ih =>
    change encode k a ++ stored encode (k + 1) (rest ++ second) = encode k a ++ stored encode (k + 1) rest ++ _
    rw [ih, List.append_assoc, List.length_cons, Nat.add_assoc, Nat.add_comm 1]

theorem stored_single (k : Nat) (a : α) : stored encode k [a] = encode k a := List.append_nil _

theorem stored_length {log : List α} (k : Nat) (sized : ∀ a ∈ log, ∀ k, (encode k a).length = size) :
    (stored encode k log).length = log.length * size := by
  induction log generalizing k with
  | nil => exact (Nat.zero_mul size).symm
  | cons a rest ih =>
    change (encode k a ++ stored encode (k + 1) rest).length = _
    rw [List.length_append, sized a List.mem_cons_self, ih (k + 1) fun b member => sized b (List.mem_cons_of_mem a member),
      List.length_cons, Nat.succ_mul, Nat.add_comm]

/-- What is left of a stored log that is cut off. -/
theorem stored_take {log : List α} (k : Nat) (sized : ∀ a ∈ log, ∀ k, (encode k a).length = size) (some_ : 0 < size)
    (n : Nat) : ∃ tail, (stored encode k log).take n = stored encode k (log.take (n / size)) ++ tail ∧
      tail.length < size ∧ (n % size = 0 -> tail = []) := by
  induction log generalizing k n with
  | nil =>
    refine ⟨[], ?_, some_, fun _ => rfl⟩
    rw [List.take_nil]
    change List.take n [] = [] ++ []
    rw [List.take_nil, List.append_nil]
  | cons a rest ih =>
    have length := sized a List.mem_cons_self k
    by_cases whole : size ≤ n
    · obtain ⟨tail, left, short, exact_⟩ := ih (k + 1) (fun b member => sized b (List.mem_cons_of_mem a member)) (n - size)
      have count : n / size = (n - size) / size + 1 := Nat.div_eq_sub_div some_ whole
      refine ⟨tail, ?_, short, fun even => exact_ ?_⟩
      · rw [count, List.take_succ_cons]
        change (encode k a ++ stored encode (k + 1) rest).take n = encode k a ++ stored encode (k + 1) _ ++ tail
        rw [List.take_append, length, left, List.take_of_length_le (by omega), List.append_assoc]
      · rw [← Nat.mod_eq_sub_mod whole]
        exact even
    · have none : n / size = 0 := Nat.div_eq_of_lt (by omega)
      refine ⟨(encode k a).take n, ?_, ?_, fun even => ?_⟩
      · rw [none, List.take_zero]
        change (encode k a ++ stored encode (k + 1) rest).take n = [] ++ (encode k a).take n
        rw [List.take_append_of_le_length (by omega), List.nil_append]
      · rw [List.length_take]
        omega
      · rw [Nat.mod_eq_of_lt (by omega)] at even
        rw [even]
        rfl

end Src32.AppendLog
