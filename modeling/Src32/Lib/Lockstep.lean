import Mathlib.Algebra.Order.Ring.Nat
import Mathlib.Data.List.Basic

namespace Src32.Lockstep

/-!
# Machines that show the same events

Two deterministic machines whose steps show an event or nothing.  The second
follows the first when every step of the first is one step of the second with
the same event, or a silent step that makes the state smaller and leaves the
second where it is.  The size rules out that the first goes on for ever and
the second waits: whatever one of them shows, the other shows.

The steps of the first machine may have to meet a condition; then the machines
agree in every run that meets it throughout.
-/

variable {σ τ ε : Type}

/-- A machine that always steps. -/
structure Machine (σ ε : Type) where
  step : σ -> σ × Option ε

namespace Machine

def run (a : Machine σ ε) : Nat -> σ -> σ
  | 0, s => s
  | n + 1, s => a.run n (a.step s).1

/-- The events of the first steps. -/
def trace (a : Machine σ ε) : Nat -> σ -> List ε
  | 0, _ => []
  | n + 1, s => (a.step s).2.toList ++ a.trace n (a.step s).1

theorem run_add (a : Machine σ ε) (n m : Nat) (s : σ) : a.run (n + m) s = a.run m (a.run n s) := by
  induction n generalizing s with
  | zero => rw [Nat.zero_add]; rfl
  | succ n ih =>
    rw [Nat.add_right_comm]
    exact ih (a.step s).1

theorem trace_add (a : Machine σ ε) (n m : Nat) (s : σ) :
    a.trace (n + m) s = a.trace n s ++ a.trace m (a.run n s) := by
  induction n generalizing s with
  | zero => rw [Nat.zero_add]; rfl
  | succ n ih =>
    rw [Nat.add_right_comm]
    change (a.step s).2.toList ++ a.trace (n + m) (a.step s).1 = _
    rw [ih, ← List.append_assoc]
    rfl

variable {s : σ}

/-- A state that steps to itself stays. -/
theorem run_settled (a : Machine σ ε) {n : Nat} (still : (a.step (a.run n s)).1 = a.run n s) (m : Nat) :
    a.run (n + m) s = a.run n s := by
  induction m with
  | zero => rfl
  | succ m ih =>
    rw [← Nat.add_assoc, a.run_add, ih]
    exact still

/-- A state that steps to itself in silence shows nothing any more. -/
theorem trace_still (a : Machine σ ε) (still : a.step s = (s, none)) (n : Nat) : a.trace n s = [] := by
  induction n with
  | zero => rfl
  | succ n ih =>
    change (a.step s).2.toList ++ a.trace n (a.step s).1 = []
    rw [still]
    exact ih

/-- Nothing is added to the trace after a state that stays. -/
theorem trace_settled (a : Machine σ ε) {n : Nat} (still : a.step (a.run n s) = (a.run n s, none)) (m : Nat) :
    a.trace (n + m) s = a.trace n s := by
  rw [trace_add, trace_still a still, List.append_nil]

end Machine

/-- Whatever one machine shows, the other shows. -/
def Agree (a : Machine σ ε) (b : Machine τ ε) (s : σ) (t : τ) : Prop :=
  (∀ n, ∃ m, b.trace m t = a.trace n s) ∧ ∀ m, ∃ n, a.trace n s = b.trace m t

/-- The second machine follows the first. -/
structure Follows (a : Machine σ ε) (b : Machine τ ε) (related : σ -> τ -> Prop) (allowed : σ -> Prop)
    (size : σ -> Nat) : Prop where
  step : ∀ s t, related s t -> allowed s ->
    (related (a.step s).1 (b.step t).1 ∧ (b.step t).2 = (a.step s).2) ∨
      (related (a.step s).1 t ∧ (a.step s).2 = none ∧ size (a.step s).1 < size s)

section
variable {a : Machine σ ε} {b : Machine τ ε} {related : σ -> τ -> Prop} {allowed : σ -> Prop} {size : σ -> Nat}

variable {t : τ} {s : σ}

theorem Follows.forth (follows : Follows a b related allowed size) (relates : related s t)
    (meets : ∀ n, allowed (a.run n s)) (n : Nat) : ∃ m, b.trace m t = a.trace n s := by
  induction n generalizing s t with
  | zero => exact ⟨0, rfl⟩
  | succ n ih =>
    have later : ∀ n, allowed (a.run n (a.step s).1) := fun n => meets (n + 1)
    rcases follows.step s t relates (meets 0) with ⟨moved, same⟩ | ⟨moved, silent, _⟩
    · obtain ⟨m, shown⟩ := ih moved later
      refine ⟨m + 1, ?_⟩
      change (b.step t).2.toList ++ b.trace m (b.step t).1 = (a.step s).2.toList ++ a.trace n (a.step s).1
      rw [same, shown]
    · obtain ⟨m, shown⟩ := ih moved later
      refine ⟨m, ?_⟩
      change b.trace m t = (a.step s).2.toList ++ a.trace n (a.step s).1
      rw [silent, shown]
      rfl

/-- One step of the second machine is a few of the first. -/
theorem Follows.catchUp (follows : Follows a b related allowed size) (relates : related s t)
    (meets : ∀ n, allowed (a.run n s)) :
    ∃ n, a.trace n s = (b.step t).2.toList ∧ related (a.run n s) (b.step t).1 := by
  generalize bound : size s = limit
  induction limit using Nat.strong_induction_on generalizing s with
  | _ limit ih =>
    rcases follows.step s t relates (meets 0) with ⟨moved, same⟩ | ⟨moved, silent, smaller⟩
    · refine ⟨1, ?_, moved⟩
      change (a.step s).2.toList ++ [] = _
      rw [List.append_nil, same]
    · obtain ⟨n, shown, reached⟩ := ih (size (a.step s).1) (bound ▸ smaller) moved (fun n => meets (n + 1)) rfl
      refine ⟨n + 1, ?_, reached⟩
      change (a.step s).2.toList ++ a.trace n (a.step s).1 = _
      rw [silent, shown]
      rfl

theorem Follows.back (follows : Follows a b related allowed size) (relates : related s t)
    (meets : ∀ n, allowed (a.run n s)) (m : Nat) : ∃ n, a.trace n s = b.trace m t := by
  induction m generalizing s t with
  | zero => exact ⟨0, rfl⟩
  | succ m ih =>
    obtain ⟨n, shown, reached⟩ := follows.catchUp relates meets
    have later : ∀ k, allowed (a.run k (a.run n s)) := fun k => by
      rw [← a.run_add]
      exact meets (n + k)
    obtain ⟨k, rest⟩ := ih reached later
    refine ⟨n + k, ?_⟩
    rw [a.trace_add, shown, rest]
    rfl

/-- Machines that start in related states agree in a run that meets the
condition. -/
theorem Follows.agree (follows : Follows a b related allowed size) (relates : related s t)
    (meets : ∀ n, allowed (a.run n s)) : Agree a b s t :=
  ⟨follows.forth relates meets, follows.back relates meets⟩

end

end Src32.Lockstep
