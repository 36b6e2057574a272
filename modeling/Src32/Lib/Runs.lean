import Mathlib.Algebra.Order.Ring.Nat

namespace Src32

/-!
# Runs of a labelled transition system

A system is a set of initial states and a labelled step relation.  A step may
be restricted to those that meet a condition on the state before it and its
label; the states a restricted system reaches are the states of the runs
whose every step meets the condition.
-/

/-- Initial states and labelled steps. -/
structure System (State Label : Type) where
  initial : State -> Prop
  step : State -> Label -> State -> Prop

namespace System

variable {State Label : Type} (system : System State Label)

/-- One step under some label. -/
def Next (first second : State) : Prop := ∃ label, system.step first label second

/-- The states of the runs of the system. -/
def Reachable (state : State) : Prop :=
  ∃ start, system.initial start ∧ Relation.ReflTransGen system.Next start state

/-- The same system with only those steps that meet the condition. -/
def within (condition : State -> Label -> Prop) : System State Label where
  initial := system.initial
  step := fun first label second => condition first label ∧ system.step first label second

variable {system}

theorem Reachable.start {state : State} (begins : system.initial state) : system.Reachable state :=
  ⟨state, begins, .refl⟩

theorem Reachable.next {first second : State} {label : Label} (reached : system.Reachable first)
    (moves : system.step first label second) : system.Reachable second := by
  obtain ⟨start, begins, path⟩ := reached
  exact ⟨start, begins, path.tail ⟨label, moves⟩⟩

/-- What holds initially and is kept by every step holds in every state
reached. -/
theorem Reachable.invariant {motive : State -> Prop} {state : State} (reached : system.Reachable state)
    (begins : ∀ start, system.initial start -> motive start)
    (keeps : ∀ first label second, motive first -> system.step first label second -> motive second) :
    motive state := by
  obtain ⟨start, initial, path⟩ := reached
  induction path with
  | refl => exact begins start initial
  | tail _ moves ih =>
    obtain ⟨label, moves⟩ := moves
    exact keeps _ label _ ih moves

/-- A run that meets a condition meets a weaker one. -/
theorem Reachable.weaken {strong weak : State -> Label -> Prop} {state : State}
    (weaker : ∀ state label, strong state label -> weak state label) (reached : (system.within strong).Reachable state) :
    (system.within weak).Reachable state := by
  obtain ⟨start, begins, path⟩ := reached
  refine ⟨start, begins, ?_⟩
  induction path with
  | refl => exact .refl
  | tail _ moves ih =>
    obtain ⟨label, meets, step⟩ := moves
    exact ih.tail ⟨label, weaker _ label meets, step⟩

end System
end Src32
