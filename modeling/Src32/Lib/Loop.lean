import Mathlib.Algebra.Order.Ring.Nat
import Mathlib.Data.List.Basic

namespace Src32.Loop

/-!
# Loops that end

A loop is the body that it repeats: one round gives the next state or the
result.  A run of it is finite, so a run from a state says that the loop ends
there.  A function that runs a loop with fuel computes the result of the loop
when its fuel covers a measure that every round lowers.
-/

variable {State Result : Type}

/-- The loop ends in a result. -/
inductive Runs (body : State -> State ⊕ Result) : State -> Result -> Prop where
  | done {state : State} {result : Result} (ends : body state = .inr result) : Runs body state result
  | again {state next : State} {result : Result} (goes : body state = .inl next) (rest : Runs body next result) :
      Runs body state result

/-- A loop has one result. -/
theorem Runs.unique {body : State -> State ⊕ Result} {state : State} {one two : Result} (first : Runs body state one)
    (second : Runs body state two) : one = two := by
  induction first with
  | done ends =>
    cases second with
    | done endsToo =>
      rw [ends] at endsToo
      exact Sum.inr.inj endsToo
    | again goes _ =>
      rw [ends] at goes
      cases goes
  | again goes _ ih =>
    cases second with
    | done ends =>
      rw [goes] at ends
      cases ends
    | again goesToo rest =>
      rw [goes] at goesToo
      cases goesToo
      exact ih rest

/-- The loop ends in this result and in no other one. -/
theorem Runs.iff {body : State -> State ⊕ Result} {state : State} {one two : Result} (run : Runs body state one) :
    Runs body state two ↔ two = one := by
  constructor
  · exact fun again => again.unique run
  · rintro rfl
    exact run

/-- The rule of fuel and measure. -/
theorem runs_of_measure (body : State -> State ⊕ Result) (fuelled : Nat -> State -> Result) (invariant : State -> Prop)
    (measure : State -> Nat) (unfolds : ∀ fuel state, fuelled (fuel + 1) state = (body state).elim (fuelled fuel) id)
    (stops : ∀ state, invariant state -> measure state = 0 -> body state = .inr (fuelled 0 state))
    (lowers : ∀ state next, invariant state -> body state = .inl next -> invariant next ∧ measure next < measure state)
    (fuel : Nat) (state : State) (holds : invariant state) (enough : measure state ≤ fuel) :
    Runs body state (fuelled fuel state) := by
  induction fuel generalizing state with
  | zero => exact Runs.done (stops state holds (Nat.le_zero.mp enough))
  | succ fuel ih =>
    rw [unfolds]
    cases round : body state with
    | inr result => exact Runs.done round
    | inl next =>
      obtain ⟨kept, less⟩ := lowers state next holds round
      exact Runs.again round (ih next kept (by omega))

/-! ## While loops -/

section While

variable {Next : Type} {total : Prop}

/-- The state behind a loop with a round for each unit of fuel; none if it is not over then. -/
def whileLoop (test : State -> Bool) (body : State -> State) : Nat -> State -> Option State
  | 0, state => if test state = true then none else some state
  | fuel + 1, state => if test state = true then whileLoop test body fuel (body state) else some state

/-- What is returned satisfies a postcondition, and under an assumption something is. -/
structure Ends (returned : Option State) (total : Prop) (post : State -> Prop) : Prop where
  sound : ∀ state, returned = some state -> post state
  returns : total -> ∃ state, returned = some state

theorem Ends.pure {state : State} {post : State -> Prop} (holds : post state) : Ends (some state) total post :=
  ⟨fun _ same => Option.some.inj same ▸ holds, fun _ => ⟨state, rfl⟩⟩

theorem Ends.imp {returned : Option State} {mid post : State -> Prop} (ends : Ends returned total mid)
    (weaker : ∀ state, mid state -> post state) : Ends returned total post :=
  ⟨fun state same => weaker state (ends.sound state same), ends.returns⟩

theorem Ends.bind {returned : Option State} {mid : State -> Prop} {then_ : State -> Option Next} {post : Next -> Prop}
    (first : Ends returned total mid) (second : ∀ state, mid state -> Ends (then_ state) total post) :
    Ends (returned.bind then_) total post := by
  constructor
  · intro next same
    obtain ⟨state, before, after⟩ := Option.bind_eq_some_iff.mp same
    exact (second state (first.sound state before)).sound next after
  · intro assumed
    obtain ⟨state, same⟩ := first.returns assumed
    rw [same]
    exact (second state (first.sound state same)).returns assumed

/-- The rule of the invariant and the measure. -/
theorem whileLoop_ends {test : State -> Bool} {body : State -> State} (invariant : State -> Prop) (measure : State -> Nat)
    {fuel : Nat} {state : State} (holds : invariant state)
    (round : ∀ state, invariant state -> test state = true -> invariant (body state) ∧ (total -> measure (body state) < measure state))
    (enough : total -> measure state ≤ fuel) :
    Ends (whileLoop test body fuel state) total fun state => invariant state ∧ test state = false := by
  induction fuel generalizing state with
  | zero =>
    unfold whileLoop
    split
    · rename_i goes
      refine ⟨(by rintro _ ⟨⟩), fun assumed => ?_⟩
      have less := (round state holds goes).2 assumed
      have small := enough assumed
      omega
    · exact Ends.pure ⟨holds, Bool.eq_false_of_not_eq_true ‹_›⟩
  | succ fuel ih =>
    unfold whileLoop
    split
    · rename_i goes
      obtain ⟨kept, less⟩ := round state holds goes
      refine ih kept fun assumed => ?_
      have lower := less assumed
      have small := enough assumed
      omega
    · exact Ends.pure ⟨holds, Bool.eq_false_of_not_eq_true ‹_›⟩

end While
end Src32.Loop
