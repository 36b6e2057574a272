import Mathlib.Algebra.Order.Ring.Nat
import Mathlib.Data.List.Basic

namespace Src32.Fallible

/-!
# Loops that may fail

Rules for programs in `Except`: a successful sequence ran both of its parts,
and a successful loop kept whatever each of its rounds keeps.
-/

variable {ε α β : Type}

theorem bind_ok {first : Except ε α} {second : α -> Except ε β} {result : β}
    (done : first >>= second = .ok result) : ∃ middle, first = .ok middle ∧ second middle = .ok result := by
  cases first with
  | error failure => cases done
  | ok middle => exact ⟨middle, rfl, done⟩

theorem bind_ok_iff {first : Except ε α} {second : α -> Except ε β} {result : β} :
    first >>= second = .ok result ↔ ∃ middle, first = .ok middle ∧ second middle = .ok result := by
  constructor
  · exact bind_ok
  · rintro ⟨middle, rfl, done⟩
    exact done

theorem ok_bind (middle : α) (second : α -> Except ε β) : (Except.ok middle >>= second) = second middle := rfl

variable {round : α -> β -> Except ε α} {items : List β} {start final : α}

/-- A successful fold keeps what every round keeps. -/
theorem foldlM_invariant {motive : α -> Prop} (done : items.foldlM round start = .ok final) (holds : motive start)
    (step : ∀ state item next, item ∈ items -> motive state -> round state item = .ok next -> motive next) :
    motive final := by
  induction items generalizing start with
  | nil =>
    cases done
    exact holds
  | cons item rest ih =>
    rw [List.foldlM_cons] at done
    obtain ⟨middle, ran, continued⟩ := bind_ok done
    refine ih continued (step start item middle List.mem_cons_self holds ran) ?_
    intro state later next member kept moved
    exact step state later next (List.mem_cons_of_mem item member) kept moved

/-- A successful loop for its checks only: every one of them succeeded. -/
theorem forM_ok {check : β -> Except ε Unit} (done : items.forM check = .ok ()) :
    ∀ item ∈ items, check item = .ok () := by
  induction items with
  | nil =>
    intro item member
    cases member
  | cons first rest ih =>
    have split : (first :: rest).forM check = (check first >>= fun _ => rest.forM check) := rfl
    rw [split] at done
    obtain ⟨_, ran, continued⟩ := bind_ok done
    intro item member
    rcases List.mem_cons.mp member with rfl | later
    · exact ran
    · exact ih continued item later

theorem forM_ok_iff {check : β -> Except ε Unit} :
    items.forM check = .ok () ↔ ∀ item ∈ items, check item = .ok () := by
  refine ⟨forM_ok, ?_⟩
  intro all
  induction items with
  | nil => rfl
  | cons first rest ih =>
    have split : (first :: rest).forM check = (check first >>= fun _ => rest.forM check) := rfl
    rw [split, all first List.mem_cons_self, ok_bind]
    exact ih fun item member => all item (List.mem_cons_of_mem first member)

/-- A fold that fails fails in one of its rounds, from a state the rounds before
it kept. -/
theorem foldlM_error {motive : α -> Prop} {failure : ε} (failed : items.foldlM round start = .error failure)
    (holds : motive start) (step : ∀ state item next, motive state -> round state item = .ok next -> motive next) :
    ∃ state item, motive state ∧ round state item = .error failure := by
  induction items generalizing start with
  | nil => cases failed
  | cons item rest ih =>
    rw [List.foldlM_cons] at failed
    cases ran : round start item with
    | error other =>
      rw [ran] at failed
      cases failed
      exact ⟨start, item, holds, ran⟩
    | ok middle =>
      rw [ran] at failed
      exact ih failed (step start item middle holds ran)

/-- A fold with the items already seen: the invariant may speak about all of
them. -/
theorem foldlM_history {motive : List β -> α -> Prop} {seen : List β} (done : items.foldlM round start = .ok final)
    (holds : motive seen start)
    (step : ∀ seen state item next, motive seen state -> round state item = .ok next ->
      motive (item :: seen) next) : motive (items.reverse ++ seen) final := by
  induction items generalizing start seen with
  | nil =>
    cases done
    exact holds
  | cons item rest ih =>
    rw [List.foldlM_cons] at done
    obtain ⟨middle, ran, continued⟩ := bind_ok done
    rw [List.reverse_cons, List.append_assoc]
    exact ih continued (step seen start item middle holds ran)

/-- A fold that knows how many of its items it has seen. -/
theorem foldlM_indexed {motive : Nat -> α -> Prop} (k : Nat) (done : items.foldlM round start = .ok final)
    (holds : motive k start)
    (step : ∀ (i : Nat) state item next, items[i]? = some item -> motive (k + i) state -> round state item = .ok next ->
      motive (k + i + 1) next) : motive (k + items.length) final := by
  induction items generalizing k start with
  | nil =>
    cases done
    exact holds
  | cons item rest ih =>
    rw [List.foldlM_cons] at done
    obtain ⟨middle, ran, continued⟩ := bind_ok done
    have more := ih (k + 1) continued (step 0 start item middle rfl holds ran)
      fun i state later next found before ran => by
        have shifted := step (i + 1) state later next found
        rw [show k + (i + 1) = k + 1 + i by omega] at shifted
        exact shifted before ran
    rw [List.length_cons, Nat.add_comm rest.length, ← Nat.add_assoc]
    exact more

/-- A successful fold is followed by another one, round for round; the relation
between them may speak about the items already seen. -/
theorem foldlM_simulation {α' : Type} (related : List β -> α -> α' -> Prop) (round' : α' -> β -> Except ε α')
    (seen : List β) {start' : α'} (done : items.foldlM round start = .ok final) (begins : related seen start start')
    (step : ∀ seen state state' item next, item ∈ items -> related seen state state' -> round state item = .ok next ->
      ∃ next', round' state' item = .ok next' ∧ related (item :: seen) next next') :
    ∃ final', items.foldlM round' start' = .ok final' ∧ related (items.reverse ++ seen) final final' := by
  induction items generalizing start start' seen with
  | nil =>
    cases done
    exact ⟨start', rfl, begins⟩
  | cons item rest ih =>
    rw [List.foldlM_cons] at done
    obtain ⟨middle, ran, continued⟩ := bind_ok done
    obtain ⟨middle', ran', relates⟩ := step seen start start' item middle List.mem_cons_self begins ran
    obtain ⟨final', done', ends⟩ := ih (item :: seen) continued relates
      fun seen state state' later next member => step seen state state' later next (List.mem_cons_of_mem item member)
    refine ⟨final', ?_, ?_⟩
    · rw [List.foldlM_cons, ran']
      exact done'
    · rw [List.reverse_cons, List.append_assoc]
      exact ends

end Src32.Fallible
