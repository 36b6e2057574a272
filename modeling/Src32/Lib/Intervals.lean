import Mathlib.Algebra.Order.Ring.Nat
import Mathlib.Data.List.Pairwise
import Mathlib.Data.List.Sort

namespace Src32

/-!
# Half-open intervals of addresses

Ranges of an unbounded address space: no arithmetic here wraps.  A list is
ascending between two bounds when its intervals follow one another without
overlap, which is what a sorted table of blocks says; such a list is pairwise
disjoint and lies between the bounds.
-/

/-- The addresses from `start` to before `stop`. -/
structure Interval where
  start : Nat
  stop : Nat
  deriving DecidableEq

namespace Interval

/-- `a` is one of the addresses. -/
def Contains (i : Interval) (a : Nat) : Prop := i.start ≤ a ∧ a < i.stop

/-- The whole of `i` lies in `j`. -/
def Within (i j : Interval) : Prop := j.start ≤ i.start ∧ i.stop ≤ j.stop

/-- One of the intervals ends before the other starts. -/
def Apart (i j : Interval) : Prop := i.stop ≤ j.start ∨ j.stop ≤ i.start

instance (i j : Interval) : Decidable (i.Within j) := inferInstanceAs (Decidable (_ ∧ _))

instance (i j : Interval) : Decidable (i.Apart j) := inferInstanceAs (Decidable (_ ∨ _))

theorem Within.refl (i : Interval) : i.Within i := ⟨Nat.le_refl _, Nat.le_refl _⟩

variable {intervals : List Interval} {high low : Nat} {j i : Interval}

theorem Within.trans {k : Interval} (first : i.Within j) (second : j.Within k) : i.Within k :=
  ⟨Nat.le_trans second.1 first.1, Nat.le_trans first.2 second.2⟩

theorem Apart.symm (apart : i.Apart j) : j.Apart i := Or.symm apart

/-- Disjointness passes to parts. -/
theorem Apart.of_within {k l : Interval} (apart : i.Apart j) (first : k.Within i) (second : l.Within j) :
    k.Apart l := by
  rcases apart with before | after
  · exact Or.inl (Nat.le_trans first.2 (Nat.le_trans before second.1))
  · exact Or.inr (Nat.le_trans second.2 (Nat.le_trans after first.1))

/-- Disjoint intervals share no address. -/
theorem Apart.not_contains (apart : i.Apart j) {a : Nat} (first : i.Contains a) :
    ¬ j.Contains a := by
  intro second
  unfold Apart at apart
  unfold Contains at first second
  omega

/-- The intervals follow one another from `low` to `high`. -/
def Ascending : Nat -> List Interval -> Nat -> Prop
  | low, [], high => low ≤ high
  | low, i :: rest, high => low ≤ i.start ∧ i.start ≤ i.stop ∧ Ascending i.stop rest high

theorem Ascending.le (ascending : Ascending low intervals high) : low ≤ high := by
  induction intervals generalizing low with
  | nil => exact ascending
  | cons i rest ih =>
    obtain ⟨above, ordered, behind⟩ := ascending
    exact Nat.le_trans above (Nat.le_trans ordered (ih behind))

theorem Ascending.within (ascending : Ascending low intervals high) : ∀ i ∈ intervals, i.Within ⟨low, high⟩ := by
  induction intervals generalizing low with
  | nil =>
    intro i member
    cases member
  | cons first rest ih =>
    obtain ⟨above, ordered, behind⟩ := ascending
    intro i member
    rcases List.mem_cons.mp member with rfl | later
    · exact ⟨above, behind.le⟩
    · have inside := ih behind i later
      exact ⟨Nat.le_trans above (Nat.le_trans ordered inside.1), inside.2⟩

theorem Ascending.pairwise (ascending : Ascending low intervals high) : intervals.Pairwise Apart := by
  induction intervals generalizing low with
  | nil => exact List.Pairwise.nil
  | cons first rest ih =>
    obtain ⟨_, _, behind⟩ := ascending
    exact List.Pairwise.cons (fun later member => Or.inl (behind.within later member).1) (ih behind)

/-- The interval moved along with its lower bound. -/
def move (low newLow : Nat) (i : Interval) : Interval := ⟨i.start + newLow - low, i.stop + newLow - low⟩

/-- Moving every interval by the same distance. -/
theorem Ascending.move (ascending : Ascending low intervals high) (newLow : Nat) :
    Ascending newLow (intervals.map (move low newLow)) (high + newLow - low) := by
  have general : ∀ lower, low ≤ lower -> Ascending lower intervals high ->
      Ascending (lower + newLow - low) (intervals.map (Interval.move low newLow)) (high + newLow - low) := by
    clear ascending
    induction intervals with
    | nil =>
      intro lower _ ascending
      change lower ≤ high at ascending
      change lower + newLow - low ≤ high + newLow - low
      omega
    | cons i rest ih =>
      intro lower bound ascending
      obtain ⟨above, ordered, behind⟩ := ascending
      refine ⟨?_, ?_, ih i.stop (by omega) behind⟩
      · change lower + newLow - low ≤ i.start + newLow - low
        omega
      · change i.start + newLow - low ≤ i.stop + newLow - low
        omega
  have moved := general low (Nat.le_refl low) ascending
  rwa [Nat.add_sub_cancel_left] at moved

/-!
## Sorted intervals

Programs that have to find out whether ranges overlap sort them and compare
neighbours.  For ranges that are not empty this is the same as disjointness of
every two of them.
-/

/-- The order of pairs. -/
def Before (i j : Interval) : Prop := i.start < j.start ∨ i.start = j.start ∧ i.stop ≤ j.stop

instance : DecidableRel Before := fun i j => inferInstanceAs (Decidable (_ ∨ _))

instance : Std.Total Before where
  total i j := by
    unfold Before
    omega

instance : IsTrans Interval Before where
  trans i j k first second := by
    unfold Before at first second ⊢
    omega

/-- No interval reaches into its neighbour. -/
def inOrder : List Interval -> Bool
  | i :: j :: rest => decide (i.stop ≤ j.start) && inOrder (j :: rest)
  | _ => true

variable {intervals : List Interval}

theorem Before.start_le (before : Before i j) : i.start ≤ j.start := by
  unfold Before at before
  omega

/-- Neighbours decide for ranges that are sorted by their starts. -/
theorem inOrder_iff (sorted : intervals.Pairwise fun i j => i.start ≤ j.start)
    (nonempty : ∀ i ∈ intervals, i.start < i.stop) : inOrder intervals = true ↔ intervals.Pairwise Apart := by
  induction intervals with
  | nil => exact ⟨fun _ => List.Pairwise.nil, fun _ => rfl⟩
  | cons i rest ih =>
    have tail := ih (List.pairwise_cons.mp sorted).2 fun j member => nonempty j (List.mem_cons_of_mem i member)
    cases rest with
    | nil => exact ⟨fun _ => List.pairwise_singleton Apart i, fun _ => rfl⟩
    | cons j rest =>
      have order := List.pairwise_cons.mp sorted
      unfold inOrder
      rw [Bool.and_eq_true, decide_eq_true_iff, tail]
      constructor
      · rintro ⟨first, apart⟩
        refine List.pairwise_cons.mpr ⟨fun k member => Or.inl ?_, apart⟩
        rcases List.mem_cons.mp member with rfl | later
        · exact first
        · have ascending := (List.pairwise_cons.mp order.2).1 k later
          exact Nat.le_trans first ascending
      · intro apart
        obtain ⟨first, others⟩ := List.pairwise_cons.mp apart
        refine ⟨?_, others⟩
        rcases first j List.mem_cons_self with before | behind
        · exact before
        · have above := order.1 j List.mem_cons_self
          have some_ := nonempty j (List.mem_cons_of_mem i List.mem_cons_self)
          omega

/-- Sorting and comparing neighbours decides disjointness. -/
theorem inOrder_insertionSort (nonempty : ∀ i ∈ intervals, i.start < i.stop) :
    inOrder (intervals.insertionSort Before) = true ↔ intervals.Pairwise Apart := by
  have same := List.perm_insertionSort Before intervals
  have sorted := List.pairwise_insertionSort Before intervals
  rw [inOrder_iff (sorted.imp Before.start_le) fun i member => nonempty i (same.mem_iff.mp member)]
  exact same.pairwise_iff Apart.symm

/-- Disjoint ranges that are sorted by their starts ascend. -/
theorem ascending_of_sorted (sorted : intervals.Pairwise fun i j => i.start ≤ j.start)
    (nonempty : ∀ i ∈ intervals, i.start < i.stop) (inside : ∀ i ∈ intervals, i.Within ⟨low, high⟩)
    (apart : intervals.Pairwise Apart) (order : low ≤ high) : Ascending low intervals high := by
  induction intervals generalizing low with
  | nil => exact order
  | cons i rest ih =>
    obtain ⟨first, later⟩ := List.pairwise_cons.mp sorted
    obtain ⟨apartFirst, apartLater⟩ := List.pairwise_cons.mp apart
    have here := inside i List.mem_cons_self
    have some_ := nonempty i List.mem_cons_self
    refine ⟨here.1, Nat.le_of_lt some_, ?_⟩
    apply ih later (fun j member => nonempty j (List.mem_cons_of_mem i member)) ?_ apartLater here.2
    intro j member
    have within := inside j (List.mem_cons_of_mem i member)
    refine ⟨?_, within.2⟩
    rcases apartFirst j member with before | behind
    · exact before
    · have above := first j member
      have more := nonempty j (List.mem_cons_of_mem i member)
      omega

end Interval

end Src32
