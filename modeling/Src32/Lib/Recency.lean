import Mathlib.Algebra.Order.Ring.Nat
import Mathlib.Data.Finset.Card

namespace Src32.Recency

/-!
# Ages of the entries of a cache

The live entries of a cache are ranked by age: the entry used last has age 0
and the one that goes next has the highest.  Ages need no clock; a clock is
only needed to say what they mean.
-/

variable {ι : Type} [DecidableEq ι]

/-- The ages of `n` live entries are 0 to `n - 1`. -/
def Ranked (live : Finset ι) (age : ι -> Nat) : Prop := live.image age = Finset.range live.card

/-- Older entries were used earlier. -/
def Recent (live : Finset ι) (age used : ι -> Nat) : Prop :=
  ∀ i ∈ live, ∀ j ∈ live, age i < age j -> used j < used i

/-- The ages once entry `w` is gone. -/
def leave (age : ι -> Nat) (w : ι) (i : ι) : Nat := if age w < age i then age i - 1 else age i

/-- The ages once entry `w` has been used. -/
def use (age : ι -> Nat) (w : ι) (i : ι) : Nat := if i = w then 0 else if age i < age w then age i + 1 else age i

variable {live : Finset ι} {age used : ι -> Nat} {w : ι}

theorem Ranked.injOn (ranked : Ranked live age) : Set.InjOn age live := by
  apply Finset.card_image_iff.mp
  rw [ranked, Finset.card_range]

theorem Ranked.lt (ranked : Ranked live age) {i : ι} (member : i ∈ live) : age i < live.card := by
  have ranges : age i ∈ Finset.range live.card := ranked ▸ Finset.mem_image_of_mem age member
  exact Finset.mem_range.mp ranges

/-- Distinct ages below the number of entries are a ranking. -/
theorem ranked_of_injOn (injective : Set.InjOn age live) (small : ∀ i ∈ live, age i < live.card) :
    Ranked live age := by
  apply Finset.eq_of_subset_of_card_le
  · intro a member
    obtain ⟨i, here, rfl⟩ := Finset.mem_image.mp member
    exact Finset.mem_range.mpr (small i here)
  · rw [Finset.card_range, Finset.card_image_iff.mpr injective]

theorem ranked_congr {other : ι -> Nat} (same : ∀ i ∈ live, other i = age i) (ranked : Ranked live age) :
    Ranked live other := by
  unfold Ranked
  rw [Finset.image_congr same]
  exact ranked

/-! ## An entry goes -/

theorem Ranked.leave (ranked : Ranked live age) (member : w ∈ live) : Ranked (live.erase w) (leave age w) := by
  have away : ∀ i ∈ live.erase w, i ∈ live ∧ age i ≠ age w := by
    intro i here
    rw [Finset.mem_erase] at here
    exact ⟨here.2, fun same => here.1 (ranked.injOn here.2 member same)⟩
  apply ranked_of_injOn
  · intro i here j there same
    obtain ⟨inI, notW⟩ := away i here
    obtain ⟨inJ, neitherW⟩ := away j there
    apply ranked.injOn inI inJ
    unfold Recency.leave at same
    split_ifs at same <;> omega
  · intro i here
    obtain ⟨inI, notW⟩ := away i here
    have low := ranked.lt inI
    have gone := ranked.lt member
    rw [Finset.card_erase_of_mem member]
    unfold Recency.leave
    split_ifs <;> omega

theorem Recent.leave (recent : Recent live age used) (ranked : Ranked live age) (member : w ∈ live) :
    Recent (live.erase w) (leave age w) used := by
  intro i here j there older
  rw [Finset.mem_erase] at here there
  apply recent i here.2 j there.2
  have apart : age i ≠ age w := fun same => here.1 (ranked.injOn here.2 member same)
  have distinct : age j ≠ age w := fun same => there.1 (ranked.injOn there.2 member same)
  unfold Recency.leave at older
  split_ifs at older <;> omega

/-! ## An entry is used -/

theorem Ranked.use (ranked : Ranked live age) (member : w ∈ live) : Ranked live (use age w) := by
  have away : ∀ i ∈ live, i ≠ w -> age i ≠ age w := fun i here other same => other (ranked.injOn here member same)
  apply ranked_of_injOn
  · intro i here j there same
    unfold Recency.use at same
    by_cases first : i = w <;> by_cases second : j = w
    · rw [first, second]
    · rw [if_pos first, if_neg second] at same
      have apart := away j there second
      split_ifs at same <;> omega
    · rw [if_neg first, if_pos second] at same
      have apart := away i here first
      split_ifs at same <;> omega
    · rw [if_neg first, if_neg second] at same
      apply ranked.injOn here there
      have apart := away i here first
      have distinct := away j there second
      split_ifs at same <;> omega
  · intro i here
    have low := ranked.lt here
    have high := ranked.lt member
    unfold Recency.use
    split_ifs <;> omega

theorem Recent.use {now : Nat} (recent : Recent live age used) (ranked : Ranked live age) (member : w ∈ live)
    (past : ∀ i ∈ live, used i < now) : Recent live (use age w) (Function.update used w now) := by
  intro i here j there older
  have away : ∀ k ∈ live, k ≠ w -> age k ≠ age w := fun k here other same => other (ranked.injOn here member same)
  by_cases first : i = w
  · have second : j ≠ w := by
      rintro rfl
      rw [first] at older
      exact Nat.lt_irrefl _ older
    rw [first, Function.update_self, Function.update_of_ne second]
    exact past j there
  · have second : j ≠ w := by
      rintro rfl
      unfold Recency.use at older
      rw [if_pos rfl] at older
      omega
    rw [Function.update_of_ne first, Function.update_of_ne second]
    apply recent i here j there
    have apart := away i here first
    have distinct := away j there second
    unfold Recency.use at older
    rw [if_neg first, if_neg second] at older
    split_ifs at older <;> omega

/-- An entry comes in as the one used last. -/
theorem Ranked.enter (ranked : Ranked live age) (absent : w ∉ live) {other : ι -> Nat} (first : other w = 0)
    (later : ∀ i ∈ live, other i = age i + 1) : Ranked (insert w live) other := by
  apply ranked_of_injOn
  · intro i here j there same
    rw [Finset.mem_coe, Finset.mem_insert] at here there
    rcases here with rfl | here <;> rcases there with rfl | there
    · rfl
    · rw [first, later j there] at same
      omega
    · rw [first, later i here] at same
      omega
    · rw [later i here, later j there] at same
      exact ranked.injOn here there (Nat.succ.inj same)
  · intro i here
    rw [Finset.card_insert_of_notMem absent]
    rcases Finset.mem_insert.mp here with rfl | here
    · rw [first]
      exact Nat.succ_pos _
    · rw [later i here]
      exact Nat.succ_lt_succ (ranked.lt here)

theorem Recent.enter {now : Nat} (recent : Recent live age used) (absent : w ∉ live) {other : ι -> Nat}
    (first : other w = 0) (later : ∀ i ∈ live, other i = age i + 1) (past : ∀ i ∈ live, used i < now) :
    Recent (insert w live) other (Function.update used w now) := by
  intro i here j there older
  have second : j ≠ w := by
    rintro rfl
    rw [first] at older
    exact Nat.not_lt_zero _ older
  have inJ := (Finset.mem_insert.mp there).resolve_left second
  rw [Function.update_of_ne second]
  by_cases same : i = w
  · rw [same, Function.update_self]
    exact past j inJ
  · have inI := (Finset.mem_insert.mp here).resolve_left same
    rw [Function.update_of_ne same]
    rw [later i inI, later j inJ] at older
    exact recent i inI j inJ (Nat.lt_of_succ_lt_succ older)

end Src32.Recency
