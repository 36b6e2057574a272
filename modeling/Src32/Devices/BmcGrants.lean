import Mathlib.Data.List.TakeDrop
import Mathlib.Tactic.IntervalCases
import Src32.Devices.Bmc

namespace Src32.Devices

/-!
# No master starves at the bus arbiter

A master that asks at every call is served within 1800 of them.  For 1792 calls
its effective priority falls to the least there is.  From then on only a master
nearer to the turn is served before it, and each such grant brings the turn closer.
-/

namespace Bmc

variable {b : Bmc} {requests : Byte}

/-! ## One grant -/

theorem eligible_enabled (on : b.enabled = true) (asked : requests ≠ 0) : b.eligible requests = requests := by
  simp only [eligible, on, if_true, if_neg asked]

variable {master id : Nat}

theorem requested_ne_zero (bit : requests.getLsbD id = true) : requests ≠ 0 := by
  rintro rfl
  rw [show (0 : Byte) = 0#8 from rfl, BitVec.getLsbD_zero] at bit
  exact Bool.noConfusion bit

/-- A grant leaves a lawful arbiter and touches none of its registers. -/
theorem grant_lawful (lawful : b.Lawful) (requests : Byte) :
    (b.grant requests).2.Lawful ∧ (b.grant requests).2.enabled = b.enabled := by
  unfold grant
  dsimp only
  split
  · exact ⟨⟨lawful.priority_le, lawful.next_lt⟩, rfl⟩
  · split
    · exact ⟨⟨lawful.priority_le, lawful.next_lt⟩, rfl⟩
    · split
      · exact ⟨⟨lawful.priority_le, Nat.mod_lt _ (by decide)⟩, rfl⟩
      · split
        · exact ⟨⟨lawful.priority_le, lawful.next_lt⟩, rfl⟩
        · exact ⟨⟨lawful.priority_le, Nat.mod_lt _ (by decide)⟩, rfl⟩

/-- What a grant does when a master may be served: the winner is eligible, and for
each master that asks and loses the wait count grows, the turn moves behind the
winner, and the winner had no worse priority and, at the same one, a nearer turn. -/
structure Passed (b : Bmc) (requests : Byte) (winner : Nat) (after : Bmc) : Prop where
  bound : winner < 8
  asked : (b.eligible requests).getLsbD winner = true
  next : after.nextMaster = (winner + 1) % 8
  losers : ∀ id, id < 8 -> (b.eligible requests).getLsbD id = true -> id ≠ winner ->
    b.effective winner ≤ b.effective id ∧ (b.effective winner = b.effective id -> b.behind winner < b.behind id)
  waits : ∀ id, id < 8 -> requests.getLsbD id = true -> id ≠ winner ->
    after.waited id = min (b.waited id + 1) waitMax

/-- A bit that is eligible is requested. -/
theorem requested_of_eligible (bit : (b.eligible requests).getLsbD id = true) :
    requests.getLsbD id = true := by
  have alone : ∀ other : Byte, (other &&& 1).getLsbD id = true -> other.getLsbD id = true := by
    intro other both
    rw [BitVec.getLsbD_and, Bool.and_eq_true] at both
    exact both.1
  by_cases some_allowed : (if b.enabled then requests else requests &&& 1) = 0
  · rw [show b.eligible requests = requests &&& 1 from if_pos some_allowed] at bit
    exact alone requests bit
  · rw [show b.eligible requests = if b.enabled then requests else requests &&& 1 from if_neg some_allowed] at bit
    split at bit
    · exact bit
    · exact alone requests bit

/-- A request that is eligible leads to a grant. -/
theorem grant_passed (lawful : b.Lawful) (bound : master < 8) (bit : (b.eligible requests).getLsbD master = true) :
    ∃ winner, (b.grant requests).1 = some winner ∧ Passed b requests winner (b.grant requests).2 := by
  have some_asked : requests ≠ 0 := requested_ne_zero (requested_of_eligible bit)
  have some_eligible : b.eligible requests ≠ 0 := requested_ne_zero bit
  unfold grant
  dsimp only
  rw [if_neg some_asked, if_neg (show ({ b with pending := requests } : Bmc).eligible requests ≠ 0 from some_eligible)]
  split
  · next winner alone =>
      have only : ∀ id, id < 8 -> requests.getLsbD id = true -> id = winner := by
        intro id small set
        have member := mem_requested.mpr ⟨small, set⟩
        rw [alone] at member
        exact List.mem_singleton.mp member
      have served : master = winner := only master bound (requested_of_eligible bit)
      subst served
      refine ⟨master, rfl, bound, bit, rfl, ?_, ?_⟩
      · exact fun id small set other => absurd (only id small (requested_of_eligible set)) other
      · exact fun id small set other => absurd (only id small set) other
  · obtain ⟨winner, found, small, chosen, least⟩ := search_spec lawful bound bit
    have search : (List.range 8).foldl
        (({ b with pending := requests } : Bmc).consider (({ b with pending := requests } : Bmc).eligible requests))
        (255, none) = (List.range 8).foldl (b.consider (b.eligible requests)) (255, none) := rfl
    rw [search, found]
    refine ⟨winner, rfl, small, chosen, rfl, ?_, ?_⟩
    · intro id idBound set other
      exact ⟨(least id idBound set).1, fun same => (least id idBound set).2 same other.symm⟩
    · intro id idBound set other
      refine if_neg ?_
      rintro (unset | same)
      · rw [set] at unset
        exact Bool.noConfusion unset
      · exact other same

/-! ## What is left to wait -/

/-- How many calls a master that asks at each of them can still wait. -/
def patience (b : Bmc) (id : Nat) : Nat := (1792 - b.waited id) + if 1792 ≤ b.waited id then b.behind id + 1 else 8

theorem patience_le (b : Bmc) (id : Nat) : b.patience id ≤ 7 * 256 + 8 := by
  have turn : b.behind id < 8 := Nat.mod_lt _ (by decide)
  unfold patience
  split <;> omega

theorem patience_pos (b : Bmc) (id : Nat) : 0 < b.patience id := by
  unfold patience
  split <;> omega

theorem lt_waitMax : 1792 < waitMax := by
  decide

/-- A master that has waited long enough has the least effective priority. -/
theorem effective_waited (lawful : b.Lawful) (long : 1792 ≤ b.waited id) : b.effective id = 0 := by
  have aged : 7 ≤ b.waited id / ageGrants := by
    unfold ageGrants
    omega
  have small := lawful.priority_le id
  unfold effective
  omega

/-- A grant to another master uses up some of the patience. -/
theorem Passed.patience_lt {winner : Nat} {after : Bmc} (passed : Passed b requests winner after)
    (lawful : b.Lawful) (bound : master < 8) (bit : (b.eligible requests).getLsbD master = true)
    (lost : master ≠ winner) :
    after.patience master < b.patience master := by
  have counts := passed.waits master bound (requested_of_eligible bit) lost
  have turn : after.behind master < 8 := Nat.mod_lt _ (by decide)
  by_cases long : 1792 ≤ b.waited master
  · -- nobody is below priority 0, so the winner's turn was nearer
    obtain ⟨least, nearer⟩ := passed.losers master bound bit lost
    rw [effective_waited lawful long] at least nearer
    have closer := nearer (Nat.le_zero.mp least)
    have next := lawful.next_lt
    have small := passed.bound
    have moves : after.behind master < b.behind master := by
      have after_next := passed.next
      unfold behind at closer ⊢
      rw [after_next]
      omega
    have still : 1792 ≤ after.waited master := by
      rw [counts]
      exact le_min (Nat.le_succ_of_le long) (Nat.le_of_lt lt_waitMax)
    unfold patience
    rw [if_pos long, if_pos still]
    omega
  · have grows : after.waited master = b.waited master + 1 := by
      rw [counts]
      exact min_eq_left (Nat.le_trans (Nat.not_le.mp long) (Nat.le_of_lt lt_waitMax))
    unfold patience
    rw [if_neg long, grows]
    split <;> omega

/-! ## Runs -/

/-- What happens to the arbiter: grants, the release and claim of the bus, and
writes of its registers. -/
inductive Event where
  | grant (requests : Byte)
  | release
  | claimCpu
  | setPriority (master : Nat) (priority : Byte)
  | writeByte (addr : Nat) (value : Byte)

/-- The arbiter behind an event. -/
def after (b : Bmc) : Event -> Bmc
  | .grant requests => (b.grant requests).2
  | .release => b.release
  | .claimCpu => b.claimCpu
  | .setPriority master priority => b.setPriority master priority
  | .writeByte addr value => b.writeByte addr value

/-- The arbiter behind a list of events. -/
def run (b : Bmc) (events : List Event) : Bmc := events.foldl after b

/-- What the grant calls of a run return, in order. -/
def grants (b : Bmc) : List Event -> List (Option Nat)
  | [] => []
  | .grant requests :: rest => (b.grant requests).1 :: (b.grant requests).2.grants rest
  | event :: rest => (b.after event).grants rest

/-- At each grant call of a run the arbiter is enabled and the master asks. -/
def Asks (master : Nat) (b : Bmc) : List Event -> Prop
  | [] => True
  | .grant requests :: rest =>
    b.enabled = true ∧ requests.getLsbD master = true ∧ Asks master (b.grant requests).2 rest
  | event :: rest => Asks master (b.after event) rest

theorem new_lawful : new.Lawful where
  priority_le := by
    intro id
    by_cases small : id < 8
    · interval_cases id <;> decide
    · have none : [0, 1, 2, 2, 2, 2, 2, 2][id]? = none := List.getElem?_eq_none (Nat.not_lt.mp small)
      show [0, 1, 2, 2, 2, 2, 2, 2].getD id 0 ≤ 7
      rw [List.getD_eq_getElem?_getD, none]
      decide
  next_lt := by decide

theorem update_le {priorities : Nat -> Nat} (small : ∀ id, priorities id ≤ 7) (master value id : Nat) :
    Function.update priorities master (value % 8) id ≤ 7 := by
  rw [Function.update_apply]
  split
  · exact Nat.le_of_lt_succ (Nat.mod_lt _ (by decide))
  · exact small id

/-- Every event keeps the arbiter lawful. -/
theorem after_lawful (lawful : b.Lawful) (event : Event) : (b.after event).Lawful := by
  cases event with
  | grant requests => exact (grant_lawful lawful requests).1
  | release | claimCpu => exact ⟨lawful.priority_le, lawful.next_lt⟩
  | setPriority master priority =>
    unfold after setPriority
    dsimp only
    split
    · exact ⟨update_le lawful.priority_le _ _, lawful.next_lt⟩
    · exact lawful
  | writeByte addr value =>
    unfold after writeByte
    dsimp only
    split
    · exact ⟨lawful.priority_le, lawful.next_lt⟩
    · split
      · exact ⟨update_le lawful.priority_le _ _, lawful.next_lt⟩
      · split
        · exact ⟨lawful.priority_le, lawful.next_lt⟩
        · exact lawful

theorem run_lawful (lawful : b.Lawful) (events : List Event) : (b.run events).Lawful := by
  induction events generalizing b with
  | nil => exact lawful
  | cons event rest ih => exact ih (after_lawful lawful event)

/-- Only grants change what a master can still wait. -/
theorem patience_congr {c : Bmc} (waited : c.waited = b.waited) (next : c.nextMaster = b.nextMaster) (id : Nat) :
    c.patience id = b.patience id := by
  simp only [patience, behind, waited, next]

theorem setPriority_patience (master : Nat) (priority : Byte) (id : Nat) :
    (b.setPriority master priority).patience id = b.patience id := by
  unfold setPriority
  split
  · exact patience_congr rfl rfl id
  · rfl

theorem writeByte_patience (addr : Nat) (value : Byte) (id : Nat) :
    (b.writeByte addr value).patience id = b.patience id := by
  unfold writeByte
  dsimp only
  split
  · exact patience_congr rfl rfl id
  · split
    · exact patience_congr rfl rfl id
    · split
      · exact patience_congr rfl rfl id
      · rfl

/-- A master that asks at each call is served within its patience. -/
theorem grants_within (lawful : b.Lawful) (bound : master < 8) (stretch : List Event) (asks : Asks master b stretch)
    (long : b.patience master ≤ (b.grants stretch).length) :
    some master ∈ (b.grants stretch).take (b.patience master) := by
  induction stretch generalizing b with
  | nil => exact absurd long (Nat.not_le.mpr (patience_pos b master))
  | cons event rest ih =>
    have keeps := after_lawful lawful event
    cases event with
    | grant requests =>
      obtain ⟨on, bit, later⟩ := asks
      have eligible : (b.eligible requests).getLsbD master = true := by
        rw [eligible_enabled on (requested_ne_zero bit)]
        exact bit
      obtain ⟨winner, granted, passed⟩ := grant_passed lawful bound eligible
      obtain ⟨left, leftEq⟩ : ∃ left, b.patience master = left + 1 :=
        Nat.exists_eq_succ_of_ne_zero (Nat.ne_of_gt (patience_pos b master))
      change some master ∈ ((b.grant requests).1 :: (b.grant requests).2.grants rest).take (b.patience master)
      rw [leftEq, List.take_succ_cons, granted]
      by_cases lost : master = winner
      · rw [lost]
        exact List.mem_cons_self
      · have less := passed.patience_lt lawful bound eligible lost
        have enough : (b.grant requests).2.patience master ≤ ((b.grant requests).2.grants rest).length := by
          have total : (b.grants (.grant requests :: rest)).length = ((b.grant requests).2.grants rest).length + 1 := rfl
          omega
        have found : some master ∈ ((b.grant requests).2.grants rest).take ((b.grant requests).2.patience master) :=
          ih keeps later enough
        exact List.mem_cons_of_mem _ (List.take_subset_take_left _ (by omega) found)
    | release | claimCpu => exact ih keeps asks long
    | setPriority id priority =>
      have same := @setPriority_patience b id priority master
      have found := ih keeps asks (show (b.setPriority id priority).patience master ≤ _ by rw [same]; exact long)
      change some master ∈ ((b.setPriority id priority).grants rest).take ((b.setPriority id priority).patience master) at found
      rw [same] at found
      exact found
    | writeByte addr value =>
      have same := @writeByte_patience b addr value master
      have found := ih keeps asks (show (b.writeByte addr value).patience master ≤ _ by rw [same]; exact long)
      change some master ∈ ((b.writeByte addr value).grants rest).take ((b.writeByte addr value).patience master) at found
      rw [same] at found
      exact found

theorem eligible_disabled (off : b.enabled = false) : b.eligible requests = requests &&& 1 := by
  simp [eligible, off]

theorem exists_bit {x : Byte} (some_ : x ≠ 0) : ∃ id, id < 8 ∧ x.getLsbD id = true := by
  by_contra none
  push Not at none
  exact some_ (BitVec.eq_of_getLsbD_eq fun id bound => by simpa using none id bound)

/-- A call grants nobody only if nobody may be served.  Else it grants a master that
asks, the CPU if the arbiter is disabled; nobody who may be served has a lower
effective priority, or the same one and a nearer turn. -/
def GrantsFirst (b : Bmc) (requests : Byte) : Option Nat -> Prop
  | none => requests = 0 ∨ b.enabled = false ∧ requests.getLsbD 0 = false
  | some winner => winner < 8 ∧ requests.getLsbD winner = true ∧ (b.enabled = false -> winner = 0) ∧
      ∀ id, id < 8 -> (b.eligible requests).getLsbD id = true -> id ≠ winner ->
        b.effective winner ≤ b.effective id ∧ (b.effective winner = b.effective id -> b.behind winner < b.behind id)

/-- So does every call in every run. -/
theorem run_grants_first (events : List Event) (requests : Byte) :
    (new.run events).GrantsFirst requests ((new.run events).grant requests).1 := by
  have lawful : (new.run events).Lawful := run_lawful new_lawful events
  generalize new.run events = b at lawful
  by_cases idle : b.eligible requests = 0
  · have refused : (b.grant requests).1 = none := by
      unfold grant
      dsimp only
      split
      · rfl
      · rw [if_pos (show ({ b with pending := requests } : Bmc).eligible requests = 0 from idle)]
    rw [refused]
    cases on : b.enabled with
    | true =>
      refine Or.inl ?_
      by_contra asked
      exact asked ((eligible_enabled on asked).symm.trans idle)
    | false =>
      rw [eligible_disabled on] at idle
      exact Or.inr ⟨on, by simpa using congrArg (fun x => x.getLsbD 0) idle⟩
  · obtain ⟨id, bound, bit⟩ := exists_bit idle
    obtain ⟨winner, granted, passed⟩ := grant_passed lawful bound bit
    rw [granted]
    refine ⟨passed.bound, requested_of_eligible passed.asked, fun off => ?_, passed.losers⟩
    have alone := passed.asked
    rw [eligible_disabled off, BitVec.getLsbD_and, Bool.and_eq_true] at alone
    simpa using alone.2

end Bmc
end Src32.Devices
