import Src32.Lib.Scans
import Src32.Machine.Word

namespace Src32.Devices

/-!
# The bus arbiter

`Bmc` of `bmc.rs`.  Of the masters that request the bus the one with the least
effective priority is granted.  A priority is the lower the longer its master has
waited, and equal priorities are served in turn, beginning behind the last winner.

Masters are the numbers below eight, and the bits of a request byte say which of
them ask for the bus.
-/

/-- `AGE_GRANTS`. -/
def ageGrants : Nat := 256

/-- The largest 16-bit number, where a wait count stays. -/
def waitMax : Nat := 65535

/-- `Bmc`. -/
structure Bmc where
  enabled : Bool
  priorities : Nat -> Nat
  waited : Nat -> Nat
  pending : Byte
  active : Option Nat
  nextMaster : Nat
  maxBurst : Word

/-- The masters whose request bit is set. -/
def requested (requests : Byte) : List Nat := (List.range 8).filter fun id => requests.getLsbD id

namespace Bmc

/-- `new`. -/
def new : Bmc where
  enabled := true
  priorities := fun id => [0, 1, 2, 2, 2, 2, 2, 2].getD id 0
  waited := fun _ => 0
  pending := 0
  active := none
  nextMaster := 0
  maxBurst := 16

/-- What a request byte leaves to choose from: a disabled arbiter serves the CPU
alone. -/
def eligible (b : Bmc) (requests : Byte) : Byte :=
  let allowed := if b.enabled then requests else requests &&& 1
  if allowed = 0 then requests &&& 1 else allowed

/-- The priority of a master with its waiting time. -/
def effective (b : Bmc) (id : Nat) : Nat := b.priorities id - min (b.waited id / ageGrants) 7

/-- The master that a step of the search looks at. -/
def place (b : Bmc) (step : Nat) : Nat := (b.nextMaster + step) % 8

/-- One step of the search for the winner. -/
def consider (b : Bmc) (eligible : Byte) (best : Nat × Option Nat) (step : Nat) : Nat × Option Nat :=
  if eligible.getLsbD (b.place step) = true then keepLess b.effective best (b.place step) else best

/-- The wait counts once a winner is found. -/
def waitedAfter (b : Bmc) (requests : Byte) (winner : Nat) : Nat -> Nat := fun id =>
  if requests.getLsbD id = false ∨ id = winner then 0 else min (b.waited id + 1) waitMax

/-- `grant`: the master granted, and the arbiter behind the call. -/
def grant (b : Bmc) (requests : Byte) : Option Nat × Bmc :=
  let b := { b with pending := requests }
  if requests = 0 then (none, b)
  else if b.eligible requests = 0 then (none, b)
  else
    match requested requests with
    -- the only request: no search, and nobody else has waited
    | [winner] =>
      (some winner, { b with waited := fun _ => 0, active := some winner, nextMaster := (winner + 1) % 8 })
    | _ =>
      match ((List.range 8).foldl (b.consider (b.eligible requests)) (255, none)).2 with
      | none => (none, b)
      | some winner =>
        (some winner,
          { b with waited := b.waitedAfter requests winner, active := some winner, nextMaster := (winner + 1) % 8 })

/-- `release`. -/
def release (b : Bmc) : Bmc := { b with active := none }

/-- `claim_cpu`. -/
def claimCpu (b : Bmc) : Bmc := { b with active := some 0 }

/-- `set_priority`. -/
def setPriority (b : Bmc) (master : Nat) (priority : Byte) : Bmc :=
  if master < 8 then { b with priorities := Function.update b.priorities master (priority.toNat % 8) } else b

/-- The burst length with one of its bytes replaced, kept between 1 and 256. -/
def burstWith (burst : Word) (lane : Nat) (value : Byte) : Word :=
  let shift := (3 - lane) * 8
  let next := (burst &&& ~~~(0xFF#32 <<< shift)) ||| (value.zeroExtend 32 <<< shift)
  if next = 0 then 1 else if 256 < next.toNat then 256 else next

/-- `write_byte`. -/
def writeByte (b : Bmc) (addr : Nat) (value : Byte) : Bmc :=
  let lane := addr % 4
  let reg := addr - lane
  if reg = 0x004 ∧ lane = 3 then { b with enabled := value.getLsbD 0 }
  else if 0x020 ≤ reg ∧ reg ≤ 0x03C ∧ lane = 3 then
    { b with priorities := Function.update b.priorities ((reg - 0x020) / 4) (value.toNat % 8) }
  else if reg = 0x040 then { b with maxBurst := burstWith b.maxBurst lane value }
  else b

end Bmc

/-! ## What a grant does -/

theorem mem_requested {requests : Byte} {id : Nat} :
    id ∈ requested requests ↔ id < 8 ∧ requests.getLsbD id = true := by
  simp only [requested, List.mem_filter, List.mem_range]

/-- Priorities fit three bits and the turn is at a master. -/
structure Bmc.Lawful (b : Bmc) : Prop where
  priority_le : ∀ id, b.priorities id ≤ 7
  next_lt : b.nextMaster < 8

namespace Bmc

variable {b : Bmc}

theorem effective_le (lawful : b.Lawful) (id : Nat) : b.effective id ≤ 7 :=
  Nat.le_trans (Nat.sub_le _ _) (lawful.priority_le id)

/-- How far behind the turn a master is. -/
def behind (b : Bmc) (id : Nat) : Nat := (id + 8 - b.nextMaster) % 8

theorem behind_place (lawful : b.Lawful) {step : Nat} (bound : step < 8) : b.behind (b.place step) = step := by
  have next := lawful.next_lt
  unfold behind place
  omega

theorem place_behind (lawful : b.Lawful) {id : Nat} (bound : id < 8) : b.place (b.behind id) = id := by
  have next := lawful.next_lt
  unfold behind place
  omega

/-- The masters the search compares, in its order. -/
def candidates (b : Bmc) (eligible : Byte) : List Nat := ((List.range 8).map b.place).filter fun id => eligible.getLsbD id

theorem search_eq (eligible : Byte) (best : Nat × Option Nat) : (List.range 8).foldl (b.consider eligible) best =
    (b.candidates eligible).foldl (keepLess b.effective) best := by
  unfold candidates
  rw [List.foldl_filter, List.foldl_map]
  rfl

theorem mem_candidates (lawful : b.Lawful) {eligible : Byte} {id : Nat} :
    id ∈ b.candidates eligible ↔ id < 8 ∧ eligible.getLsbD id = true := by
  unfold candidates
  rw [List.mem_filter, List.mem_map]
  constructor
  · rintro ⟨⟨step, -, rfl⟩, bit⟩
    exact ⟨Nat.mod_lt _ (by decide), bit⟩
  · rintro ⟨bound, bit⟩
    exact ⟨⟨b.behind id, List.mem_range.mpr (Nat.mod_lt _ (by decide)), place_behind lawful bound⟩, bit⟩

/-- The search meets the masters in the order of their turn. -/
theorem candidates_pairwise (lawful : b.Lawful) (eligible : Byte) :
    (b.candidates eligible).Pairwise fun first second => b.behind first < b.behind second := by
  apply List.Pairwise.filter
  rw [List.pairwise_map]
  apply List.Pairwise.imp_of_mem _ (List.pairwise_lt_range (n := 8))
  intro first second inFirst inSecond less
  rw [behind_place lawful (List.mem_range.mp inFirst), behind_place lawful (List.mem_range.mp inSecond)]
  exact less

/-- The search finds a master that is eligible, has the least effective priority,
and comes first in turn of those that have it. -/
theorem search_spec (lawful : b.Lawful) {eligible : Byte} {master : Nat} (bound : master < 8)
    (bit : eligible.getLsbD master = true) :
    ∃ winner, ((List.range 8).foldl (b.consider eligible) (255, none)).2 = some winner ∧ winner < 8 ∧
      eligible.getLsbD winner = true ∧ ∀ id, id < 8 -> eligible.getLsbD id = true ->
        b.effective winner ≤ b.effective id ∧
        (b.effective winner = b.effective id -> winner ≠ id -> b.behind winner < b.behind id) := by
  have low : ∃ x ∈ b.candidates eligible, b.effective x < 255 :=
    ⟨master, (mem_candidates lawful).mpr ⟨bound, bit⟩,
      Nat.lt_of_le_of_lt (effective_le lawful master) (by decide)⟩
  obtain ⟨before, winner, after, parts, found, earlier, later⟩ := foldl_keepLess b.effective (255, none) _ low
  have member : winner ∈ b.candidates eligible := by
    rw [parts]
    exact List.mem_append_right _ List.mem_cons_self
  obtain ⟨small, chosen⟩ := (mem_candidates lawful).mp member
  refine ⟨winner, ?_, small, chosen, ?_⟩
  · rw [search_eq, found]
  · intro id idBound idBit
    have turn := candidates_pairwise lawful eligible
    have here : id ∈ b.candidates eligible := (mem_candidates lawful).mpr ⟨idBound, idBit⟩
    rw [parts] at here turn
    rcases List.mem_append.mp here with first | rest
    · exact ⟨Nat.le_of_lt (earlier id first), fun same => absurd same (Nat.ne_of_lt (earlier id first))⟩
    · rcases List.mem_cons.mp rest with rfl | last
      · exact ⟨Nat.le_refl _, fun _ other => absurd rfl other⟩
      · exact ⟨later id last, fun _ _ => (List.pairwise_cons.mp (List.pairwise_append.mp turn).2.1).1 id last⟩

end Bmc
end Src32.Devices
