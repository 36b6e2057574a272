import Src32.Devices.BmcGrants

namespace Src32.Devices

/-!
# The wait of a CPU access for the bus

`arbitrate_cpu_access` and `service_dma_request` of `bus.rs`.  A DMA beat reads and
writes memory, the disk controller and expansion cards, none of which is the
arbiter, so all of these stand together as one state with the requests of the DMA
channels and the effect of a beat.
-/

/-- `BusAccessSource`. -/
inductive AccessSource where
  | cpu
  | debugger
  deriving DecidableEq

/-- The DMA controller with everything its beats reach: which masters it asks for,
and the beat of a channel that is granted, whether it completes or fails. -/
structure DmaSide (State : Type) where
  requestMask : State -> Byte
  beat : State -> Nat -> State

/-- The arbiter and the DMA side of the bus. -/
structure DmaBus (State : Type) where
  source : AccessSource
  bmc : Option Bmc
  dmac : Option State

namespace DmaBus

variable {State : Type}

/-- `service_dma_request`: the master served and the bus behind it. -/
def serviceDmaRequest (side : DmaSide State) (bus : DmaBus State) (includeCpu : Bool) : Option Nat × DmaBus State :=
  match bus.bmc, bus.dmac with
  | some bmc, some dmac =>
    let granted := bmc.grant ((if includeCpu then 1 else 0) ||| side.requestMask dmac)
    match granted.1 with
    | none => (none, { bus with bmc := some granted.2 })
    | some selected =>
      (some selected,
        { bus with
          bmc := some granted.2.release
          dmac := some (if selected < 2 then dmac else side.beat dmac (selected - 2)) })
  | _, _ => (none, bus)

/-- The loop of `arbitrate_cpu_access`, as many times as the fuel allows: what the
last service returned, and the bus where the loop is left. -/
def waitCpu (side : DmaSide State) : Nat -> DmaBus State -> Option (Option Nat × DmaBus State)
  | 0, _ => none
  | fuel + 1, bus =>
    let served := bus.serviceDmaRequest side true
    if served.1 = some 0 then some served
    else if served.2.bmc = none ∨ served.2.dmac = none then some served
    else waitCpu side fuel served.2

/-- `claim_cpu` on the arbiter of the bus. -/
def claimCpu (bus : DmaBus State) : DmaBus State := { bus with bmc := bus.bmc.map Bmc.claimCpu }

/-- No channel asks for the bus. -/
def Quiet (side : DmaSide State) (bus : DmaBus State) : Bool :=
  bus.bmc.isSome && (bus.dmac.map fun dmac => decide (side.requestMask dmac = 0)).getD false

/-- `arbitrate_cpu_access`. -/
def arbitrateCpuAccess (side : DmaSide State) (fuel : Nat) (bus : DmaBus State) : Option (DmaBus State) :=
  if bus.source ≠ .cpu then some bus
  else if bus.Quiet side then some { bus with bmc := bus.bmc.map fun bmc => (bmc.grant 1).2.claimCpu }
  else (bus.waitCpu side fuel).map fun served => served.2.claimCpu

/-! ## The loop ends with the CPU served -/

variable (side : DmaSide State) {bus : DmaBus State} {bmc : Bmc} {dmac : State}

/-- The CPU may be served whenever it asks, enabled or not. -/
theorem cpu_eligible (bmc : Bmc) (mask : Byte) : (bmc.eligible (1 ||| mask)).getLsbD 0 = true := by
  have asked : (1 ||| mask).getLsbD 0 = true := by
    rw [BitVec.getLsbD_or]
    rfl
  have alone : ((1 ||| mask) &&& 1).getLsbD 0 = true := by
    rw [BitVec.getLsbD_and, asked]
    rfl
  by_cases none_allowed : (if bmc.enabled then 1 ||| mask else (1 ||| mask) &&& 1) = 0
  · rw [show bmc.eligible (1 ||| mask) = (1 ||| mask) &&& 1 from if_pos none_allowed]
    exact alone
  · rw [show bmc.eligible (1 ||| mask) = if bmc.enabled then 1 ||| mask else (1 ||| mask) &&& 1 from
      if_neg none_allowed]
    split
    · exact asked
    · exact alone

/-- A service for a CPU that waits grants some master, and the CPU waits on with
less patience unless it is the one. -/
theorem service_spec (arbiter : bus.bmc = some bmc) (dma : bus.dmac = some dmac) (lawful : bmc.Lawful) :
    ∃ winner next nextDma, bus.serviceDmaRequest side true =
        (some winner, { bus with bmc := some next, dmac := some nextDma }) ∧
      next.Lawful ∧ (winner ≠ 0 -> next.patience 0 < bmc.patience 0) := by
  have eligible := cpu_eligible bmc (side.requestMask dmac)
  obtain ⟨winner, granted, passed⟩ := Bmc.grant_passed lawful (by decide) eligible
  have keeps := (Bmc.grant_lawful lawful (1 ||| side.requestMask dmac)).1
  refine ⟨winner, (bmc.grant (1 ||| side.requestMask dmac)).2.release,
    if winner < 2 then dmac else side.beat dmac (winner - 2), ?_, ⟨keeps.priority_le, keeps.next_lt⟩, ?_⟩
  · unfold serviceDmaRequest
    rw [arbiter, dma]
    dsimp only
    rw [if_pos rfl, granted]
  · intro other
    exact passed.patience_lt lawful (by decide) eligible other.symm

/-- Fuel for the CPU's patience is enough for the loop, which ends with the CPU
granted. -/
theorem waitCpu_granted (fuel : Nat) (arbiter : bus.bmc = some bmc) (dma : bus.dmac = some dmac) (lawful : bmc.Lawful)
    (enough : bmc.patience 0 ≤ fuel) :
    ∃ next nextDma, bus.waitCpu side fuel = some (some 0, { bus with bmc := some next, dmac := some nextDma }) := by
  induction fuel generalizing bus bmc dmac with
  | zero => exact absurd (bmc.patience_pos 0) (Nat.not_lt.mpr enough)
  | succ fuel ih =>
    obtain ⟨winner, next, nextDma, served, keeps, less⟩ := service_spec side arbiter dma lawful
    unfold waitCpu
    dsimp only
    rw [served]
    by_cases cpu : winner = 0
    · subst cpu
      exact ⟨next, nextDma, if_pos rfl⟩
    · have goes : ¬ (some winner = some 0) := fun same => cpu (Option.some.inj same)
      have present : ¬ (some next = none ∨ some nextDma = none) := by
        rintro (missing | missing)
        · exact Option.some_ne_none _ missing
        · exact Option.some_ne_none _ missing
      rw [if_neg goes, if_neg present]
      have left : next.patience 0 ≤ fuel := Nat.le_of_lt_succ (Nat.lt_of_lt_of_le (less cpu) enough)
      exact @ih { bus with bmc := some next, dmac := some nextDma } next nextDma rfl rfl keeps left

/-- The loop is left at once where there is no arbiter or no DMA controller. -/
theorem waitCpu_missing (fuel : Nat) (missing : bus.bmc = none ∨ bus.dmac = none) :
    bus.waitCpu side (fuel + 1) = some (none, bus) := by
  have served : bus.serviceDmaRequest side true = (none, bus) := by
    unfold serviceDmaRequest
    rcases missing with arbiter | dma
    · rw [arbiter]
    · rw [dma]
      cases bus.bmc with
      | none => rfl
      | some bmc => rfl
  unfold waitCpu
  dsimp only
  rw [served, if_neg (Option.some_ne_none 0).symm, if_pos missing]

/-- A CPU access gets the bus of a lawful arbiter. -/
theorem arbitrate_claims (lawful : ∀ bmc, bus.bmc = some bmc -> bmc.Lawful) :
    ∃ after, bus.arbitrateCpuAccess side (7 * 256 + 8) = some after ∧
      (bus.source = .cpu -> bus.bmc ≠ none -> ∃ claimed, after.bmc = some claimed ∧ claimed.active = some 0) := by
  unfold arbitrateCpuAccess
  by_cases foreign : bus.source ≠ .cpu
  · rw [if_pos foreign]
    exact ⟨bus, rfl, fun cpu => absurd cpu foreign⟩
  · rw [if_neg foreign]
    by_cases quiet : bus.Quiet side
    · rw [if_pos quiet]
      refine ⟨_, rfl, fun _ present => ?_⟩
      obtain ⟨bmc, arbiter⟩ := Option.ne_none_iff_exists'.mp present
      exact ⟨(bmc.grant 1).2.claimCpu, congrArg (Option.map fun bmc => (bmc.grant 1).2.claimCpu) arbiter, rfl⟩
    · rw [if_neg quiet]
      by_cases missing : bus.bmc = none ∨ bus.dmac = none
      · rw [waitCpu_missing side _ missing]
        refine ⟨bus.claimCpu, rfl, fun _ present => ?_⟩
        obtain ⟨bmc, arbiter⟩ := Option.ne_none_iff_exists'.mp present
        exact ⟨bmc.claimCpu, congrArg (Option.map Bmc.claimCpu) arbiter, rfl⟩
      · obtain ⟨bmc, arbiter⟩ := Option.ne_none_iff_exists'.mp (fun none => missing (.inl none))
        obtain ⟨dmac, dma⟩ := Option.ne_none_iff_exists'.mp (fun none => missing (.inr none))
        obtain ⟨next, nextDma, granted⟩ :=
          waitCpu_granted side _ arbiter dma (lawful bmc arbiter) (bmc.patience_le 0)
        rw [granted]
        exact ⟨_, rfl, fun _ _ => ⟨next.claimCpu, rfl, rfl⟩⟩

end DmaBus

/-- A master that asks at each call of a stretch while the arbiter is enabled is
granted within 1800 calls of it, and the loop of a CPU access ends within as many
rounds with the CPU granted, whatever the channels ask for. -/
theorem bmc_grants_every_master (history : List Bmc.Event) :
    (∀ (stretch : List Bmc.Event) (master : Nat), master < 8 -> Bmc.Asks master (Bmc.new.run history) stretch ->
      7 * 256 + 8 ≤ ((Bmc.new.run history).grants stretch).length ->
      some master ∈ ((Bmc.new.run history).grants stretch).take (7 * 256 + 8)) ∧
    ∀ {State : Type} (side : DmaSide State) (bus : DmaBus State), bus.bmc = some (Bmc.new.run history) ->
      (bus.dmac ≠ none -> ∃ behind, bus.waitCpu side (7 * 256 + 8) = some (some 0, behind)) ∧
      ∃ after, bus.arbitrateCpuAccess side (7 * 256 + 8) = some after ∧
        (bus.source = .cpu -> ∃ claimed, after.bmc = some claimed ∧ claimed.active = some 0) := by
  have lawful := Bmc.run_lawful Bmc.new_lawful history
  have short := Bmc.patience_le (Bmc.new.run history)
  constructor
  · intro stretch master bound asks long
    have found := Bmc.grants_within lawful bound stretch asks (Nat.le_trans (short master) long)
    exact List.take_subset_take_left _ (short master) found
  · intro State side bus arbiter
    constructor
    · intro dma
      obtain ⟨dmac, present⟩ := Option.ne_none_iff_exists'.mp dma
      obtain ⟨next, nextDma, granted⟩ := DmaBus.waitCpu_granted side _ arbiter present lawful (short 0)
      exact ⟨_, granted⟩
    · have each : ∀ bmc, bus.bmc = some bmc -> bmc.Lawful := by
        intro bmc same
        rw [arbiter] at same
        exact Option.some.inj same ▸ lawful
      obtain ⟨after, ends, claims⟩ := DmaBus.arbitrate_claims side each
      exact ⟨after, ends, fun cpu => claims cpu (fun none => Option.some_ne_none _ (arbiter.symm.trans none))⟩

/-- The same masters asking again and again. -/
theorem asks_replicate {b : Bmc} {requests : Byte} {master : Nat} (on : b.enabled = true)
    (bit : requests.getLsbD master = true) (lawful : b.Lawful) (count : Nat) :
    Bmc.Asks master b (List.replicate count (.grant requests)) ∧
      (b.grants (List.replicate count (.grant requests))).length = count := by
  induction count generalizing b with
  | zero => exact ⟨trivial, rfl⟩
  | succ count ih =>
    obtain ⟨keeps, stays⟩ := Bmc.grant_lawful lawful requests
    obtain ⟨asks, long⟩ := ih (stays.trans on) keeps
    exact ⟨⟨on, bit, asks⟩, congrArg (· + 1) long⟩

/-- The last of eight masters that all ask, and a CPU against six channels. -/
theorem bmc_grants_every_master_full :
    some 7 ∈ (Bmc.new.grants (List.replicate (7 * 256 + 8) (.grant 0xFF))).take (7 * 256 + 8) ∧
    ∃ behind, ({ source := .cpu, bmc := some Bmc.new, dmac := some () } : DmaBus Unit).waitCpu
      ⟨fun _ => 0xFC, fun state _ => state⟩ (7 * 256 + 8) = some (some 0, behind) := by
  obtain ⟨asks, long⟩ := asks_replicate (show Bmc.new.enabled = true from rfl)
    (show (0xFF : Byte).getLsbD 7 = true by decide) Bmc.new_lawful (7 * 256 + 8)
  obtain ⟨granted, waits⟩ := bmc_grants_every_master []
  refine ⟨granted _ 7 (by decide) asks (Nat.le_of_eq long.symm), ?_⟩
  exact (waits ⟨fun _ => 0xFC, fun state _ => state⟩ { source := .cpu, bmc := some Bmc.new, dmac := some () } rfl).1
    (Option.some_ne_none _)

end Src32.Devices
