import Src32.Kernel.Arena
import Src32.Kernel.Nommu
import Src32.Wax.Regions

namespace Src32.Kernel

open Interval
open Wax (waxPlan waxInspect)

/-!
# Launches in their arenas

The plan of a spawn lies inside the arena it takes as long as the blocks of a
version 2 image start below the CPU-reserved area and the room an image needs
and the heap it asks for add up without wrapping.
-/

/-! ## Where a launch goes -/

/-- What keeps the plan of an image inside the arena it is given. -/
structure SoundImage (data : Wax.File) (libs : List Wax.File) : Prop where
  fixed : ∀ info launch, waxInspect data = .ok info -> waxPlan data libs (fixedTarget info) = .ok launch ->
    data.rd16 4 = 2 -> ∀ b ∈ (Wax.v2Fields (Wax.Image.blank data 2)).blocks, b.address ≤ cpuReserved
  room : ∀ info launch, waxInspect data = .ok info -> info.relocatable = true ->
    waxPlan data libs (probeTarget info) = .ok launch ->
    (heapReserve info).toNat + (launch.top - (probeTarget info).windowStart).toNat < 2 ^ 32

/-- A launch whose regions lie between two addresses. -/
structure LaunchInside (launch : Wax.Launch) (lo hi : Word) : Prop where
  regions : ∀ r ∈ launch.regions, r.start.toNat ≤ r.stop.toNat ∧
    (addrRange r.start r.stop).Within (addrRange lo hi)
  above : lo.toNat ≤ launch.top.toNat
  below : launch.top.toNat ≤ hi.toNat

variable {data : Wax.File} {libs : List Wax.File} {launch : Wax.Launch} {info : Wax.Info} {lo : Word}

/-- The top of a launch is above the origin of its executable. -/
theorem origin_le_top {target : Wax.Target} {exe : Wax.Image} (placed : Wax.LaunchPlaced target launch exe)
    (regions : Wax.RegionsPlaced target launch exe) :
    exe.origin.toNat ≤ launch.top.toNat := by
  have laid := placed.placed.laid
  obtain ⟨b, member⟩ := List.exists_mem_of_ne_nil _ laid.nonempty
  have inside := (laid.placed (Nat.le_of_lt placed.placed.room)).within _ (List.mem_map_of_mem member)
  have reached : (Wax.blockRange exe b).stop ≤ launch.top.toNat := regions.blocks b member
  have start : exe.origin.toNat ≤ (Wax.blockRange exe b).start := inside.1
  have ordered : (Wax.blockRange exe b).start ≤ (Wax.blockRange exe b).stop := Nat.le_add_right _ _
  omega

theorem inside_of_fixed (sound : SoundImage data libs) (inspected : waxInspect data = .ok info)
    (planned : waxPlan data libs (fixedTarget info) = .ok launch) :
    LaunchInside launch (fixedTarget info).windowStart (fixedTarget info).windowEnd := by
  have low : (fixedTarget info).loadBase ≤ cpuReserved := Nat.zero_le _
  have below : Wax.StartsBelow data (fixedTarget info) :=
    ⟨sound.fixed info launch inspected planned, fun _ _ => low⟩
  obtain ⟨exe, placed⟩ := Wax.launchPlaced_of_waxPlan below planned
  have regions := Wax.regionsPlaced_of_waxPlan planned placed
  refine ⟨regions.inside, ?_, regions.top⟩
  exact Nat.le_trans placed.hullInside.1 (origin_le_top placed regions)

theorem inspectHeader_flags {header : Wax.InspectHeader} (read : Wax.inspectHeader data = .ok header)
    (relocatable : header.flags &&& Wax.flagRelocatable ≠ 0) :
    data.rd16 4 = 3 ∧ data.rd16 10 &&& Wax.flagRelocatable ≠ 0 := by
  unfold Wax.inspectHeader at read
  dsimp only at read
  split_ifs at read with second third
  · cases read
    exact absurd (BitVec.zero_and : (0 : Word) &&& Wax.flagRelocatable = 0) relocatable
  · cases read
    exact ⟨third.1, relocatable⟩

/-- Only version 3 has relocatable executables. -/
theorem relocatable_of_inspect (inspected : waxInspect data = .ok info) (relocatable : info.relocatable = true) :
    data.rd16 4 = 3 ∧ data.rd16 10 &&& Wax.flagRelocatable ≠ 0 := by
  unfold Wax.waxInspect at inspected
  split at inspected
  · cases inspected
  · cases read : Wax.inspectHeader data with
    | error failure =>
      rw [read] at inspected
      cases inspected
    | ok header =>
      rw [read] at inspected
      dsimp only at inspected
      generalize (if data.rd16 4 = 2 then (16 : Word) else 24) = blockSize at inspected
      generalize (if data.rd16 4 = 2 then (8 : Word) else 12) = lenOffset at inspected
      split at inspected
      · cases inspected
      · split at inspected
        · cases inspected
        · cases inspected
          rw [decide_eq_true_iff] at relocatable
          exact inspectHeader_flags read relocatable

/-- The stack of a relocatable executable ends where the image begins. -/
theorem stackTop_of_relocatable {target : Wax.Target} (planned : waxPlan data libs target = .ok launch)
    (version : data.rd16 4 = 3) (relocatable : data.rd16 10 &&& Wax.flagRelocatable ≠ 0)
    (moves : target.loadBase ≠ 0) {exe : Wax.Image} (placed : Wax.LaunchPlaced target launch exe) :
    launch.stackTop = target.loadBase ∧ exe.origin = target.loadBase := by
  obtain ⟨parsed, origin, delta, depImage, accepted, chosen, first⟩ := Wax.exe_of_waxPlan planned
  obtain ⟨again, _, _, _, reparsed, kind, rechosen, _, _, stackTop, _⟩ := Wax.waxPlan_ok planned
  cases accepted.symm.trans reparsed
  cases chosen.symm.trans rechosen
  cases placed.first.symm.trans first
  rcases Wax.parse_accepted accepted with ⟨two, _⟩ | ⟨_, ⟨span, align, same⟩, three⟩
  · exact absurd (two.symm.trans version) (by decide)
  · have flag : parsed.relocatable = true := by
      rw [same]
      exact decide_eq_true relocatable
    obtain ⟨_, stop, _, _, _, stack⟩ := three.loop
    simp only [Wax.v3StackOk, Bool.or_eq_true, Bool.and_eq_true, Bool.not_eq_true', Bool.or_eq_false_iff,
      Bool.and_eq_false_iff, decide_eq_false_iff_not, decide_eq_true_iff] at stack
    have tight := (stack.resolve_left fun no => no kind).2
    have top : parsed.stackTop = parsed.base := by
      rcases tight with no | equal
      · rw [flag] at no
        cases no
      · exact not_not.mp equal
    rcases Wax.loadOrigin_cases chosen with ⟨stays, _⟩ | ⟨_, rfl, rfl, _⟩
    · exact absurd (stays flag) moves
    · refine ⟨?_, rfl⟩
      rw [stackTop, top]
      grind

/-- A relocatable launch planned at the trial address lies between the start of
its window and its top. -/
theorem inside_of_probe (inspected : waxInspect data = .ok info) (relocatable : info.relocatable = true)
    (planned : waxPlan data libs (probeTarget info) = .ok launch) :
    LaunchInside launch (probeTarget info).windowStart launch.top := by
  have low : (probeTarget info).loadBase ≤ cpuReserved := by
    change relocProbeBase ≤ cpuReserved
    decide
  obtain ⟨version, flag⟩ := relocatable_of_inspect inspected relocatable
  have below : Wax.StartsBelow data (probeTarget info) :=
    ⟨fun two => absurd (two.symm.trans version) (by decide), fun _ _ => low⟩
  obtain ⟨exe, placed⟩ := Wax.launchPlaced_of_waxPlan below planned
  have regions := Wax.regionsPlaced_of_waxPlan planned placed
  have moves : (probeTarget info).loadBase ≠ 0 := by
    change relocProbeBase ≠ 0
    decide
  obtain ⟨stackTop, origin⟩ := stackTop_of_relocatable planned version flag moves placed
  have above := origin_le_top placed regions
  have start : (probeTarget info).windowStart.toNat ≤ exe.origin.toNat := placed.hullInside.1
  refine ⟨fun r member => ?_, Nat.le_trans start above, Nat.le_refl _⟩
  obtain ⟨ordered, inside⟩ := regions.inside r member
  refine ⟨ordered, inside.1, ?_⟩
  rcases regions.reach r member with same | reach
  · change r.stop.toNat ≤ launch.top.toNat
    rw [same, stackTop, ← origin]
    exact above
  · exact reach

/-- Moving a launch moves its regions and its top. -/
theorem LaunchInside.rebase {moved : Wax.Launch} {hi : Word} {start : Word}
    (inside : LaunchInside launch lo launch.top) (done : Wax.waxRebase launch (start - lo) = .ok moved)
    (room : start.toNat + (launch.top - lo).toNat ≤ hi.toNat) : LaunchInside moved start hi := by
  unfold Wax.waxRebase at done
  split at done
  · cases done
  · cases done
    have above := inside.above
    have bound := hi.isLt
    have shifted : ∀ x : Word, lo.toNat ≤ x.toNat -> x.toNat ≤ launch.top.toNat ->
        (x + (start - lo)).toNat = start.toNat + (x.toNat - lo.toNat) := by
      intro x low high
      bv_omega
    have used : (launch.top - lo).toNat = launch.top.toNat - lo.toNat := by bv_omega
    have top := shifted launch.top above (Nat.le_refl _)
    refine ⟨?_, ?_, ?_⟩
    · intro r member
      obtain ⟨old, listed, rfl⟩ := List.mem_map.mp member
      obtain ⟨ordered, low, high⟩ := inside.regions old listed
      change lo.toNat ≤ old.start.toNat at low
      change old.stop.toNat ≤ launch.top.toNat at high
      have first := shifted old.start low (by omega)
      have last := shifted old.stop (by omega) high
      unfold Within addrRange
      dsimp only
      omega
    · dsimp only
      omega
    · dsimp only
      omega

/-! ## The arena of a plan -/

variable {pool : Pool} {lease : ProcId -> Option (Word × Word)} {p : ProcId}

/-- What planning leaves: the arena is leased and holds the launch, or the
pool has no new tenant. -/
def Planned (lease : ProcId -> Option (Word × Word)) (p : ProcId) : Except FndError ArenaPlan × Pool -> Prop
  | (.ok plan, pool) =>
    Leases pool (Function.update lease p (some (plan.lo, plan.hi))) ∧ LaunchInside plan.launch plan.lo plan.hi
  | (.error _, pool) => Leases pool lease

/-- A run that was taken and given back. -/
theorem Leases.takeBack (leases : Leases pool lease) {hi : Word} (arena : Arena pool.frames lo hi)
    (vacant : Vacant pool lo hi) (idle : lease p = none) : Leases ((pool.rangeTake lo hi).arenaFree lo hi) lease := by
  have returned := (leases.take arena vacant idle).release (Function.update_self ..)
  rw [Function.update_idem, Function.update_eq_self_iff.mpr idle.symm] at returned
  exact returned

theorem planFixed_planned (leases : Leases pool lease) (idle : lease p = none) (sound : SoundImage data libs)
    (inspected : waxInspect data = .ok info) : Planned lease p (planFixed pool data libs info) := by
  unfold planFixed
  cases planned : waxPlan data libs (fixedTarget info) with
  | error failure => exact leases
  | ok launch =>
    dsimp only
    cases claimed : pool.arenaClaim (fixedTarget info).windowStart (fixedTarget info).windowEnd with
    | error error => exact leases
    | ok taken =>
      obtain ⟨free, rfl⟩ := arenaClaim_ok claimed
      have low : Page.down (fixedTarget info).windowStart = (fixedTarget info).windowStart := by
        have aligned := Page.down_aligned info.low
        have whole := Page.down_toNat (fixedTarget info).windowStart
        refine BitVec.eq_of_toNat_eq ?_
        change (Page.down (Page.down info.low)).toNat = (Page.down info.low).toNat
        change (Page.down (Page.down info.low)).toNat + (Page.down info.low).toNat % 4096 =
          (Page.down info.low).toNat at whole
        omega
      have high : Page.up (fixedTarget info).windowEnd = (fixedTarget info).windowEnd :=
        Page.up_of_aligned (Page.up_aligned info.high)
      rw [low, high] at free ⊢
      obtain ⟨arena, vacant⟩ := rangeFree_spec free
      exact ⟨leases.take arena vacant idle, inside_of_fixed sound inspected planned⟩

/-- The arena of a relocatable executable holds what the plan uses. -/
theorem arena_holds {bytes : Word} {next : Pool} (wide : pool.frames ≤ maxFrames) {used reserve : Word}
    (length : bytes = Page.up (used + reserve)) (fits : reserve.toNat + used.toNat < 2 ^ 32)
    (done : pool.arenaAlloc bytes = some (lo, next)) :
    Arena pool.frames lo (lo + bytes) ∧ Vacant pool lo (lo + bytes) ∧ next = pool.rangeTake lo (lo + bytes) ∧
      lo.toNat + used.toNat ≤ (lo + bytes).toNat := by
  obtain ⟨hi, arena, vacant, taken, stop⟩ := arenaAlloc_some wide done
  have sum : (used + reserve).toNat = used.toNat + reserve.toNat := by bv_omega
  have room := arena.nonempty
  have bound := hi.isLt
  have aligned : bytes.toNat % 4096 = 0 := by
    rw [length]
    exact Page.up_aligned _
  have enough : used.toNat ≤ bytes.toNat := by
    by_cases low : (used + reserve).toNat ≤ 0xFFFFF000
    · have near := Page.up_toNat low
      rw [← length] at near
      omega
    · have zero : bytes = 0 := by
        rw [length]
        exact Page.up_wraps (Nat.lt_of_not_le low)
      rw [zero] at stop
      change hi.toNat = lo.toNat + 0 at stop
      omega
  have rounded : (bytes + mmPageMask).toNat / 4096 * 4096 = bytes.toNat := by
    have limit := bytes.isLt
    have plus : (bytes + mmPageMask).toNat = bytes.toNat + 4095 := by
      unfold mmPageMask
      bv_omega
    omega
  have same : hi = lo + bytes := by bv_omega
  subst same
  exact ⟨arena, vacant, taken, by omega⟩

theorem planRelocatable_planned (leases : Leases pool lease) (idle : lease p = none) (sound : SoundImage data libs)
    (inspected : waxInspect data = .ok info) (relocatable : info.relocatable = true) :
    Planned lease p (planRelocatable pool data libs info) := by
  unfold planRelocatable
  cases planned : waxPlan data libs (probeTarget info) with
  | error failure => exact leases
  | ok launch =>
    have inside := inside_of_probe inspected relocatable planned
    have fits := sound.room info launch inspected relocatable planned
    generalize (probeTarget info).windowStart = start at *
    dsimp only
    by_cases large : launch.top - start > relocWindow - heapReserve info
    · rw [if_pos large]
      exact leases
    · rw [if_neg large]
      cases found : pool.arenaAlloc (Page.up (launch.top - start + heapReserve info)) with
      | none => exact leases
      | some pair =>
        obtain ⟨lo, taken⟩ := pair
        obtain ⟨arena, vacant, rfl, room⟩ := arena_holds leases.wide rfl fits found
        dsimp only
        cases moving : Wax.waxRebase launch (lo - start) with
        | error error => exact leases.takeBack arena vacant idle
        | ok moved => exact ⟨leases.take arena vacant idle, inside.rebase moving room⟩

theorem planArena_planned (leases : Leases pool lease) (idle : lease p = none) (sound : SoundImage data libs) :
    Planned lease p (planArena pool data libs) := by
  unfold planArena
  cases inspected : waxInspect data with
  | error error => exact leases
  | ok info =>
    dsimp only
    by_cases relocatable : info.relocatable = true
    · rw [if_pos relocatable]
      exact planRelocatable_planned leases idle sound inspected relocatable
    · rw [if_neg relocatable]
      exact planFixed_planned leases idle sound inspected

end Src32.Kernel
