import Src32.Kernel.ArenaPlan

namespace Src32.Kernel

open Interval
open Wax (waxPlan waxInspect)
open Function (update update_self update_of_ne)

/-!
# Process isolation without address translation

Every live process holds its arena as a lease on pages of the pool, and its
owned regions stay inside of it.  Spawns of sound images, the growth of heaps
and exits keep that in every order.
-/

/-! ## The invariant -/

/-- The lease of a process: its arena while it is live. -/
def Proc.lease (proc : Proc) : Option (Word × Word) :=
  if proc.state = .live then some (proc.arenaLo, proc.arenaHi) else none

/-- The memory of a live process: its owned regions and its heap lie in its
arena. -/
structure ProcOk (proc : Proc) : Prop where
  regions : ∀ r ∈ proc.regions, r.owned = true ->
    r.start.toNat ≤ r.stop.toNat ∧ (addrRange r.start r.stop).Within (addrRange proc.arenaLo proc.arenaHi)
  heap : proc.heapLimit ≠ 0 ->
    proc.arenaLo.toNat ≤ proc.heapEnd.toNat ∧ proc.heapLimit.toNat ≤ proc.arenaHi.toNat
  heapStart : proc.heapLimit ≠ 0 -> proc.heapRegion ≠ fndProcRegions ->
    ∀ r, proc.regions[proc.heapRegion]? = some r -> r.start.toNat ≤ proc.heapEnd.toNat

/-- The leases of the live processes hold, and each keeps to its own. -/
structure Isolated (s : Nommu) : Prop where
  leases : Leases s.pool fun p => (s.procs p).lease
  procs : ∀ p, (s.procs p).state = .live -> ProcOk (s.procs p)

variable {s : Nommu} {proc : Proc} {p : ProcId}

theorem lease_live (live : proc.state = .live) :
    proc.lease = some (proc.arenaLo, proc.arenaHi) := if_pos live

theorem lease_idle (idle : proc.state ≠ .live) : proc.lease = none := if_neg idle

theorem lease_update (procs : ProcId -> Proc) (p : ProcId) (proc : Proc) :
    (fun q => (update procs p proc q).lease) =
      update (fun q => (procs q).lease) p proc.lease := by
  funext q
  by_cases same : q = p
  · subst same
    rw [update_self, update_self]
  · rw [update_of_ne same, update_of_ne same]

/-- One record and the pool change. -/
theorem Isolated.update {next : Nommu} (isolated : Isolated s) (procs : next.procs = update s.procs p proc)
    (leases : Leases next.pool (update (fun q => (s.procs q).lease) p proc.lease))
    (ok : proc.state = .live -> ProcOk proc) : Isolated next := by
  refine ⟨?_, fun q live => ?_⟩
  · rw [procs, lease_update]
    exact leases
  · rw [procs] at live ⊢
    by_cases same : q = p
    · subst same
      rw [update_self] at live ⊢
      exact ok live
    · rw [update_of_ne same] at live ⊢
      exact isolated.procs q live

/-- One record changes outside of its lease. -/
theorem Isolated.setProc (isolated : Isolated s) (same : proc.lease = (s.procs p).lease)
    (ok : proc.state = .live -> ProcOk proc) :
    Isolated (s.setProc p proc) := by
  refine isolated.update rfl ?_ ok
  rw [Function.update_eq_self_iff.mpr same]
  exact isolated.leases

/-! ## Records -/

theorem isolated_claimed (isolated : Isolated s) (idle : (s.procs p).state ≠ .live) :
    Isolated (s.setProc p (s.procs p).claimed) := by
  refine isolated.setProc ?_ fun live => absurd live idle
  rw [lease_idle idle]
  exact lease_idle idle

/-- Fields of a record that its memory does not depend on. -/
theorem ProcOk.congr {other : Proc} (ok : ProcOk proc) (regions : other.regions = proc.regions)
    (lo : other.arenaLo = proc.arenaLo) (hi : other.arenaHi = proc.arenaHi) (heapEnd : other.heapEnd = proc.heapEnd)
    (limit : other.heapLimit = proc.heapLimit) (heapRegion : other.heapRegion = proc.heapRegion) : ProcOk other := by
  refine ⟨?_, ?_, ?_⟩
  · rw [regions, lo, hi]
    exact ok.regions
  · rw [limit, lo, hi, heapEnd]
    exact ok.heap
  · rw [limit, regions, heapRegion, heapEnd]
    exact ok.heapStart

theorem maybeFree_cases (proc : Proc) :
    proc.maybeFree = proc ∨ proc.state = .exited ∧ proc.maybeFree = { proc with state := .free } := by
  unfold Proc.maybeFree
  split
  · next gone => exact Or.inr ⟨gone.1, rfl⟩
  · exact Or.inl rfl

theorem isolated_release (isolated : Isolated s) (p : ProcId) : Isolated (s.release p) := by
  unfold Nommu.release Proc.release
  rcases maybeFree_cases { s.procs p with refs := (s.procs p).refs - 1 } with same | ⟨exited, same⟩
  · rw [same]
    exact isolated.setProc rfl fun live =>
      (isolated.procs p live).congr rfl rfl rfl rfl rfl rfl
  · rw [same]
    have idle : (s.procs p).state ≠ .live := by
      change (s.procs p).state = .exited at exited
      rw [exited]
      decide
    exact isolated.setProc (by rw [lease_idle idle]; rfl) fun live => ProcState.noConfusion live

theorem isolated_retain (isolated : Isolated s) (p : ProcId) : Isolated (s.retain p) :=
  isolated.setProc rfl fun live => (isolated.procs p live).congr rfl rfl rfl rfl rfl rfl

/-! ## Spawning -/

/-- The heap of a launch ends where its arena does, or before. -/
theorem heapBounds_spec (vm : Bool) (top : Word) (i : Nat) (limit : Word) (region : Nat)
    (regions : List Wax.Region) :
    (heapBounds vm top i limit region regions).1.toNat ≤ limit.toNat ∧
      ((heapBounds vm top i limit region regions).2 = region ∨
        ∃ (j : Nat) (r : Wax.Region), regions[j]? = some r ∧ r.stop = top ∧ r.flags = permR ||| permW ∧
          (heapBounds vm top i limit region regions).2 = i + j) := by
  induction regions generalizing i limit region with
  | nil => exact ⟨Nat.le_refl _, Or.inl rfl⟩
  | cons r rest ih =>
    unfold heapBounds
    obtain ⟨bound, place⟩ := ih (i + 1) (if r.start ≥ top ∧ r.start < limit then r.start else limit)
      (if !vm && i ≠ 0 && r.stop = top && r.flags = permR ||| permW then i else region)
    refine ⟨Nat.le_trans bound ?_, ?_⟩
    · split
      · next lower => exact Nat.le_of_lt lower.2
      · exact Nat.le_refl _
    · rcases place with same | ⟨j, found, here, stop, flags, same⟩
      · rw [same]
        split
        · next mine =>
            simp only [Bool.and_eq_true, decide_eq_true_iff] at mine
            exact Or.inr ⟨0, r, rfl, mine.1.2, mine.2, rfl⟩
        · exact Or.inl rfl
      · exact Or.inr ⟨j + 1, found, here, stop, flags, by rw [same]; omega⟩

/-- The heap starts at the top, rounded up. -/
theorem heapEnd_toNat {top : Word} (low : top.toNat ≤ 0xFFFFFFF0) :
    top.toNat ≤ ((top + 7) &&& ~~~7).toNat := by
  have whole := Word.and_not_add_and (top + 7) 7
  have masked : ((top + 7) &&& 7).toNat ≤ 7 := by
    rw [BitVec.toNat_and]
    exact Nat.and_le_right
  have sum : (top + 7).toNat = top.toNat + 7 := by bv_omega
  omega

theorem procOk_startImage (s : Nommu) (p : ProcId) (request : SpawnRequest) {plan : ArenaPlan} (aligned : Bool)
    (inside : LaunchInside plan.launch plan.lo plan.hi) (low : plan.hi.toNat ≤ 0xFFFFFFF0) :
    ProcOk ((s.startImage p request plan aligned).procs p) := by
  have filled : (s.startImage p request plan aligned).procs p =
      (planHeap false plan.launch request.grants { s.procs p with
        arenaLo := plan.lo, arenaHi := plan.hi, regions := procRegions plan.launch request.grants,
        parent := request.parent, caps := request.caps }).started s.nextPid request.priority :=
    update_self ..
  have start := heapEnd_toNat (Nat.le_trans inside.below low)
  obtain ⟨limit, place⟩ := heapBounds_spec false plan.launch.top 0 plan.hi fndProcRegions plan.launch.regions
  rw [filled]
  refine ⟨?_, fun _ => ⟨Nat.le_trans inside.above start, limit⟩, ?_⟩
  · intro r member owned
    rcases List.mem_append.mp member with image | grant
    · obtain ⟨old, listed, rfl⟩ := List.mem_map.mp image
      exact inside.regions old listed
    · obtain ⟨g, _, rfl⟩ := List.mem_map.mp grant
      cases owned
  · intro _ chosen r found
    rcases place with none_ | ⟨j, old, here, stop, _, same⟩
    · exact absurd none_ chosen
    · change (procRegions plan.launch request.grants)[(heapBounds false plan.launch.top 0 plan.hi fndProcRegions
        plan.launch.regions).2]? = some r at found
      rw [same, Nat.zero_add, procRegions, List.getElem?_append_left, List.getElem?_map, here] at found
      · cases found
        obtain ⟨ordered, _⟩ := inside.regions old (List.mem_of_getElem? here)
        rw [stop] at ordered
        exact Nat.le_trans ordered start
      · rw [List.length_map]
        exact (List.getElem?_eq_some_iff.mp here).1

theorem pool_below {pool : Pool} (wide : pool.frames ≤ maxFrames) {lo hi : Word} (arena : Arena pool.frames lo hi) :
    hi.toNat ≤ 0x10400000 := by
  have bound := arena.inside
  rw [poolBase_toNat] at bound
  unfold maxFrames at wide
  omega

/-- The pool changes under the same processes. -/
theorem Isolated.pool (isolated : Isolated s) {pool : Pool} (leases : Leases pool fun p => (s.procs p).lease) :
    Isolated { s with pool := pool } :=
  ⟨leases, isolated.procs⟩

/-- A new tenant that does not stay. -/
theorem Leases.undo {pool : Pool} {lease : ProcId -> Option (Word × Word)} {lo hi : Word}
    (leases : Leases pool (update lease p (some (lo, hi)))) (idle : lease p = none) :
    Leases (pool.arenaFree lo hi) lease := by
  have returned := leases.release (update_self ..)
  rwa [Function.update_idem, Function.update_eq_self_iff.mpr idle.symm] at returned

theorem isolated_spawnInto (isolated : Isolated s) (idle : (s.procs p).state ≠ .live) {request : SpawnRequest}
    (sound : SoundImage request.image request.libs) (threadFree aligned : Bool) :
    Isolated (s.spawnInto p request threadFree aligned).2 := by
  have claimed := isolated_claimed isolated idle
  unfold Nommu.spawnInto
  have vacant : ((s.setProc p (s.procs p).claimed).procs p).lease = none := by
    have same : (s.setProc p (s.procs p).claimed).procs p = (s.procs p).claimed := update_self ..
    rw [same]
    exact lease_idle idle
  have planned := planArena_planned claimed.leases vacant sound
  dsimp only
  generalize s.setProc p (s.procs p).claimed = start at claimed vacant planned ⊢
  generalize planArena start.pool request.image request.libs = result at planned ⊢
  obtain ⟨outcome, pool⟩ := result
  cases outcome with
  | error error => exact claimed.pool planned
  | ok plan =>
    obtain ⟨leases, inside⟩ := planned
    have undone : Isolated { start with pool := pool.arenaFree plan.lo plan.hi } :=
      claimed.pool (leases.undo vacant)
    dsimp only
    split
    · exact undone
    · split
      · exact undone
      · have arena := leases.arena p plan.lo plan.hi (update_self ..)
        refine claimed.update rfl leases fun _ => ?_
        have ok := procOk_startImage { start with pool := pool } p request aligned inside
          (Nat.le_trans (pool_below leases.wide arena) (by decide))
        rwa [show ((Nommu.startImage { start with pool := pool } p request plan aligned).procs p) = _ from
          update_self ..] at ok

theorem isolated_spawnImage (isolated : Isolated s) {request : SpawnRequest}
    (sound : SoundImage request.image request.libs) (threadFree aligned : Bool) :
    Isolated (s.spawnImage request threadFree aligned).2 := by
  unfold Nommu.spawnImage
  split
  · exact isolated
  · split
    · exact isolated
    · split
      · exact isolated
      · next p found => exact isolated_spawnInto isolated (claimable_idle found) sound threadFree aligned

/-! ## Code linked into the kernel -/

/-- The slots lie one behind the other in the low RAM. -/
theorem slotBounds_ordered : ∀ slot < fndSlots, slotBounds.getD slot 0 ≤ slotBounds.getD (slot + 1) 0 ∧
    slotBounds.getD (slot + 1) 0 ≤ 0x01000000 := by decide

/-- The data of a builtin process is at the top of its slot. -/
theorem builtin_data {request : BuiltinRequest} (checked : checkBuiltin request = .ok ()) :
    request.ram.toNat ≤ request.stop.toNat ∧ request.stop.toNat ≤ 0x01000000 := by
  unfold checkBuiltin at checked
  split_ifs at checked with slot size code overlap
  obtain ⟨ordered, low⟩ := slotBounds_ordered request.slot (by omega)
  change request.base ≤ request.stop at ordered
  change request.stop ≤ 0x01000000 at low
  rw [not_or, not_or] at size
  have fits := size.2.2
  refine ⟨?_, low⟩
  unfold BuiltinRequest.ram
  bv_omega

theorem isolated_createBuiltin (isolated : Isolated s) (request : BuiltinRequest) (threadFree : Bool) :
    Isolated (s.createBuiltin request threadFree).2 := by
  unfold Nommu.createBuiltin
  split
  · exact isolated
  · next checked =>
    split
    · exact isolated
    · next p found =>
        have idle := claimable_idle found
        have claimed := isolated_claimed isolated idle
        have vacant : ((s.setProc p (s.procs p).claimed).procs p).lease = none := by
          have same : (s.setProc p (s.procs p).claimed).procs p = (s.procs p).claimed := update_self ..
          rw [same]
          exact lease_idle idle
        dsimp only
        generalize s.setProc p (s.procs p).claimed = start at claimed vacant ⊢
        split
        · exact claimed
        · split
          · exact claimed
          · next pool done =>
              obtain ⟨free, rfl⟩ := arenaClaim_ok done
              obtain ⟨arena, empty⟩ := rangeFree_spec free
              refine claimed.update rfl (claimed.leases.take arena empty vacant) fun _ => ⟨?_, ?_, ?_⟩
              · intro r member owned
                have data : r = ⟨request.ram, request.stop, permR ||| permW, true, false⟩ := by
                  rcases List.mem_cons.mp member with same | code
                  · exact same
                  · rw [List.mem_singleton.mp code] at owned
                    cases owned
                obtain ⟨ordered, low⟩ := builtin_data checked
                rw [data]
                have near := Page.up_toNat (show request.stop.toNat ≤ 0xFFFFF000 by omega)
                exact ⟨ordered, Page.down_le request.ram, near.1⟩
              · exact fun limit => absurd rfl limit
              · exact fun limit => absurd rfl limit

/-! ## Growing -/

/-- After making room the heap may grow by `delta` within the arena. -/
structure Roomy (lease : ProcId -> Option (Word × Word)) (p : ProcId) (old : Proc) (delta : Word)
    (pool : Pool) (proc : Proc) : Prop where
  leases : Leases pool (update lease p (some (proc.arenaLo, proc.arenaHi)))
  ok : ProcOk proc
  live : proc.state = .live
  limit : proc.heapLimit ≠ 0
  same : proc.heapEnd = old.heapEnd
  room : proc.heapEnd.toNat + delta.toNat ≤ proc.heapLimit.toNat

theorem growRoom_spec {pool next : Pool} {lease : ProcId -> Option (Word × Word)} {roomy : Proc} {delta : Word}
    (leases : Leases pool lease) (leased : lease p = some (proc.arenaLo, proc.arenaHi)) (ok : ProcOk proc)
    (live : proc.state = .live) (limit : proc.heapLimit ≠ 0) (below : ¬ proc.heapEnd > proc.heapLimit)
    (small : ¬ delta.msb = true) (done : Nommu.growRoom pool proc delta = some (next, roomy)) :
    Roomy lease p proc delta next roomy := by
  have half : delta.toNat < 2 ^ 31 := by
    rw [Bool.not_eq_true, BitVec.msb_eq_false_iff_two_mul_lt] at small
    omega
  obtain ⟨start, ends⟩ := ok.heap limit
  have arena := leases.arena p _ _ leased
  have bound := pool_below leases.wide arena
  unfold Nommu.growRoom at done
  dsimp only at done
  split_ifs at done with needs refused
  · cases extended : pool.arenaExtend proc.arenaHi (Page.up (proc.heapEnd + delta)) with
    | none =>
      rw [extended] at done
      cases done
    | some grown =>
      rw [extended] at done
      cases done
      rw [not_or, not_not] at refused
      obtain ⟨free, rfl⟩ := arenaExtend_some extended
      obtain ⟨added, vacant⟩ := rangeFree_spec free
      have sum : (proc.heapEnd + delta).toNat = proc.heapEnd.toNat + delta.toNat := by
        have atEnd := refused.1
        bv_omega
      have lower : proc.heapEnd.toNat ≤ proc.heapLimit.toNat := Nat.le_of_not_lt below
      have near := Page.up_toNat (show (proc.heapEnd + delta).toNat ≤ 0xFFFFF000 by omega)
      have raised := added.nonempty
      generalize Page.up (proc.heapEnd + delta) = want at *
      refine ⟨leases.extend leased added vacant, ⟨?_, ?_, ?_⟩, live, ?_, rfl, ?_⟩
      · intro r member owned
        obtain ⟨ordered, inside⟩ := ok.regions r member owned
        exact ⟨ordered, inside.1, Nat.le_trans inside.2 (Nat.le_of_lt raised)⟩
      · exact fun _ => ⟨start, Nat.le_refl _⟩
      · exact fun _ chosen => ok.heapStart limit chosen
      · intro zero
        have none_ : want.toNat = 0 := congrArg BitVec.toNat zero
        omega
      · change proc.heapEnd.toNat + delta.toNat ≤ want.toNat
        omega
  · cases done
    refine ⟨?_, ok, live, limit, rfl, ?_⟩
    · rw [Function.update_eq_self_iff.mpr leased.symm]
      exact leases
    · bv_omega

/-- The heap region exists and starts below the end of the heap. -/
theorem heapRegionOf_spec {next : Proc} (ok : ProcOk proc) (limit : proc.heapLimit ≠ 0)
    (room : proc.heapEnd.toNat ≤ proc.heapLimit.toNat) (done : Nommu.heapRegionOf proc = some next) :
    ProcOk next ∧ next.arenaLo = proc.arenaLo ∧ next.arenaHi = proc.arenaHi ∧ next.heapEnd = proc.heapEnd ∧
      next.heapLimit = proc.heapLimit ∧ next.state = proc.state ∧
      ∀ r, next.regions[next.heapRegion]? = some r -> r.start.toNat ≤ next.heapEnd.toNat := by
  obtain ⟨start, ends⟩ := ok.heap limit
  unfold Nommu.heapRegionOf at done
  split_ifs at done with missing full
  · cases done
    have last : ∀ r, (proc.regions ++
        [(⟨proc.heapEnd, proc.heapEnd, permR ||| permW, true, false⟩ : ProcRegion)])[proc.regions.length]? = some r ->
        r.start.toNat ≤ proc.heapEnd.toNat := by
      intro r found
      rw [List.getElem?_append_right (Nat.le_refl _), Nat.sub_self] at found
      cases found
      exact Nat.le_refl _
    refine ⟨⟨?_, fun _ => ⟨start, ends⟩, fun _ _ => last⟩, rfl, rfl, rfl, rfl, rfl, last⟩
    intro r member owned
    rcases List.mem_append.mp member with old | new
    · exact ok.regions r old owned
    · rw [List.mem_singleton.mp new]
      exact ⟨Nat.le_refl _, start, Nat.le_trans room ends⟩
  · cases done
    exact ⟨ok, rfl, rfl, rfl, rfl, rfl, ok.heapStart limit missing⟩

/-- The heap region grows within the arena. -/
theorem heapGrown_ok (ok : ProcOk proc) (limit : proc.heapLimit ≠ 0) {delta : Word}
    (room : proc.heapEnd.toNat + delta.toNat ≤ proc.heapLimit.toNat)
    (region : ∀ r, proc.regions[proc.heapRegion]? = some r -> r.start.toNat ≤ proc.heapEnd.toNat) :
    ProcOk (Nommu.heapGrown proc (proc.heapEnd + delta)) := by
  obtain ⟨start, ends⟩ := ok.heap limit
  have sum : (proc.heapEnd + delta).toNat = proc.heapEnd.toNat + delta.toNat := by bv_omega
  have grown : ∀ (i : Nat) r, (proc.regions.modify proc.heapRegion
      fun r => { r with stop := proc.heapEnd + delta })[i]? = some r ->
      proc.regions[i]? = some r ∨ i = proc.heapRegion ∧ ∃ old, proc.regions[i]? = some old ∧
        r = { old with stop := proc.heapEnd + delta } := by
    intro i r found
    rw [List.getElem?_modify] at found
    by_cases here : proc.heapRegion = i
    · subst here
      cases listed : proc.regions[proc.heapRegion]? with
      | none =>
        rw [listed] at found
        cases found
      | some old =>
        rw [listed] at found
        simp only [if_true, Option.map_eq_map, Option.map_some, Option.some.injEq] at found
        exact Or.inr ⟨rfl, old, rfl, found.symm⟩
    · simp only [here, if_false, Option.map_eq_map, Option.map_id'] at found
      exact Or.inl found
  refine ⟨?_, fun _ => ⟨?_, ends⟩, ?_⟩
  · intro r member owned
    obtain ⟨i, found⟩ := List.getElem?_of_mem member
    rcases grown i r found with old | ⟨rfl, old, listed, rfl⟩
    · exact ok.regions r (List.mem_of_getElem? old) owned
    · have below := region old listed
      obtain ⟨_, inside⟩ := ok.regions old (List.mem_of_getElem? listed) owned
      refine ⟨?_, inside.1, ?_⟩
      · change old.start.toNat ≤ (proc.heapEnd + delta).toNat
        omega
      · change (proc.heapEnd + delta).toNat ≤ proc.arenaHi.toNat
        omega
  · change proc.arenaLo.toNat ≤ (proc.heapEnd + delta).toNat
    omega
  · intro _ _ r found
    change r.start.toNat ≤ (proc.heapEnd + delta).toNat
    rcases grown proc.heapRegion r found with old | ⟨_, old, listed, rfl⟩
    · have below := region r old
      omega
    · have below := region old listed
      change old.start.toNat ≤ _
      omega

theorem isolated_memGrow (isolated : Isolated s) (live : (s.procs p).state = .live) (delta : Word) :
    Isolated (s.memGrow p delta).2 := by
  unfold Nommu.memGrow
  dsimp only
  split
  · exact isolated
  · next aligned =>
      rw [not_or] at aligned
      split
      · exact isolated
      · split
        · exact isolated
        · next usable =>
            rw [not_or] at usable
            cases made : Nommu.growRoom s.pool (s.procs p) delta with
            | none => exact isolated
            | some pair =>
              obtain ⟨pool, roomy⟩ := pair
              have spec := growRoom_spec isolated.leases (lease_live live) (isolated.procs p live) live
                usable.1 usable.2 aligned.2 made
              dsimp only
              have widened : Isolated { s.setProc p roomy with pool := pool } := by
                refine isolated.update rfl ?_ fun _ => spec.ok
                rw [lease_live spec.live]
                exact spec.leases
              cases region : Nommu.heapRegionOf roomy with
              | none => exact widened
              | some proc =>
                have room := spec.room
                obtain ⟨ok, lo, hi, same, limit, state, below⟩ :=
                  heapRegionOf_spec spec.ok spec.limit (by omega) region
                refine widened.update rfl ?_ fun _ => heapGrown_ok ok ?_ ?_ below
                · have held : (Nommu.heapGrown proc (proc.heapEnd + delta)).lease =
                      some (roomy.arenaLo, roomy.arenaHi) := by
                    have alive : (Nommu.heapGrown proc (proc.heapEnd + delta)).state = .live :=
                      state.trans spec.live
                    rw [lease_live alive]
                    exact congrArg some (Prod.ext lo hi)
                  rw [held]
                  have mine : (({ s.setProc p roomy with pool := pool } : Nommu).procs p).lease =
                      some (roomy.arenaLo, roomy.arenaHi) := by
                    change (update s.procs p roomy p).lease = _
                    rw [update_self, lease_live spec.live]
                  rw [Function.update_eq_self_iff.mpr mine.symm]
                  exact widened.leases
                · rw [limit]
                  exact spec.limit
                · rw [same, limit]
                  exact room

/-! ## Ending -/

theorem isolated_exit (isolated : Isolated s) (p : ProcId) (code : Word) :
    Isolated (s.exit p code) := by
  unfold Nommu.exit
  dsimp only
  split
  · exact isolated
  · next alive =>
      rw [not_not] at alive
      have idle : ∀ proc : Proc, proc.state = .exited -> proc.maybeFree.lease = none ∧ proc.maybeFree.state ≠ .live := by
        intro proc exited
        rcases maybeFree_cases proc with same | ⟨_, same⟩
        · rw [same]
          have gone : proc.state ≠ .live := by
            rw [exited]
            decide
          exact ⟨lease_idle gone, gone⟩
        · rw [same]
          exact ⟨lease_idle ProcState.noConfusion, ProcState.noConfusion⟩
      obtain ⟨none_, gone⟩ := idle { s.procs p with
        threads := 0, exitCode := code, state := .exited, arenaLo := 0, arenaHi := 0 } rfl
      refine isolated.update rfl ?_ fun live => absurd live gone
      rw [none_]
      exact isolated.leases.release (lease_live alive)

/-! ## The machine -/

/-- What happens to processes. -/
inductive MemoryAction where
  | spawn (request : SpawnRequest) (threadFree aligned : Bool)
  | builtin (request : BuiltinRequest) (threadFree : Bool)
  | memGrow (p : ProcId) (delta : Word)
  | exit (p : ProcId) (code : Word)
  | retain (p : ProcId)
  | release (p : ProcId)

namespace Nommu

/-- One system call or kernel start.  Only a live process grows its heap. -/
inductive Step (s : Nommu) : MemoryAction -> Nommu -> Prop where
  | spawn (request : SpawnRequest) (threadFree aligned : Bool) :
      Step s (.spawn request threadFree aligned) (s.spawnImage request threadFree aligned).2
  | builtin (request : BuiltinRequest) (threadFree : Bool) :
      Step s (.builtin request threadFree) (s.createBuiltin request threadFree).2
  | memGrow {p : ProcId} (live : (s.procs p).state = .live) (delta : Word) :
      Step s (.memGrow p delta) (s.memGrow p delta).2
  | exit (p : ProcId) (code : Word) : Step s (.exit p code) (s.exit p code)
  | retain (p : ProcId) : Step s (.retain p) (s.retain p)
  | release (p : ProcId) : Step s (.release p) (s.release p)

/-- The backend after `mm_init`, for what the bus controller reports. -/
def boot (reported : Word) (mem : Wax.Memory) : Nommu where
  pool := poolInit (mmRamBytes reported) 0
  procs := fun _ => Proc.zero
  mem := mem
  nextPid := 1

def machine : System Nommu MemoryAction where
  initial := fun s => ∃ reported mem, s = boot reported mem
  step := Step

end Nommu

/-- Every image that is spawned keeps to the room it is given. -/
def SpawnsSound (_ : Nommu) : MemoryAction -> Prop
  | .spawn request _ _ => SoundImage request.image request.libs
  | _ => True

theorem isolated_boot (reported : Word) (mem : Wax.Memory) : Isolated (Nommu.boot reported mem) := by
  refine ⟨⟨Nat.min_le_right _ _, ?_, ?_, ?_⟩, fun p live => ProcState.noConfusion live⟩
  · intro p lo hi leased
    cases leased
  · intro p lo hi leased
    cases leased
  · intro p q lo hi low high _ leased
    cases leased

theorem step_isolated {next : Nommu} {action : MemoryAction} (isolated : Isolated s) (sound : SpawnsSound s action)
    (moves : Nommu.Step s action next) : Isolated next := by
  cases moves with
  | spawn request threadFree aligned => exact isolated_spawnImage isolated sound threadFree aligned
  | builtin request threadFree => exact isolated_createBuiltin isolated request threadFree
  | memGrow live delta => exact isolated_memGrow isolated live delta
  | exit p code => exact isolated_exit isolated p code
  | retain p => exact isolated_retain isolated p
  | release p => exact isolated_release isolated p

/-- The arena of a process. -/
def Proc.arena (proc : Proc) : Interval := addrRange proc.arenaLo proc.arenaHi

/-- Processes keep apart: the arenas of the live ones are disjoint, every page
of them is marked taken in the pool, and the owned regions of a process lie in
its own arena. -/
structure Separate (s : Nommu) : Prop where
  apart : ∀ p q, p ≠ q -> (s.procs p).state = .live -> (s.procs q).state = .live ->
    (s.procs p).arena.Apart (s.procs q).arena
  taken : ∀ p, (s.procs p).state = .live -> ∀ a : Word, (s.procs p).arena.Contains a.toNat ->
    poolBase ≤ a ∧ firstPage a < s.pool.frames ∧ s.pool.frameTaken (firstPage a) = true
  regions : ∀ p, (s.procs p).state = .live -> ∀ r ∈ (s.procs p).regions, r.owned = true ->
    r.start ≤ r.stop ∧ (addrRange r.start r.stop).Within (s.procs p).arena

theorem Isolated.separate (isolated : Isolated s) : Separate s := by
  refine ⟨?_, ?_, fun p live r member owned => (isolated.procs p live).regions r member owned⟩
  · intro p q different first second
    exact isolated.leases.apart p q _ _ _ _ different (lease_live first) (lease_live second)
  · intro p live a inside
    have arena := isolated.leases.arena p _ _ (lease_live live)
    have held := isolated.leases.held p _ _ (lease_live live)
    obtain ⟨above, below⟩ := inside
    change (s.procs p).arenaLo.toNat ≤ a.toNat at above
    change a.toNat < (s.procs p).arenaHi.toNat at below
    have bottom := arena.above
    have top := arena.inside
    have aligned := And.intro arena.lowAligned arena.highAligned
    have page := firstPage_eq (Nat.le_trans bottom above)
    have first := firstPage_eq bottom
    have last := firstPage_eq (Nat.le_trans bottom (Nat.le_of_lt arena.nonempty))
    rw [poolBase_toNat] at bottom top
    refine ⟨Nat.le_trans bottom above, by omega, ?_⟩
    unfold Pool.frameTaken
    exact decide_eq_true (held (firstPage a) (by omega) (by omega))

/-- In every run that spawns only sound images, processes keep apart. -/
theorem separate_of_reachable {s : Nommu} (reached : (Nommu.machine.within SpawnsSound).Reachable s) :
    Separate s := by
  refine Isolated.separate (reached.invariant ?_ ?_)
  · rintro start ⟨reported, mem, rfl⟩
    exact isolated_boot reported mem
  · intro first action second isolated moves
    exact step_isolated isolated moves.1 moves.2

/-! ## Relocatable executables of any heap hint -/

/-- A relocatable executable of a block of code and a block of 0x20000 bytes of
data with one relocation, that asks for a heap of `hint` bytes. -/
def relocatableWords (hint : Word) : List Word :=
  [0x57415800, 0x00030001, 0x00010006, 160, 236, 1, 0x400000, 0, 0x400000, 0x1000, 160, 2, 24, 0, 0, 16, 0, 0,
    24, 0, 0, 24, 212, 16, 1, 1, 0, 5, 1, 0, 0, 0, 208, 1, hint, 0, 0, 0, 0, 0, 0x400000, 228, 4, 4, 5, 4,
    0x401000, 232, 4, 0x20000, 3, 4, 0x401000, 0x00617070, 0x00666F75, 0x6E646174, 0x696F6E00, 0, 0x400000]

def relocatableFile (hint : Word) : Wax.File :=
  ⟨Wax.bytesOf (relocatableWords hint), by
    rw [Wax.bytesOf_length]
    exact (by decide : 4 * 59 < 2 ^ 32)⟩

/-- Spawns the executable with nothing else. -/
def relocatableRequest (hint : Word) : SpawnRequest := ⟨1, 0, 0, relocatableFile hint, [], [], 0⟩

def relocatableAction (hint : Word) : MemoryAction := .spawn (relocatableRequest hint) true true

/-- The kernel after it spawned the executable once. -/
def spawnedOnce (hint : Word) : Nommu :=
  ((Nommu.boot 0 fun _ => 0).spawnImage (relocatableRequest hint) true true).2

def spawnedTwice (hint : Word) : Nommu := ((spawnedOnce hint).spawnImage (relocatableRequest hint) true true).2

/-- The room of a relocatable image, computed. -/
def roomFits (data : Wax.File) (libs : List Wax.File) : Bool :=
  match waxInspect data with
  | .error _ => true
  | .ok info =>
    match waxPlan data libs (probeTarget info) with
    | .error _ => true
    | .ok launch => (heapReserve info).toNat + (launch.top - (probeTarget info).windowStart).toNat < 2 ^ 32

theorem soundImage_of_roomFits {data : Wax.File} {libs : List Wax.File} (version : data.rd16 4 = 3)
    (fits : roomFits data libs = true) : SoundImage data libs := by
  refine ⟨fun _ _ _ _ two => absurd (two.symm.trans version) (by decide), ?_⟩
  intro info launch inspected _ planned
  unfold roomFits at fits
  rw [inspected] at fits
  dsimp only at fits
  rw [planned] at fits
  exact of_decide_eq_true fits

theorem relocatableFile_sound : SoundImage (relocatableFile 0x8000) [] :=
  soundImage_of_roomFits (by decide +kernel) (by decide +kernel)

/-- Two live processes of a sound image. -/
theorem separate_spawnedTwice :
    ((spawnedTwice 0x8000).procs 0).state = .live ∧ ((spawnedTwice 0x8000).procs 1).state = .live ∧
      Separate (spawnedTwice 0x8000) := by
  have start : (Nommu.machine.within SpawnsSound).Reachable (Nommu.boot 0 fun _ => 0) := .start ⟨0, _, rfl⟩
  have first : Nommu.Step (Nommu.boot 0 fun _ => 0) (relocatableAction 0x8000) (spawnedOnce 0x8000) :=
    .spawn (relocatableRequest 0x8000) true true
  have second : Nommu.Step (spawnedOnce 0x8000) (relocatableAction 0x8000) (spawnedTwice 0x8000) :=
    .spawn (relocatableRequest 0x8000) true true
  have once := start.next (show (Nommu.machine.within SpawnsSound).step _ (relocatableAction 0x8000) _ from
    ⟨relocatableFile_sound, first⟩)
  have twice := once.next (show (Nommu.machine.within SpawnsSound).step _ (relocatableAction 0x8000) _ from
    ⟨relocatableFile_sound, second⟩)
  have live : ((spawnedTwice 0x8000).procs 0).state = .live ∧ ((spawnedTwice 0x8000).procs 1).state = .live := by
    decide +kernel
  exact ⟨live.1, live.2, separate_of_reachable twice⟩

/-- A heap hint of 0xFFFF0000 wraps the length of the arena, so that the data of
the process ends behind its arena. -/
theorem heap_hint_wraps_arena :
    Nommu.machine.Reachable (spawnedOnce 0xFFFF0000) ∧ ¬ Separate (spawnedOnce 0xFFFF0000) := by
  have start : Nommu.machine.Reachable (Nommu.boot 0 fun _ => 0) := .start ⟨0, _, rfl⟩
  have moved : Nommu.Step (Nommu.boot 0 fun _ => 0) (relocatableAction 0xFFFF0000) (spawnedOnce 0xFFFF0000) :=
    .spawn (relocatableRequest 0xFFFF0000) true true
  refine ⟨start.next moved, ?_⟩
  intro separate
  obtain ⟨live, listed, stop⟩ : ((spawnedOnce 0xFFFF0000).procs 0).state = .live ∧
      ⟨0x402000, 0x422000, permR ||| permW, true, false⟩ ∈ ((spawnedOnce 0xFFFF0000).procs 0).regions ∧
      ((spawnedOnce 0xFFFF0000).procs 0).arenaHi = 0x412000 := by
    decide +kernel
  have inside := (separate.regions 0 live _ listed rfl).2.2
  unfold Proc.arena at inside
  rw [stop] at inside
  exact absurd inside (by decide)

end Src32.Kernel
