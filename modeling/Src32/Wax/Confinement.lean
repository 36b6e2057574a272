import Src32.Wax.Executable
import Src32.Wax.Placement

namespace Src32.Wax

open Interval
open Fallible

/-!
# Loader confinement

Every block of an accepted plan and the stack should lie in the target window,
below the CPU-reserved area and clear of one another, and the loader should
write nothing else.  This holds exactly when the executable starts its blocks
below the reserved area: the check of a version 2 block and the check of
`load_base` subtract an address from the start of that area and wrap when the
address lies above it.
-/

/-! ## The launch -/

variable {target : Target} {launch : Launch} {libs : List File} {data : File} {exe : Image} {delta : Word}

/-- The stages of a successful plan. -/
theorem waxPlan_ok (planned : waxPlan data libs target = .ok launch) :
    ∃ exe origin delta r, parse data = .ok exe ∧ exe.type = typeWax ∧
      loadOrigin exe target = some (origin, delta) ∧
      resolve libs target waxMaxImages 0 ⟨[{ exe with origin := origin }], fun _ => 0, []⟩ = .ok r ∧
      place target delta { exe with origin := origin } r.images r.order = .ok launch.images ∧
      launch.stackTop = exe.stackTop + delta ∧ launch.stackSize = exe.stackSize ∧ launch.delta = delta ∧
      launch.heapHint = exe.heapHint ∧ ∃ planning, launch.regions = planning.regions.reverse ∧
        launch.top = planning.top ∧
        planRegions { exe with origin := origin } delta launch.images = .ok planning := by
  unfold waxPlan at planned
  cases parsed : parse data with
  | error failure =>
    rw [parsed] at planned
    cases planned
  | ok exe =>
    rw [parsed] at planned
    dsimp only at planned
    split_ifs at planned with kind abi
    cases chosen : loadOrigin exe target with
    | none =>
      rw [chosen] at planned
      cases planned
    | some pair =>
      obtain ⟨origin, delta⟩ := pair
      rw [chosen] at planned
      dsimp only [planFrom] at planned
      obtain ⟨r, resolved, planned⟩ := bind_ok planned
      obtain ⟨_, _, planned⟩ := bind_ok planned
      obtain ⟨images, placed, planned⟩ := bind_ok planned
      obtain ⟨planning, regions, planned⟩ := bind_ok planned
      cases planned
      exact ⟨exe, origin, delta, r, rfl, not_not.mp kind, chosen, resolved, placed, rfl, rfl, rfl, rfl,
        planning, rfl, rfl, regions⟩

/-- The window of a target. -/
def Target.window (target : Target) : Interval := ⟨target.windowStart.toNat, target.windowEnd.toNat⟩

/-- A launch with its executable, its stack and its libraries in the window and
clear of one another. -/
structure LaunchPlaced (target : Target) (launch : Launch) (exe : Image) : Prop where
  first : launch.images[0]? = some exe
  placed : ExePlaced exe launch.delta
  hullInside : (hull exe).Within target.window
  stackSame : stackRange launch = exeStack exe launch.delta
  stackInside : (exeStack exe launch.delta).Within target.window
  library : ∀ (j : Nat) im, j ≠ 0 -> launch.images[j]? = some im ->
    IsLibrary im ∧ (hull im).Within target.window ∧ (hull im).Apart (hull exe) ∧
      (hull im).Apart (exeStack exe launch.delta)
  apart : ∀ (i j : Nat) im other, i ≠ 0 -> j ≠ 0 -> i ≠ j -> launch.images[i]? = some im ->
    launch.images[j]? = some other -> (hull im).Apart (hull other)

/-- The executable passes through resolution and placement with its choices
only. -/
theorem ExePlaced.chosen {next : Image} (placed : ExePlaced exe delta) (same : Chosen exe next) :
    ExePlaced next delta := by
  obtain ⟨depImage, rfl⟩ := same
  exact ⟨⟨placed.laid.nonempty, placed.laid.ascending, placed.laid.fits, placed.laid.sized⟩, placed.room,
    placed.moved, placed.stack, placed.clear, placed.clearHull, placed.slots, placed.relocs⟩

theorem exePlaced_of_startsBelow {origin : Word} (below : StartsBelow data target) (parsed : parse data = .ok exe)
    (kind : exe.type = typeWax) (chosen : loadOrigin exe target = some (origin, delta)) :
    ExePlaced { exe with origin := origin } delta := by
  rcases parse_accepted parsed with ⟨version, ⟨span, same⟩, accepted⟩ | ⟨version, ⟨span, align, same⟩, accepted⟩
  · have starts : ∀ b ∈ exe.blocks, b.address ≤ cpuReserved := by
      rw [same]
      exact below.fixed version
    rcases loadOrigin_cases chosen with ⟨_, rfl, rfl⟩ | ⟨relocatable, _⟩
    · exact accepted.exePlaced starts
    · rw [accepted.relocatable] at relocatable
      cases relocatable
  · refine accepted.exePlaced kind (fun relocatable => below.moved version ?_) chosen
    rw [same] at relocatable
    exact of_decide_eq_true relocatable

/-- The ranges `place` starts from are the reservation and the stack. -/
theorem spanRange_exeTaken (placed : ExePlaced exe delta) :
    (exeTaken exe delta).map spanRange = [hull exe, exeStack exe delta] := by
  have stop := placed.stack
  have room := placed.room
  have low : exe.stackTop - exe.stackSize + delta = exe.stackTop + delta - exe.stackSize := by grind
  have high : (exe.origin + exe.span).toNat = exe.origin.toNat + exe.span.toNat := by bv_omega
  unfold exeStack at stop
  dsimp only at stop
  simp only [exeTaken, List.map_cons, List.map_nil, spanRange, hull, exeStack, low, high, stop]

theorem launchPlaced_of_waxPlan (below : StartsBelow data target) (planned : waxPlan data libs target = .ok launch) :
    ∃ exe, LaunchPlaced target launch exe := by
  obtain ⟨exe, origin, delta, r, parsed, kind, chosen, resolved, placing, stackTop, stackSize, rfl, _⟩ :=
    waxPlan_ok planned
  have exePlaced := exePlaced_of_startsBelow below parsed kind chosen
  have stackFields : launch.stackTop = { exe with origin := origin }.stackTop + launch.delta ∧
      launch.stackSize = { exe with origin := origin }.stackSize := ⟨stackTop, stackSize⟩
  generalize ({ exe with origin := origin } : Image) = first at *
  obtain ⟨grown, _⟩ := resolve_extends waxMaxImages resolved
  obtain ⟨window, seen, p, ordered, same, placed⟩ := place_ok placing
  obtain ⟨second, found, choice⟩ := grown.same 0 first rfl
  have exeHere : launch.images[0]? = some second := by
    rw [same, placed.first, found]
  have ranges := spanRange_exeTaken exePlaced
  have taken : ∀ i ∈ [hull first, exeStack first launch.delta], i.Within target.window ∧
      ∃ t ∈ exeTaken first launch.delta, spanRange t = i := by
    intro i member
    rw [← ranges] at member
    obtain ⟨t, inside, rfl⟩ := List.mem_map.mp member
    have bounds := window t inside
    refine ⟨⟨?_, ?_⟩, t, inside, rfl⟩ <;> dsimp only [spanRange, Target.window] <;> bv_omega
  have hullTaken := taken (hull first) List.mem_cons_self
  have stackTaken := taken (exeStack first launch.delta) (List.mem_cons_of_mem _ List.mem_cons_self)
  have sameRanges : hull second = hull first ∧ exeStack second launch.delta = exeStack first launch.delta := by
    obtain ⟨depImage, rfl⟩ := choice
    exact ⟨rfl, rfl⟩
  -- a library is fresh in the resolver, hence ordered, hence settled
  have settled : ∀ (j : Nat) im, j ≠ 0 -> launch.images[j]? = some im ->
      j ∈ seen ∧ IsLibrary im ∧ Settled target (exeTaken first launch.delta) p.taken im := by
    intro j im positive here
    rw [same] at here
    have bound : j < r.images.length := by
      rw [← placed.length]
      exact (List.getElem?_eq_some_iff.mp here).1
    obtain ⟨now, kept, dressed⟩ := placed.dressed j _ (List.getElem?_eq_getElem bound)
    cases here.symm.trans kept
    have library := grown.fresh j _ (Nat.pos_of_ne_zero positive) (List.getElem?_eq_getElem bound)
    have member := ordered j (grown.placed j (Nat.pos_of_ne_zero positive) bound)
    exact ⟨member, library.dressed dressed, placed.settled j member positive im here⟩
  refine ⟨second, exeHere, exePlaced.chosen choice, ?_, ?_, ?_, ?_, ?_⟩
  · exact sameRanges.1 ▸ hullTaken.1
  · rw [sameRanges.2, stackRange, stackFields.1, stackFields.2]
    rfl
  · exact sameRanges.2 ▸ stackTaken.1
  · intro j im positive here
    obtain ⟨_, library, fine⟩ := settled j im positive here
    obtain ⟨t, memberHull, sameHull⟩ := hullTaken.2
    obtain ⟨u, memberStack, sameStack⟩ := stackTaken.2
    refine ⟨library, fine.inside, ?_, ?_⟩
    · rw [sameRanges.1, ← sameHull]
      exact fine.clear t memberHull
    · rw [sameRanges.2, ← sameStack]
      exact fine.clear u memberStack
  · intro i j im other positive positiveJ different here hereJ
    have seenI := (settled i im positive here).1
    have seenJ := (settled j other positiveJ hereJ).1
    rw [same] at here hereJ
    exact placed.apart i seenI j seenJ positive positiveJ different im other here hereJ

/-! ## Confinement -/

/-- Every block and the stack lie in the window and below the reserved area,
clear of one another, and the loader writes nothing else. -/
structure Confined (launch : Launch) (target : Target) : Prop where
  inside : ∀ r ∈ launch.ranges, r.Within target.window ∧ r.stop ≤ cpuReserved.toNat
  apart : launch.ranges.Pairwise Apart
  mapped : ∀ (map : Mapping) mem h, waxLoadMapped launch map mem h ≠ mem h ->
    ∃ a, launch.Owns a ∧ h = map.locate a
  biased : ∀ aligned bias mem h, waxLoad launch aligned bias mem h ≠ mem h ->
    ∃ a, launch.Owns a ∧ h = bias + a

section Placed

variable {target : Target} {launch : Launch} {exe : Image} (placed : LaunchPlaced target launch exe)

include placed

variable {im : Image} {j : Nat}

theorem LaunchPlaced.ready_library (positive : j ≠ 0) (here : launch.images[j]? = some im) : Ready im := by
  obtain ⟨⟨parsed, accepted, _, origin, depImage, rfl⟩, inside, _⟩ := placed.library j im positive here
  have laid := accepted.laid
  have room : origin.toNat + parsed.span.toNat ≤ 2 ^ 32 := by
    have stop : origin.toNat + parsed.span.toNat ≤ target.windowEnd.toNat := inside.2
    omega
  have placedLaid : Laid { parsed with origin := origin, depImage := depImage } :=
    ⟨laid.nonempty, laid.ascending, laid.fits, laid.sized⟩
  exact ⟨placedLaid, room, fun i member => inBlocks_of_inBlock placedLaid room (accepted.slots i member)⟩

theorem LaunchPlaced.ready_exe : Ready exe :=
  have room := Nat.le_of_lt placed.placed.room
  ⟨placed.placed.laid, room,
    fun i member => inBlocks_of_inBlock placed.placed.laid room (placed.placed.slots i member)⟩

theorem LaunchPlaced.ready (here : launch.images[j]? = some im) : Ready im := by
  by_cases zero : j = 0
  · subst zero
    cases placed.first.symm.trans here
    exact placed.ready_exe
  · exact placed.ready_library zero here

theorem LaunchPlaced.inside (here : launch.images[j]? = some im) :
    (hull im).Within target.window := by
  by_cases zero : j = 0
  · subst zero
    cases placed.first.symm.trans here
    exact placed.hullInside
  · exact (placed.library j im zero here).2.1

theorem LaunchPlaced.loadable : Loadable launch where
  ready := by
    intro im member
    obtain ⟨j, here⟩ := List.getElem?_of_mem member
    exact placed.ready here
  stack := by
    rw [placed.stackSame, placed.placed.stack]
    exact Nat.le_of_lt (exe.stackTop + launch.delta).isLt
  relocs := by
    intro head same relocatable _ entry member
    rw [List.head?_eq_getElem?, placed.first] at same
    cases same
    obtain ⟨b, inBlocks, fine⟩ := placed.placed.relocs relocatable entry member
    exact relocInside_of_placed placed.placed.laid (Nat.le_of_lt placed.placed.room) placed.placed.moved
      inBlocks fine

/-- A block range lies in the reservation of its image. -/
theorem LaunchPlaced.block_in_hull (here : launch.images[j]? = some im) :
    ∀ r ∈ im.blocks.map (blockRange im), r.Within (hull im) :=
  ((placed.ready here).laid.placed (placed.ready here).room).within

theorem LaunchPlaced.stack_apart (here : launch.images[j]? = some im) :
    ∀ r ∈ im.blocks.map (blockRange im), (stackRange launch).Apart r := by
  intro r member
  rw [placed.stackSame]
  by_cases zero : j = 0
  · subst zero
    cases placed.first.symm.trans here
    obtain ⟨b, inBlocks, rfl⟩ := List.mem_map.mp member
    exact placed.placed.clear b inBlocks
  · have clear := (placed.library j im zero here).2.2.2
    exact clear.symm.of_within (Within.refl _) (placed.block_in_hull here r member)

theorem LaunchPlaced.hulls_apart {i : Nat} {other : Image} (different : i ≠ j) (here : launch.images[i]? = some im)
    (hereJ : launch.images[j]? = some other) :
    (hull im).Apart (hull other) := by
  by_cases zero : i = 0
  · subst zero
    cases placed.first.symm.trans here
    exact (placed.library j other (Ne.symm different) hereJ).2.2.1.symm
  · by_cases zeroJ : j = 0
    · subst zeroJ
      cases placed.first.symm.trans hereJ
      exact (placed.library i im zero here).2.2.1
    · exact placed.apart i j im other zero zeroJ different here hereJ

theorem LaunchPlaced.ranges_apart : launch.ranges.Pairwise Apart := by
  refine List.Pairwise.cons ?_ ?_
  · intro r member
    obtain ⟨im, inImages, inBlocks⟩ := List.mem_flatMap.mp member
    obtain ⟨j, here⟩ := List.getElem?_of_mem inImages
    exact placed.stack_apart here r inBlocks
  · rw [List.pairwise_flatMap]
    constructor
    · intro im inImages
      obtain ⟨j, here⟩ := List.getElem?_of_mem inImages
      exact ((placed.ready here).laid.placed (placed.ready here).room).pairwise
    · rw [List.pairwise_iff_getElem]
      intro i j boundI boundJ less r member s memberS
      have hereI := List.getElem?_eq_getElem boundI
      have hereJ := List.getElem?_eq_getElem boundJ
      exact (placed.hulls_apart (Nat.ne_of_lt less) hereI hereJ).of_within
        (placed.block_in_hull hereI r member) (placed.block_in_hull hereJ s memberS)

theorem LaunchPlaced.ranges_inside : ∀ r ∈ launch.ranges, r.Within target.window := by
  intro r member
  rcases List.mem_cons.mp member with rfl | inImages
  · rw [placed.stackSame]
    exact placed.stackInside
  · obtain ⟨im, inImages, inBlocks⟩ := List.mem_flatMap.mp inImages
    obtain ⟨j, here⟩ := List.getElem?_of_mem inImages
    exact (placed.block_in_hull here r inBlocks).trans (placed.inside here)

theorem LaunchPlaced.confined (windowBelow : target.windowEnd ≤ cpuReserved) : Confined launch target where
  inside := by
    intro r member
    have inside := placed.ranges_inside r member
    exact ⟨inside, Nat.le_trans inside.2 windowBelow⟩
  apart := placed.ranges_apart
  mapped := fun map mem _ changed => (waxLoadMapped_frame placed.loadable map mem).touched_of_ne changed
  biased := fun aligned bias mem _ changed =>
    (waxLoad_frame placed.loadable aligned bias mem).touched_of_ne changed

end Placed

/-! ## The condition is necessary -/

/-- The executable of a plan, whatever its addresses are. -/
theorem exe_of_waxPlan (planned : waxPlan data libs target = .ok launch) :
    ∃ exe origin delta depImage, parse data = .ok exe ∧ loadOrigin exe target = some (origin, delta) ∧
      launch.images[0]? = some { exe with origin := origin, depImage := depImage } := by
  obtain ⟨exe, origin, delta, r, parsed, _, chosen, resolved, placing, _⟩ := waxPlan_ok planned
  obtain ⟨grown, _⟩ := resolve_extends waxMaxImages resolved
  obtain ⟨_, seen, p, _, same, placed⟩ := place_ok placing
  obtain ⟨second, found, depImage, rfl⟩ := grown.same 0 _ rfl
  exact ⟨exe, origin, delta, depImage, parsed, chosen, same ▸ placed.first.trans found⟩

/-- In a confined launch no block of the executable starts above the reserved
area. -/
theorem Confined.start_below (confined : Confined launch target) (first : launch.images[0]? = some exe) {b : Block}
    (member : b ∈ exe.blocks) :
    blockStart exe b ≤ cpuReserved := by
  have listed : blockRange exe b ∈ launch.ranges :=
    List.mem_cons_of_mem _ (List.mem_flatMap.mpr
      ⟨exe, List.mem_of_getElem? first, List.mem_map_of_mem member⟩)
  have below : (blockStart exe b).toNat + b.memorySize.toNat ≤ cpuReserved.toNat :=
    (confined.inside _ listed).2
  exact Nat.le_trans (Nat.le_add_right _ _) below

/-- The first block of a version 3 image is at its base. -/
theorem V3Accepted.first_block {im : Image} (accepted : V3Accepted im) :
    ∃ b ∈ im.blocks, b.address = im.base := by
  obtain ⟨spans, stop, after, loop, _⟩ := accepted.loop
  have nonempty := blocks_ne_nil accepted.blockCount
  cases blocks : im.blocks with
  | nil => exact absurd blocks nonempty
  | cons b rest =>
    rw [blocks] at loop
    obtain ⟨_, follows, _⟩ := v3Blocks_cons loop
    exact ⟨b, List.mem_cons_self, by simpa [misplaced] using follows⟩

theorem startsBelow_of_confined (planned : waxPlan data libs target = .ok launch)
    (confined : Confined launch target) :
    StartsBelow data target := by
  obtain ⟨exe, origin, delta, depImage, parsed, chosen, first⟩ := exe_of_waxPlan planned
  rcases parse_accepted parsed with ⟨version, ⟨span, same⟩, accepted⟩ | ⟨version, ⟨span, align, same⟩, accepted⟩
  · refine ⟨?_, fun three => absurd (version.symm.trans three) (by decide)⟩
    intro _ b member
    have inExe : b ∈ exe.blocks := by
      rw [same]
      exact member
    have here : origin = exe.base := by
      rcases loadOrigin_cases chosen with ⟨_, here, _⟩ | ⟨relocatable, _⟩
      · exact here
      · rw [accepted.relocatable] at relocatable
        cases relocatable
    have below := confined.start_below first inExe
    have start : blockStart { exe with origin := origin, depImage := depImage } b = b.address := by
      unfold blockStart
      dsimp only
      rw [here]
      grind
    exact start ▸ below
  · refine ⟨fun two => absurd (version.symm.trans two) (by decide), ?_⟩
    intro _ flag
    have relocatable : exe.relocatable = true := by
      rw [same]
      exact decide_eq_true flag
    rcases loadOrigin_cases chosen with ⟨stays, _⟩ | ⟨_, here, _⟩
    · rw [stays relocatable]
      decide
    · obtain ⟨b, member, lowest⟩ := accepted.first_block
      have below := confined.start_below first member
      have start : blockStart { exe with origin := origin, depImage := depImage } b = target.loadBase := by
        unfold blockStart
        dsimp only
        rw [here, lowest]
        grind
      exact start ▸ below

/-- A version 2 executable of three blocks with a stack below 0x800000; the
middle block starts at `middle`. -/
def threeBlocks (middle : Word) : List Word :=
  [0x57415800, 0x00020001, 0x00010002, 64, 0x400000, 0, 64, 3, 16, 0, 0, 152, 0x800000, 0x1000, 0, 0,
    0x400000, 112, 4, 5, middle, 116, 0x20, 3, 0x500000, 148, 4, 3, 0, 0, 0, 0, 0, 0, 0, 0, 0, 0]

def threeBlocksFile (middle : Word) : File :=
  ⟨bytesOf (threeBlocks middle), by
    rw [bytesOf_length]
    exact (by decide : 4 * 38 < 2 ^ 32)⟩

theorem exists_plan (accepted : (waxPlan data libs target).isOk = true) :
    ∃ launch, waxPlan data libs target = .ok launch := by
  cases planned : waxPlan data libs target with
  | error failure =>
    rw [planned] at accepted
    cases accepted
  | ok launch => exact ⟨launch, rfl⟩

end Src32.Wax
