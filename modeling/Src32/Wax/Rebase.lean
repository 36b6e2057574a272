import Src32.Wax.Translation

namespace Src32.Wax

open Fallible Interval

/-!
# Moving a plan

A plan that is made at a probe base and moved is the plan made at the base it
was moved to.  There is one exception: a plan does not put a relocatable
executable over the reserved area below the end of the address space, and a move
does.
-/

theorem v3Block_align {b : Block} (fine : v3BlockOk b = true) : Align.Power b.align := by
  simp only [v3BlockOk, Bool.and_eq_true, Bool.not_eq_true', Bool.or_eq_false_iff,
    decide_eq_false_iff_not, not_not] at fine
  obtain ⟨⟨_, ⟨least, mask⟩, _⟩, _⟩ := fine
  refine ⟨fun zero => ?_, mask⟩
  rw [zero] at least
  exact least (by decide)

/-- The largest alignment is no smaller than any, and one of them or the first. -/
theorem v3Blocks_greatest {base size stop align final finalAlign : Word} {first : Bool} {spans after : Spans}
    {blocks : List Block} (done : v3Blocks base size first stop align spans blocks = some (final, finalAlign, after)) :
    align.toNat ≤ finalAlign.toNat ∧ (∀ b ∈ blocks, v3BlockOk b = true ∧ b.align.toNat ≤ finalAlign.toNat) ∧
      (finalAlign = align ∨ ∃ b ∈ blocks, b.align = finalAlign) := by
  induction blocks generalizing first stop align spans with
  | nil =>
    cases done
    exact ⟨Nat.le_refl _, fun b member => absurd member List.not_mem_nil, .inl rfl⟩
  | cons b rest ih =>
    unfold v3Blocks at done
    split at done
    · cases done
    · next fine =>
        rw [Bool.not_eq_true', Bool.not_eq_false] at fine
        generalize larger : (if b.align > align then b.align else align) = next at done
        have more : align.toNat ≤ next.toNat ∧ b.align.toNat ≤ next.toNat ∧ (next = align ∨ next = b.align) := by
          rw [← larger]
          split
          · next less => exact ⟨Nat.le_of_lt less, Nat.le_refl _, .inr rfl⟩
          · next less => exact ⟨Nat.le_refl _, Nat.le_of_not_lt less, .inl rfl⟩
        split_ifs at done
        split at done
        · cases done
        · obtain ⟨least, each, attained⟩ := ih done
          refine ⟨Nat.le_trans more.1 least, ?_, ?_⟩
          · intro c member
            rcases List.mem_cons.mp member with rfl | later
            · exact ⟨fine, Nat.le_trans more.2.1 least⟩
            · exact each c later
          · rcases attained with same | ⟨c, member, same⟩
            · rcases more.2.2 with kept | taken
              · exact .inl (same.trans kept)
              · exact .inr ⟨b, List.mem_cons_self, taken.symm.trans same.symm⟩
            · exact .inr ⟨c, List.mem_cons_of_mem b member, same⟩

variable {im : Image} {delta : Word}

/-- The alignment of a version 3 image is a power of two, and at least 4. -/
theorem V3Accepted.align (accepted : V3Accepted im) : Align.Power im.align ∧ 4 ≤ im.align.toNat := by
  obtain ⟨_, _, _, loop, _⟩ := accepted.loop
  obtain ⟨least, each, same | ⟨b, member, same⟩⟩ := v3Blocks_greatest loop
  · exact ⟨same ▸ ⟨by decide, by decide⟩, least⟩
  · exact ⟨same ▸ v3Block_align (each b member).1, least⟩

theorem IsLibrary.align (library : IsLibrary im) : Align.Power im.align ∧ 4 ≤ im.align.toNat := by
  obtain ⟨parsed, accepted, _, _, _, rfl⟩ := library
  exact accepted.align

theorem IsLibrary.laid (library : IsLibrary im) : Laid im := by
  obtain ⟨parsed, accepted, _, _, _, rfl⟩ := library
  have laid := accepted.laid
  exact ⟨laid.nonempty, laid.ascending, laid.fits, laid.sized⟩

/-- What a plan of an executable is made of. -/
theorem planFrom_iff {libs : List File} {target : Target} {exe : Image} {launch : Launch} :
    planFrom libs target exe delta = .ok launch ↔ ∃ r planning,
      resolve libs target waxMaxImages 0 ⟨[exe], fun _ => 0, []⟩ = .ok r ∧ checkImports r.images = .ok () ∧
      place target delta exe r.images r.order = .ok launch.images ∧
      planRegions exe delta launch.images = .ok planning ∧
      launch = ⟨launch.images, exe.origin + exe.entryOffset, exe.stackTop + delta, exe.stackSize, planning.top, delta,
        exe.heapHint, planning.regions.reverse⟩ := by
  unfold planFrom
  constructor
  · intro done
    obtain ⟨r, resolved, done⟩ := bind_ok done
    obtain ⟨_, checked, done⟩ := bind_ok done
    obtain ⟨images, placed, done⟩ := bind_ok done
    obtain ⟨planning, regions, done⟩ := bind_ok done
    cases done
    exact ⟨r, planning, resolved, checked, placed, regions, rfl⟩
  · rintro ⟨r, planning, resolved, checked, placed, regions, same⟩
    rw [resolved]
    change (checkImports r.images >>= _) = _
    rw [checked]
    change (place target delta exe r.images r.order >>= _) = _
    rw [placed]
    change (planRegions exe delta launch.images >>= _) = _
    rw [regions]
    exact congrArg Except.ok same.symm

variable {data : File} {libs : List File} {target : Target} {launch moved : Launch} {shift : Word} {exe : Image}

/-- What a move checks and does. -/
theorem waxRebase_ok (rebased : waxRebase launch shift = .ok moved) :
    (∀ im ∈ launch.images, Align.Power im.align -> 4 ≤ im.align.toNat -> shift &&& (im.align - 1) = 0) ∧
      moved = ⟨launch.images.map (Image.shift shift), launch.entry + shift, launch.stackTop + shift, launch.stackSize,
        launch.top + shift, launch.delta + shift, launch.heapHint, launch.regions.map (Region.shift shift)⟩ := by
  unfold waxRebase at rebased
  split at rebased
  · cases rebased
  · next fine =>
      cases rebased
      refine ⟨fun im member power least => ?_, rfl⟩
      rw [Bool.not_eq_true, List.any_eq_false] at fine
      have here := fine im member
      rw [Bool.and_eq_true, decide_eq_true_iff, decide_eq_true_iff, not_and, not_not] at here
      apply here
      change (1 : Word).toNat < im.align.toNat
      change 1 < im.align.toNat
      omega

/-- Nothing of a plan wraps when it is moved. -/
structure Unwrapped (target : Target) (exe : Image) (shift : Word) : Prop where
  window : target.windowEnd.toNat + shift.toNat < 2 ^ 32
  image : target.loadBase.toNat + exe.span.toNat < 2 ^ 32

/-- The blocks of an image that lies below the end of the window. -/
theorem Laid.blocks_below (laid : Laid im) {windowEnd : Word}
    (below : im.origin.toNat + im.span.toNat ≤ windowEnd.toNat) {b : Block} (member : b ∈ im.blocks) :
    (blockStart im b).toNat + b.memorySize.toNat ≤ windowEnd.toNat ∧ 1 ≤ b.memorySize.toNat := by
  have limit := windowEnd.isLt
  have inside := (laid.placed (by omega)).within _ (List.mem_map_of_mem member)
  have stop : (blockStart im b).toNat + b.memorySize.toNat ≤ im.origin.toNat + im.span.toNat := inside.2
  exact ⟨by omega, (laid.sized b member).1⟩

theorem blockQueues_shift (images : List Image) :
    blockQueues (images.map (Image.shift shift)) = (blockQueues images).map (BlockQueue.shift shift) := by
  unfold blockQueues
  rw [List.zipIdx_map, List.map_map, List.map_map]
  rfl

/-- The regions of moved images are the regions moved. -/
theorem planRegions_shift {images : List Image} {planning : Planning}
    (room : target.windowEnd.toNat + shift.toNat < 2 ^ 32) (first : images[0]? = some im) (some_ : im.blocks ≠ [])
    (fits : ∀ im ∈ images, ∀ b ∈ im.blocks,
      (blockStart im b).toNat + b.memorySize.toNat ≤ target.windowEnd.toNat ∧ 1 ≤ b.memorySize.toNat)
    (done : planRegions exe delta images = .ok planning) :
    ∃ again, planRegions (exe.shift shift) (delta + shift) (images.map (Image.shift shift)) = .ok again ∧
      again.regions = planning.regions.map (Region.shift shift) ∧ again.top = planning.top + shift := by
  have queued : (0, im, im.blocks) ∈ blockQueues images :=
    List.mem_map.mpr ⟨(im, 0), List.mem_zipIdx_iff_getElem?.mpr first, rfl⟩
  have inside : ∀ q ∈ blockQueues images, ∀ b ∈ q.2.2,
      (blockStart q.2.1 b).toNat + b.memorySize.toNat ≤ target.windowEnd.toNat ∧ 1 ≤ b.memorySize.toNat := by
    intro q member b inBlocks
    obtain ⟨⟨other, i⟩, listed, rfl⟩ := List.mem_map.mp member
    exact fits other (List.mem_of_getElem? (List.mem_zipIdx_iff_getElem?.mp listed)) b inBlocks
  have some_block : 0 < (images.map fun im => im.blocks.length).sum ∧ lowest (blockQueues images) ≠ none := by
    constructor
    · have each := List.single_le_sum (l := images.map fun im => im.blocks.length) (fun _ _ => Nat.zero_le _) _
        (List.mem_map_of_mem (List.mem_of_getElem? first))
      exact Nat.lt_of_lt_of_le (List.length_pos_of_ne_nil some_) each
    · exact fun none => some_ (lowest_none none _ queued)
  have begins : MergeMoved target.windowEnd shift ⟨[⟨exe.stackTop - exe.stackSize + delta, exe.stackTop + delta, permRw⟩], 0⟩
      ⟨[⟨exe.stackTop - exe.stackSize + (delta + shift), exe.stackTop + (delta + shift), permRw⟩], 0⟩ := by
    refine ⟨?_, Or.inr ⟨rfl, rfl⟩, Nat.zero_le _⟩
    rw [← BitVec.add_assoc, ← BitVec.add_assoc]
    rfl
  unfold planRegions at done ⊢
  obtain ⟨again, merged, ends, kept⟩ := mergeBlocks_shift room inside begins done
  refine ⟨again, ?_, ends.regions, ends.top.resolve_right fun both => kept (Or.inr some_block) both.1⟩
  have count : ((images.map (Image.shift shift)).map fun im => im.blocks.length).sum =
      (images.map fun im => im.blocks.length).sum := by
    rw [List.map_map]
    rfl
  rw [count, ← merged, ← blockQueues_shift]
  rfl

/-- The images of a plan lie below the end of its window. -/
theorem images_below {origin : Word} {r : Resolver} {images : List Image} (accepted : V3Accepted exe)
    (unwrapped : origin.toNat + exe.span.toNat < 2 ^ 32)
    (resolved : resolve libs target waxMaxImages 0 ⟨[exe.at_ origin], fun _ => 0, []⟩ = .ok r)
    (placed : place target delta (exe.at_ origin) r.images r.order = .ok images) :
    ∀ im ∈ images, (Align.Power im.align ∧ 4 ≤ im.align.toNat) ∧ ∀ b ∈ im.blocks,
      (blockStart im b).toNat + b.memorySize.toNat ≤ target.windowEnd.toNat ∧ 1 ≤ b.memorySize.toNat := by
  obtain ⟨grown, _⟩ := resolve_extends waxMaxImages resolved
  obtain ⟨inside, seen, p, all, rfl, settled⟩ := place_ok placed
  intro im member
  obtain ⟨j, here⟩ := List.mem_iff_getElem?.mp member
  by_cases first : j = 0
  · -- The executable.
    subst first
    obtain ⟨second, found, depImage, rfl⟩ := grown.same 0 _ rfl
    rw [settled.first, found] at here
    cases here
    have laid := accepted.laid
    have stop := (inside ⟨origin, origin + exe.span⟩ List.mem_cons_self).2
    have below : origin.toNat + exe.span.toNat ≤ target.windowEnd.toNat := by
      have sum : (origin + exe.span).toNat = origin.toNat + exe.span.toNat := by bv_omega
      have limit : (origin + exe.span).toNat ≤ target.windowEnd.toNat := Nat.le_of_not_lt stop
      omega
    have dressed : Laid { exe.at_ origin with depImage := depImage } :=
      ⟨laid.nonempty, laid.ascending, laid.fits, laid.sized⟩
    exact ⟨accepted.align, fun b inBlocks => dressed.blocks_below below inBlocks⟩
  · -- A library.
    have bound : j < r.images.length := settled.length ▸ (List.getElem?_eq_some_iff.mp here).1
    obtain ⟨before, there⟩ : ∃ before, r.images[j]? = some before := ⟨_, List.getElem?_eq_getElem bound⟩
    have library := grown.fresh j before (Nat.pos_of_ne_zero first) there
    obtain ⟨now, kept, dressed⟩ := settled.dressed j before there
    cases here.symm.trans kept
    have own := library.dressed dressed
    have member := all j (grown.placed j (Nat.pos_of_ne_zero first) bound)
    have below := (settled.settled j member first im here).inside.2
    exact ⟨own.align, fun b inBlocks => own.laid.blocks_below below inBlocks⟩

/-- The stack of a relocatable executable ends where the image begins. -/
theorem V3Accepted.stackTop_base (accepted : V3Accepted exe) (kind : exe.type = typeWax)
    (relocatable : exe.relocatable = true) : exe.stackTop = exe.base := by
  obtain ⟨_, stop, _, _, _, stack⟩ := accepted.loop
  simp only [v3StackOk, Bool.or_eq_true, Bool.and_eq_true, Bool.not_eq_true', Bool.or_eq_false_iff,
    Bool.and_eq_false_iff, decide_eq_false_iff_not, decide_eq_true_iff] at stack
  rcases (stack.resolve_left fun no => no kind).2 with no | equal
  · rw [relocatable] at no
    cases no
  · exact not_not.mp equal

/-- The origin of a relocatable executable at a base that suits its stack. -/
theorem loadOrigin_base (relocatable : exe.relocatable = true) (probe : target.loadBase ≠ 0)
    (stack : ¬ target.loadBase < exe.stackSize) (four : target.loadBase &&& 3 = 0) :
    loadOrigin exe target = if exe.span > cpuReserved - target.loadBase then none
      else some (target.loadBase, target.loadBase - exe.base) := by
  have loads : (exe.relocatable && decide (target.loadBase ≠ 0)) = true := by
    rw [relocatable, Bool.true_and]
    exact decide_eq_true probe
  unfold loadOrigin
  rw [if_pos loads]
  by_cases large : exe.span > cpuReserved - target.loadBase
  · rw [if_pos large, if_pos (Or.inr (Or.inr large))]
  · have none : ¬ (target.loadBase < exe.stackSize ∨ target.loadBase &&& 3 ≠ 0 ∨
        exe.span > cpuReserved - target.loadBase) := by
      rintro (less | odd | more)
      · exact stack less
      · exact odd four
      · exact large more
    rw [if_neg large, if_neg none]

/-- A plan that is moved is the plan for the base and the window moved, unless
the executable would lie over the reserved area there. -/
theorem waxRebase_is_plan (parsed : parse data = .ok exe) (relocatable : exe.relocatable = true)
    (probe : target.loadBase ≠ 0) (planned : waxPlan data libs target = .ok launch)
    (rebased : waxRebase launch shift = .ok moved) (unwrapped : Unwrapped target exe shift) :
    waxPlan data libs (target.shift shift) =
      if exe.span > cpuReserved - (target.loadBase + shift) then .error (.plain .format) else .ok moved := by
  have accepted : V3Accepted exe := by
    rcases parse_accepted parsed with ⟨_, _, two⟩ | ⟨_, _, three⟩
    · rw [two.relocatable] at relocatable
      cases relocatable
    · exact three
  unfold waxPlan at planned ⊢
  rw [parsed] at planned ⊢
  dsimp only at planned ⊢
  have abi : ∀ im, abiOk im (target.shift shift) = abiOk im target := fun _ => rfl
  rw [abi]
  split_ifs at planned with kind other
  rw [if_neg kind, if_neg other]
  cases chosen : loadOrigin exe target with
  | none =>
    rw [chosen] at planned
    cases planned
  | some pair =>
    obtain ⟨origin, delta⟩ := pair
    rw [chosen] at planned
    dsimp only at planned
    unfold loadOrigin at chosen
    have loads : (exe.relocatable && decide (target.loadBase ≠ 0)) = true := by
      rw [relocatable, Bool.true_and]
      exact decide_eq_true probe
    rw [if_pos loads] at chosen
    split_ifs at chosen with refused
    cases chosen
    rw [not_or, not_or] at refused
    obtain ⟨stack, four, span⟩ := refused
    obtain ⟨r, planning, resolved, checked, placed, regions, same⟩ := planFrom_iff.mp planned
    have below := images_below accepted unwrapped.image resolved placed
    obtain ⟨aligned, rfl⟩ := waxRebase_ok rebased
    have window := unwrapped.window
    have image := unwrapped.image
    -- The executable ends in the window.
    obtain ⟨inside, _, p, _, ends, settled⟩ := place_ok placed
    have stop : (target.loadBase + exe.span).toNat ≤ target.windowEnd.toNat :=
      Nat.le_of_not_lt (inside ⟨target.loadBase, target.loadBase + exe.span⟩ List.mem_cons_self).2
    have base : (target.loadBase + shift).toNat = target.loadBase.toNat + shift.toNat := by bv_omega
    obtain ⟨grown, _⟩ := resolve_extends waxMaxImages resolved
    obtain ⟨second, found, depImage, rfl⟩ := grown.same 0 _ rfl
    have first : launch.images[0]? = some { exe.at_ target.loadBase with depImage := depImage } := by
      rw [ends, settled.first]
      exact found
    have multiple : shift &&& (exe.align - 1) = 0 :=
      aligned { exe.at_ target.loadBase with depImage := depImage } (List.mem_of_getElem? first) accepted.align.1
        accepted.align.2
    have quarter : shift &&& (4 - 1) = 0 :=
      accepted.align.1.mask_le ⟨by decide, by decide⟩ accepted.align.2 multiple
    -- The base that it is moved to suits it.
    have probe' : (target.shift shift).loadBase ≠ 0 := by
      intro zero
      have none := congrArg BitVec.toNat zero
      change (target.loadBase + shift).toNat = 0 at none
      refine probe (BitVec.eq_of_toNat_eq ?_)
      change target.loadBase.toNat = 0
      omega
    have stack' : ¬ (target.shift shift).loadBase < exe.stackSize := by
      intro less
      apply stack
      have low : (target.loadBase + shift).toNat < exe.stackSize.toNat := less
      change target.loadBase.toNat < exe.stackSize.toNat
      omega
    have four' : (target.shift shift).loadBase &&& 3 = 0 := by
      have power : Align.Power (4 : Word) := ⟨by decide, by decide⟩
      exact (power.mask_add quarter target.loadBase).trans (not_not.mp four)
    rw [loadOrigin_base relocatable probe' stack' four']
    by_cases large : exe.span > cpuReserved - (target.loadBase + shift)
    · have large' : exe.span > cpuReserved - (target.shift shift).loadBase := large
      rw [if_pos large, if_pos large']
    · have fits : ¬ exe.span > cpuReserved - (target.shift shift).loadBase := large
      rw [if_neg large, if_neg fits]
      refine planFrom_iff.mpr ?_
      have again := @resolve_reorigin libs target (target.loadBase + shift) (target.shift shift) abi waxMaxImages 0 _ _
        (List.cons_ne_nil _ _) resolved
      have checks : checkImports (r.reorigin (target.loadBase + shift)).images = .ok () :=
        (checkImports_modifyHead r.images _).trans checked
      -- The stack ends where the executable begins.
      have top := accepted.stackTop_base (not_not.mp kind) relocatable
      have ranges : ∀ t ∈ exeTaken (exe.at_ target.loadBase) (target.loadBase - exe.base), t.start.toNat ≤ t.stop.toNat := by
        intro t member
        rcases List.mem_cons.mp member with rfl | last
        · change target.loadBase.toNat ≤ (target.loadBase + exe.span).toNat
          bv_omega
        · rw [List.mem_singleton.mp last]
          change (exe.stackTop - exe.stackSize + (target.loadBase - exe.base)).toNat ≤
            (exe.stackTop + (target.loadBase - exe.base)).toNat
          have low : exe.stackSize.toNat ≤ target.loadBase.toNat := Nat.le_of_not_lt stack
          rw [top]
          bv_omega
      have movable : ∀ (j : Nat) im, j ≠ 0 -> r.images[j]? = some im -> Movable shift im := by
        intro j im positive here
        have library := grown.fresh j im (Nat.pos_of_ne_zero positive) here
        obtain ⟨now, kept, dressed⟩ := settled.dressed j im here
        have own := (library.dressed dressed).align
        have member : now ∈ launch.images := ends ▸ List.mem_of_getElem? kept
        have whole := aligned now member own.1 own.2
        obtain ⟨_, _, rfl⟩ := dressed
        exact ⟨own.1, whole⟩
      have ordered : ∀ j < r.images.length, j ≠ 0 -> j ∈ r.order :=
        fun j bound positive => grown.placed j (Nat.pos_of_ne_zero positive) bound
      have moves := place_shift window ranges movable ordered placed
      obtain ⟨planning', merged, regions', top'⟩ := planRegions_shift window first accepted.laid.nonempty
        (fun im member => (below im member).2) regions
      have delta : (target.shift shift).loadBase - exe.base = target.loadBase - exe.base + shift := by
        change target.loadBase + shift - exe.base = _
        bv_omega
      have heads : r.images.modifyHead (Image.shift shift) = (r.reorigin (target.loadBase + shift)).images := by
        unfold Resolver.reorigin
        generalize r.images = images at found
        cases images with
        | nil => cases found
        | cons head rest =>
          cases found
          rfl
      rw [heads, ← delta] at moves
      rw [← delta] at merged
      refine ⟨r.reorigin (target.loadBase + shift), planning', again.1, checks, moves, merged, ?_⟩
      have entry : launch.entry = target.loadBase + exe.entryOffset := congrArg Launch.entry same
      have stackTop : launch.stackTop = exe.stackTop + (target.loadBase - exe.base) := congrArg Launch.stackTop same
      have end_ : launch.top = planning.top := congrArg Launch.top same
      have delta_ : launch.delta = target.loadBase - exe.base := congrArg Launch.delta same
      have size : launch.stackSize = exe.stackSize := congrArg Launch.stackSize same
      have hint : launch.heapHint = exe.heapHint := congrArg Launch.heapHint same
      have list : launch.regions = planning.regions.reverse := congrArg Launch.regions same
      rw [delta, regions', top', ← List.map_reverse, entry, stackTop, end_, delta_, size, hint, list, shift_order,
        BitVec.add_assoc _ _ shift]
      rfl

/-- A relocatable executable of a block of code and a block of data with one
relocation. -/
def relocatableApp : File :=
  ⟨bytesOf [0x57415800, 0x00030001, 0x00010006, 160, 236, 1, 0x400000, 0, 0x400000, 0x1000, 160, 2, 24, 0, 0, 16, 0, 0,
    24, 0, 0, 24, 212, 16, 1, 1, 0, 5, 1, 0, 0, 0, 208, 1, 0, 0, 0, 0, 0, 0, 0x400000, 228, 4, 4, 5, 4,
    0x401000, 232, 4, 8, 3, 4, 0x401000, 0x00617070, 0x00666F75, 0x6E646174, 0x696F6E00, 0, 0x400000], by
    rw [bytesOf_length]
    exact (by decide : 4 * 59 < 2 ^ 32)⟩

/-- A window of four pages with the base in its third. -/
def smallTarget : Target := ⟨ascii "foundation", 1, 0, 0x1000, 0x5000, 0x2000⟩

/-- The plan succeeds, and moving it does without anything that wraps. -/
def moves (data : File) (libs : List File) (target : Target) (shift : Word) : Bool :=
  match parse data, waxPlan data libs target with
  | .ok exe, .ok launch =>
    exe.relocatable && (waxRebase launch shift).isOk && decide (target.windowEnd.toNat + shift.toNat < 2 ^ 32) &&
      decide (target.loadBase.toNat + exe.span.toNat < 2 ^ 32)
  | _, _ => false

theorem exists_move (accepted : moves data libs target shift = true) : ∃ exe launch moved,
    parse data = .ok exe ∧ exe.relocatable = true ∧ waxPlan data libs target = .ok launch ∧
      waxRebase launch shift = .ok moved ∧ Unwrapped target exe shift := by
  unfold moves at accepted
  cases parsed : parse data with
  | error failure =>
    rw [parsed] at accepted
    cases accepted
  | ok exe =>
    cases planned : waxPlan data libs target with
    | error failure =>
      rw [parsed, planned] at accepted
      cases accepted
    | ok launch =>
      rw [parsed, planned] at accepted
      simp only [Bool.and_eq_true, decide_eq_true_iff] at accepted
      obtain ⟨⟨⟨relocatable, rebased⟩, window⟩, image⟩ := accepted
      cases again : waxRebase launch shift with
      | error failure =>
        rw [again] at rebased
        cases rebased
      | ok moved => exact ⟨exe, launch, moved, rfl, relocatable, rfl, again, window, image⟩

theorem relocatableApp_moves : moves relocatableApp [] smallTarget 0x7000 = true := by
  decide +kernel

theorem relocatableApp_moved : ∃ exe launch moved, parse relocatableApp = .ok exe ∧
    waxPlan relocatableApp [] smallTarget = .ok launch ∧ waxRebase launch 0x7000 = .ok moved ∧
      waxPlan relocatableApp [] (smallTarget.shift 0x7000) =
        if exe.span > cpuReserved - (smallTarget.loadBase + 0x7000) then .error (.plain .format) else .ok moved := by
  obtain ⟨exe, launch, moved, parsed, relocatable, planned, rebased, unwrapped⟩ :=
    exists_move relocatableApp_moves
  exact ⟨exe, launch, moved, parsed, planned, rebased,
    waxRebase_is_plan parsed relocatable (by decide) planned rebased unwrapped⟩

/-- A plan that is moved over the reserved area, where none is made. -/
theorem moved_over_reserved : ∃ exe launch moved, parse relocatableApp = .ok exe ∧ exe.relocatable = true ∧
    waxPlan relocatableApp [] smallTarget = .ok launch ∧ waxRebase launch 0xFFFEE000 = .ok moved ∧
      Unwrapped smallTarget exe 0xFFFEE000 ∧
        waxPlan relocatableApp [] (smallTarget.shift 0xFFFEE000) ≠ .ok moved := by
  obtain ⟨exe, launch, moved, parsed, relocatable, planned, rebased, unwrapped⟩ :=
    @exists_move relocatableApp [] smallTarget 0xFFFEE000 (by decide +kernel)
  refine ⟨exe, launch, moved, parsed, relocatable, planned, rebased, unwrapped, fun same => ?_⟩
  have refused : (waxPlan relocatableApp [] (smallTarget.shift 0xFFFEE000)).isOk = false := by decide +kernel
  rw [same] at refused
  cases refused

end Src32.Wax
