import Src32.Wax.Rebase

namespace Src32.Wax

open Fallible Interval

/-!
# Alignment of blocks

A placed library keeps the alignment of its blocks, and a move does.  The load base of
a relocatable executable is only checked for a multiple of 4.
-/

/-- Every block of an image is where its alignment allows. -/
def BlocksAligned (im : Image) : Prop := ∀ b ∈ im.blocks, b.align.toNat ∣ (blockStart im b).toNat

instance (im : Image) : Decidable (BlocksAligned im) := inferInstanceAs (Decidable (∀ b ∈ im.blocks, _))

def Launch.Aligned (launch : Launch) : Prop := ∀ im ∈ launch.images, BlocksAligned im

instance (launch : Launch) : Decidable launch.Aligned := inferInstanceAs (Decidable (∀ im ∈ launch.images, _))

theorem dvd_iff {align x : Word} (power : Align.Power align) : align.toNat ∣ x.toNat ↔ x &&& (align - 1) = 0 := by
  rw [Nat.dvd_iff_mod_eq_zero, ← power.mask]
  exact ⟨fun zero => BitVec.eq_of_toNat_eq zero, fun zero => congrArg BitVec.toNat zero⟩

/-! ## Images -/

theorem v3Block_address {b : Block} (fine : v3BlockOk b = true) : 4 ≤ b.align.toNat ∧ b.address &&& (b.align - 1) = 0 := by
  simp only [v3BlockOk, Bool.and_eq_true, Bool.not_eq_true', Bool.or_eq_false_iff,
    decide_eq_false_iff_not, not_not] at fine
  obtain ⟨⟨_, ⟨least, _⟩, address⟩, _⟩ := fine
  exact ⟨Nat.le_of_not_lt least, address⟩

/-- The blocks of an image are aligned where it is as far from its base as its largest
alignment allows, and nowhere else. -/
theorem V3Accepted.blocksAligned_iff {parsed im : Image} (accepted : V3Accepted parsed) (dressed : Dressed parsed im) :
    BlocksAligned im ↔ (im.origin - parsed.base) &&& (parsed.align - 1) = 0 := by
  obtain ⟨spans, stop, after, loop, _⟩ := accepted.loop
  obtain ⟨_, each, attained⟩ := v3Blocks_greatest loop
  obtain ⟨power, least⟩ := accepted.align
  obtain ⟨origin, depImage, rfl⟩ := dressed
  have start : ∀ b ∈ parsed.blocks, (b.align.toNat ∣ (blockStart { parsed with origin := origin, depImage := depImage } b).toNat ↔
      (origin - parsed.base) &&& (b.align - 1) = 0) := by
    intro b member
    have fine := (each b member).1
    rw [dvd_iff (v3Block_align fine), ← (v3Block_align fine).mask_add (v3Block_address fine).2 (origin - parsed.base)]
    have same : blockStart { parsed with origin := origin, depImage := depImage } b = origin - parsed.base + b.address := by
      unfold blockStart
      bv_omega
    rw [same]
  constructor
  · intro aligned
    -- Some block has the largest alignment.
    obtain ⟨b, member, same⟩ : ∃ b ∈ parsed.blocks, b.align = parsed.align := by
      rcases attained with four | found
      · obtain ⟨b, member⟩ := List.exists_mem_of_ne_nil _ accepted.laid.nonempty
        obtain ⟨fine, most⟩ := each b member
        refine ⟨b, member, BitVec.eq_of_toNat_eq ?_⟩
        have atLeast := (v3Block_address fine).1
        rw [four] at most ⊢
        exact Nat.le_antisymm most atLeast
      · exact found
    rw [← same]
    exact (start b member).mp (aligned b member)
  · intro multiple b member
    obtain ⟨fine, most⟩ := each b member
    exact (start b member).mpr (power.mask_le (v3Block_align fine) most multiple)

/-- What the images of a launch are. -/
def Known (im : Image) : Prop := (∀ b ∈ im.blocks, b.align = 1) ∨ ∃ parsed, V3Accepted parsed ∧ Dressed parsed im

theorem blocksAligned_one {im : Image} (one : ∀ b ∈ im.blocks, b.align = 1) : BlocksAligned im := by
  intro b member
  rw [one b member]
  exact one_dvd _

/-- A move of a multiple of the largest alignment changes nothing. -/
theorem Known.shift {im : Image} {shift : Word} (known : Known im)
    (multiple : Align.Power im.align -> 4 ≤ im.align.toNat -> shift &&& (im.align - 1) = 0) :
    Known (im.shift shift) ∧ (BlocksAligned (im.shift shift) ↔ BlocksAligned im) := by
  rcases known with one | ⟨parsed, accepted, dressed⟩
  · have moved : ∀ b ∈ (im.shift shift).blocks, b.align = 1 := one
    exact ⟨.inl moved, iff_of_true (blocksAligned_one moved) (blocksAligned_one one)⟩
  · have again : Dressed parsed (im.shift shift) := by
      obtain ⟨origin, depImage, rfl⟩ := dressed
      exact ⟨origin + shift, depImage, rfl⟩
    refine ⟨.inr ⟨parsed, accepted, again⟩, ?_⟩
    have same : im.align = parsed.align := by
      obtain ⟨origin, depImage, rfl⟩ := dressed
      rfl
    obtain ⟨power, least⟩ := accepted.align
    rw [same] at multiple
    rw [accepted.blocksAligned_iff again, accepted.blocksAligned_iff dressed,
      show (im.shift shift).origin - parsed.base = im.origin - parsed.base + shift by
        change im.origin + shift - parsed.base = _
        bv_omega,
      power.mask_add (multiple power least)]

/-! ## Placement -/

theorem and_not_and (x mask : Word) : x &&& ~~~mask &&& mask = 0 := by
  rw [BitVec.and_assoc, BitVec.not_and_self]
  exact BitVec.and_zero

theorem findSlot_aligned {im : Image} {windowEnd : Word} {taken : List Span} {fuel : Nat} {start slot : Word}
    (done : findSlot im windowEnd taken fuel start = some slot) : slot &&& (im.align - 1) = 0 := by
  induction fuel generalizing start with
  | zero => cases done
  | succ fuel ih =>
    unfold findSlot at done
    dsimp only at done
    split_ifs at done with room outside
    have clear := and_not_and (start + (im.align - 1)) (im.align - 1)
    generalize (start + (im.align - 1)) &&& ~~~(im.align - 1) = aligned at done clear
    cases blocked : taken.find? fun t => overlaps aligned (aligned + im.span) t.start t.stop with
    | none =>
      rw [blocked] at done
      cases done
      exact clear
    | some t =>
      rw [blocked] at done
      exact ih done

/-- The libraries of a placement are where their alignments allow. -/
theorem place_aligned {target : Target} {delta : Word} {exe : Image} {images final : List Image} {order : List Nat}
    (done : place target delta exe images order = .ok final) :
    ∀ i ∈ order, i ≠ 0 -> ∀ im, final[i]? = some im -> im.origin &&& (im.align - 1) = 0 := by
  unfold place at done
  by_cases outside : ((exeTaken exe delta).any fun t =>
      t.start < target.windowStart || t.stop > target.windowEnd) = true
  · rw [if_pos outside] at done
    cases done
  rw [if_neg outside] at done
  cases run : order.foldlM (placeOne target) ⟨images, exeTaken exe delta⟩ with
  | error failure =>
    rw [run] at done
    cases done
  | ok p =>
    rw [run] at done
    cases done
    have every := @foldlM_history _ _ _ (placeOne target) order _ p
      (fun seen (p : Placing) => ∀ i ∈ seen, i ≠ 0 -> ∀ im, p.images[i]? = some im -> im.origin &&& (im.align - 1) = 0)
      [] run (fun i member => absurd member List.not_mem_nil) ?_
    · intro i member positive im here
      exact every i (List.mem_append_left _ (List.mem_reverse.mpr member)) positive im here
    · intro seen p index next before step i member positive im here
      rcases placeOne_cases step with ⟨skipped, rfl⟩ | ⟨library, slot, _, found, slotted, rfl⟩
      · rcases List.mem_cons.mp member with rfl | old
        · rcases skipped with zero | none_
          · exact absurd zero positive
          · rw [none_] at here
            cases here
        · exact before i old positive im here
      · by_cases same : i = index
        · subst same
          rw [List.getElem?_set_self (List.getElem?_eq_some_iff.mp found).1] at here
          cases here
          exact @findSlot_aligned library _ _ _ _ _ slotted
        · rw [List.getElem?_set_ne (Ne.symm same)] at here
          exact before i ((List.mem_cons.mp member).resolve_left same) positive im here

/-! ## Launches -/

variable {data : File} {libs : List File} {target : Target} {launch : Launch} {exe : Image}

/-- The executable of a plan is at its load origin, the libraries where they were placed. -/
theorem waxPlan_images (parsed : parse data = .ok exe) (planned : waxPlan data libs target = .ok launch) :
    ∃ origin delta, loadOrigin exe target = some (origin, delta) ∧
      (∃ im, launch.images[0]? = some im ∧ Dressed exe im ∧ im.origin = origin) ∧
      ∀ (j : Nat) im, j ≠ 0 -> launch.images[j]? = some im -> IsLibrary im ∧ im.origin &&& (im.align - 1) = 0 := by
  unfold waxPlan at planned
  rw [parsed] at planned
  dsimp only at planned
  split_ifs at planned with kind other
  cases chosen : loadOrigin exe target with
  | none =>
    rw [chosen] at planned
    cases planned
  | some pair =>
    obtain ⟨origin, delta⟩ := pair
    rw [chosen] at planned
    obtain ⟨r, planning, resolved, checked, placed, regions, same⟩ := planFrom_iff.mp planned
    obtain ⟨grown, _⟩ := resolve_extends waxMaxImages resolved
    obtain ⟨_, seen, p, all, ends, settled⟩ := place_ok placed
    refine ⟨origin, delta, rfl, ?_, ?_⟩
    · obtain ⟨second, found, depImage, rfl⟩ := grown.same 0 _ rfl
      refine ⟨_, ?_, ⟨origin, depImage, rfl⟩, rfl⟩
      rw [ends, settled.first]
      exact found
    · intro j im positive here
      have bound : j < r.images.length := by
        rw [← settled.length, ← ends]
        exact (List.getElem?_eq_some_iff.mp here).1
      have there := List.getElem?_eq_getElem bound
      have library := grown.fresh j _ (Nat.pos_of_ne_zero positive) there
      obtain ⟨now, kept, dressed⟩ := settled.dressed j _ there
      rw [← ends] at kept
      cases here.symm.trans kept
      exact ⟨library.dressed dressed,
        place_aligned placed j (grown.placed j (Nat.pos_of_ne_zero positive) bound) positive im here⟩

/-- A library that is placed at a multiple of its largest alignment has its blocks aligned. -/
theorem IsLibrary.blocksAligned {im : Image} (library : IsLibrary im) (placed : im.origin &&& (im.align - 1) = 0) :
    BlocksAligned im := by
  obtain ⟨parsed, accepted, kind, dressed⟩ := library
  rw [accepted.blocksAligned_iff dressed]
  have base : parsed.base = 0 := by
    have fine := accepted.kind
    unfold v3KindOk at fine
    rw [if_neg (by rw [kind]; decide)] at fine
    simp only [Bool.and_eq_true, Bool.not_eq_true', Bool.or_eq_false_iff, decide_eq_false_iff_not, not_not] at fine
    exact fine.1.1.1.1.1.1
  have same : im.align = parsed.align := by
    obtain ⟨origin, depImage, rfl⟩ := dressed
    rfl
  rw [base, ← same]
  change (im.origin - 0#32) &&& (im.align - 1) = 0
  rw [BitVec.sub_zero]
  exact placed

/-- A move of a launch. -/
def Moves (before after : Launch) : Prop := ∃ shift, waxRebase before shift = .ok after

/-- The executable stays where it was linked for, or goes to a load base that is a
multiple of its largest alignment away. -/
def BaseSuits (exe : Image) (target : Target) : Prop :=
  exe.relocatable = true -> target.loadBase ≠ 0 -> (target.loadBase - exe.base) &&& (exe.align - 1) = 0

theorem loadOrigin_suits {origin delta : Word} (chosen : loadOrigin exe target = some (origin, delta)) :
    (origin - exe.base) &&& (exe.align - 1) = 0 ↔ BaseSuits exe target := by
  unfold loadOrigin at chosen
  split_ifs at chosen with loads refused
  · cases chosen
    rw [Bool.and_eq_true, decide_eq_true_iff] at loads
    exact ⟨fun multiple _ _ => multiple, fun suits => suits loads.1 loads.2⟩
  · cases chosen
    rw [Bool.and_eq_true, decide_eq_true_iff] at loads
    refine iff_of_true ?_ fun relocatable probe => absurd ⟨relocatable, probe⟩ loads
    rw [BitVec.sub_self]
    exact BitVec.zero_and

theorem moves_aligned {moved : Launch} (known : ∀ im ∈ launch.images, Known im) (moves : Moves launch moved) :
    (∀ im ∈ moved.images, Known im) ∧ (moved.Aligned ↔ launch.Aligned) := by
  obtain ⟨shift, rebased⟩ := moves
  obtain ⟨multiple, rfl⟩ := waxRebase_ok rebased
  have each := fun im member => (known im member).shift (multiple im member)
  constructor
  · intro im member
    obtain ⟨before, inside, rfl⟩ := List.mem_map.mp member
    exact (each before inside).1
  · constructor
    · intro aligned im member
      exact (each im member).2.mp (aligned _ (List.mem_map_of_mem member))
    · intro aligned im member
      obtain ⟨before, inside, rfl⟩ := List.mem_map.mp member
      exact (each before inside).2.mpr (aligned before inside)

/-- The executable is aligned where it is as far from its base as its largest alignment allows. -/
theorem executable_aligned (parsed : parse data = .ok exe) {im : Image} (dressed : Dressed exe im) :
    Known im ∧ (BlocksAligned im ↔ (im.origin - exe.base) &&& (exe.align - 1) = 0) := by
  rcases parse_accepted parsed with ⟨_, ⟨span, fields⟩, two⟩ | ⟨_, _, three⟩
  · have one : ∀ b ∈ im.blocks, b.align = 1 := by
      obtain ⟨origin, depImage, rfl⟩ := dressed
      intro b member
      obtain ⟨i, _, rfl⟩ := List.mem_map.mp member
      unfold getBlock
      rw [if_pos two.version]
    have align : exe.align = 1 := by rw [fields]
    refine ⟨.inl one, iff_of_true (blocksAligned_one one) ?_⟩
    rw [align]
    exact BitVec.and_zero
  · exact ⟨.inr ⟨exe, three, dressed⟩, three.blocksAligned_iff dressed⟩

/-- However an accepted launch is moved, the blocks of its images are aligned if and only
if the load base suits the executable. -/
theorem blocks_aligned_iff (parsed : parse data = .ok exe) (planned : waxPlan data libs target = .ok launch) {moved : Launch}
    (moves : Relation.ReflTransGen Moves launch moved) : moved.Aligned ↔ BaseSuits exe target := by
  obtain ⟨origin, delta, chosen, ⟨first, here, dressed, at_⟩, libraries⟩ := waxPlan_images parsed planned
  obtain ⟨firstKnown, firstAligned⟩ := executable_aligned parsed dressed
  have known : ∀ im ∈ launch.images, Known im := by
    intro im member
    obtain ⟨j, there⟩ := List.mem_iff_getElem?.mp member
    by_cases zero : j = 0
    · cases zero
      cases here.symm.trans there
      exact firstKnown
    · obtain ⟨parsed, accepted, _, dressed⟩ := (libraries j im zero there).1
      exact .inr ⟨parsed, accepted, dressed⟩
  have start : launch.Aligned ↔ BaseSuits exe target := by
    rw [at_] at firstAligned
    rw [← loadOrigin_suits chosen, ← firstAligned]
    refine ⟨fun aligned => aligned first (List.mem_of_getElem? here), fun aligned im member => ?_⟩
    obtain ⟨j, there⟩ := List.mem_iff_getElem?.mp member
    by_cases zero : j = 0
    · cases zero
      cases here.symm.trans there
      exact aligned
    · obtain ⟨library, placed⟩ := libraries j im zero there
      exact library.blocksAligned placed
  have run : (∀ im ∈ moved.images, Known im) ∧ (moved.Aligned ↔ launch.Aligned) := by
    induction moves with
    | refl => exact ⟨known, Iff.rfl⟩
    | tail _ step ih =>
      obtain ⟨now, same⟩ := moves_aligned ih.1 step
      exact ⟨now, same.trans ih.2⟩
  exact run.2.trans start

theorem blocks_aligned_moved : ∃ exe launch moved, parse relocatableApp = .ok exe ∧
    waxPlan relocatableApp [] smallTarget = .ok launch ∧ waxRebase launch 0x7000 = .ok moved ∧
      (moved.Aligned ↔ BaseSuits exe smallTarget) := by
  obtain ⟨exe, launch, moved, parsed, _, planned, rebased, _⟩ :=
    exists_move relocatableApp_moves
  exact ⟨exe, launch, moved, parsed, planned, rebased,
    blocks_aligned_iff parsed planned (.single ⟨0x7000, rebased⟩)⟩

/-- A relocatable executable whose first block begins in the middle of a multiple of the
alignment of its second. -/
def unevenApp : File :=
  ⟨bytesOf [0x57415800, 0x00030001, 0x00010006, 160, 236, 1, 0x400008, 0, 0x400008, 0x1000, 160, 2, 24, 0, 0, 16, 0, 0,
    24, 0, 0, 24, 212, 16, 1, 1, 0, 5, 1, 0, 0, 0, 208, 1, 0, 0, 0, 0, 0, 0, 0x400008, 228, 4, 4, 5, 8,
    0x401000, 232, 4, 8, 3, 16, 0x401000, 0x00617070, 0x00666F75, 0x6E646174, 0x696F6E00, 0, 0x400008], by
    rw [bytesOf_length]
    exact (by decide : 4 * 59 < 2 ^ 32)⟩

/-- The window that the kernel sizes a relocatable executable in. -/
def probeTarget : Target := ⟨ascii "foundation", 1, 0, 0x00FFF000, 0x08FFF000, 0x01000000⟩

/-- The plan succeeds with a block that is not aligned. -/
def plansUnaligned (data : File) (libs : List File) (target : Target) : Bool :=
  match waxPlan data libs target with
  | .ok launch => !decide launch.Aligned
  | .error _ => false

theorem exists_unaligned (found : plansUnaligned data libs target = true) :
    ∃ launch, waxPlan data libs target = .ok launch ∧ ¬launch.Aligned := by
  unfold plansUnaligned at found
  cases planned : waxPlan data libs target with
  | error failure =>
    rw [planned] at found
    cases found
  | ok launch =>
    rw [planned] at found
    refine ⟨launch, rfl, fun aligned => ?_⟩
    dsimp only at found
    rw [decide_eq_true aligned] at found
    cases found

/-- At the load base of the kernel its second block is 8 bytes off. -/
theorem unevenApp_unaligned : ∃ launch, waxPlan unevenApp [] probeTarget = .ok launch ∧ ¬launch.Aligned :=
  exists_unaligned (by decide +kernel)

end Src32.Wax
