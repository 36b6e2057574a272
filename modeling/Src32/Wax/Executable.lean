import Src32.Wax.Loading

namespace Src32.Wax

open Interval

/-!
# The executable at its origin

The import slots and relocations the parsers accepted lie in blocks of the
placed image.  An executable whose blocks start below the CPU-reserved area and
that is not moved above it keeps its layout at its origin, with its stack clear
of its blocks.
-/

/-! ## Slots and relocations -/

/-- The slot of import `i`, relative to its image. -/
def slotOf (im : Image) (i : Word) : Word := im.word (im.importTable + 24 * i + 12)

variable {im exe : Image} {delta : Word}

theorem v3ImportsFrom_slots (rows : List Word) {first : Bool} {slotEnd used final : Word}
    (done : v3ImportsFrom im first slotEnd used rows = some final) :
    ∀ i ∈ rows, inBlock im (slotOf im i) 8 .rw = true := by
  induction rows generalizing first slotEnd used with
  | nil =>
    intro i member
    cases member
  | cons row rest ih =>
    unfold v3ImportsFrom at done
    dsimp only at done
    split_ifs at done with fine
    simp only [Bool.and_eq_true] at fine
    intro i member
    rcases List.mem_cons.mp member with rfl | later
    · exact fine.1.2
    · exact ih done i later

theorem V3Accepted.slots (accepted : V3Accepted im) :
    ∀ i ∈ indices im.importCount, inBlock im (slotOf im i) 8 .rw = true := by
  have imports := accepted.imports
  unfold v3ImportsOk at imports
  rw [decide_eq_true_iff] at imports
  exact v3ImportsFrom_slots _ imports

/-- A use the parser allowed lies in a block of the placed image. -/
theorem inBlocks_of_inBlock (laid : Laid im) (room : im.origin.toNat + im.span.toNat ≤ 2 ^ 32) {offset len : Word}
    (inside : inBlock im offset len .rw = true) : InBlocks im (im.origin + offset) len.toNat := by
  unfold inBlock at inside
  rw [Bool.and_eq_true, List.any_eq_true] at inside
  obtain ⟨_, b, member, fits⟩ := inside
  simp only [Bool.and_eq_true, decide_eq_true_iff, reduceCtorEq, if_false] at fits
  obtain ⟨⟨⟨_, above⟩, below⟩, rest⟩ := fits
  have placed := (laid.placed room).within _ (List.mem_map_of_mem member)
  have ends : (blockStart im b).toNat + b.memorySize.toNat ≤ im.origin.toNat + im.span.toNat := placed.2
  have split : im.origin + offset = blockStart im b + (offset - (b.address - im.base)) := by
    unfold blockStart
    grind
  refine ⟨b, member, fun k bound => ?_⟩
  rw [split]
  exact inRange_add (by omega) (by bv_omega) bound

/-- An accepted relocation lies in the initialized bytes of a block. -/
structure RelocPlaced (entry : Word) (b : Block) : Prop where
  kind : ¬ relocKind entry > relocPair
  above : b.address ≤ relocAt entry
  inside : relocAt entry - b.address < b.fileSize
  room : relocLen entry ≤ b.fileSize - (relocAt entry - b.address)

theorem v3RelocsFrom_placed (rows : List Word) {first : Bool} {previous : Word} {cursor : List Block}
    (known : ∀ b ∈ cursor, b ∈ im.blocks) (done : v3RelocsFrom im first previous cursor rows = true) :
    ∀ i ∈ rows, ∃ b ∈ im.blocks, RelocPlaced (im.word (im.relocTable + 4 * i)) b := by
  induction rows generalizing first previous cursor with
  | nil =>
    intro i member
    cases member
  | cons row rest ih =>
    unfold v3RelocsFrom at done
    dsimp only at done
    rw [Bool.and_eq_true] at done
    obtain ⟨ordered, walked⟩ := done
    generalize entry : im.word (im.relocTable + 4 * row) = e at ordered walked
    cases left : cursor.dropWhile fun b =>
        decide (b.address ≤ relocAt e) && decide (b.fileSize ≤ relocAt e - b.address) with
    | nil =>
      rw [left] at walked
      cases walked
    | cons b behind =>
      rw [left, Bool.and_eq_true] at walked
      have suffix : ∀ c ∈ b :: behind, c ∈ im.blocks := by
        intro c member
        rw [← left] at member
        exact known c ((List.dropWhile_suffix _).subset member)
      have stops := List.head_dropWhile_not (fun b : Block =>
        decide (b.address ≤ relocAt e) && decide (b.fileSize ≤ relocAt e - b.address))
        (by rw [left]; exact List.cons_ne_nil b behind : cursor.dropWhile _ ≠ [])
      simp only [left, List.head_cons, Bool.and_eq_false_iff, decide_eq_false_iff_not] at stops
      intro i member
      rcases List.mem_cons.mp member with rfl | later
      · have here := walked.1
        simp only [relocInBlock, Bool.and_eq_true, Bool.not_eq_true', Bool.or_eq_false_iff,
          decide_eq_false_iff_not] at here
        simp only [Bool.not_eq_true', Bool.or_eq_false_iff, decide_eq_false_iff_not] at ordered
        have above : b.address ≤ relocAt e := by
          have notBelow := here.1.1.1
          bv_omega
        have inside := stops.resolve_left (fun no => no above)
        rw [entry]
        refine ⟨b, suffix b List.mem_cons_self, ordered.1.1.1, above, by bv_omega, ?_⟩
        have fits := here.1.1.2
        bv_omega
      · exact ih suffix walked.2 i later

/-- The flag bit a load tests is the kind the parser accepted. -/
theorem relocLen_of_pair {entry : Word} (kind : ¬ relocKind entry > relocPair) :
    (if entry &&& relocPair ≠ 0 then 8 else 4) ≤ (relocLen entry).toNat := by
  by_cases pair : entry &&& relocPair ≠ 0
  · have one : relocKind entry = relocPair := by
      have masked : relocKind entry &&& relocPair = entry &&& relocPair := by
        unfold relocKind relocPair
        rw [BitVec.and_assoc]
        rfl
      generalize relocKind entry = k at kind masked ⊢
      have cases_ : k = 0 ∨ k = 1 := by
        unfold relocPair at kind
        bv_omega
      rcases cases_ with rfl | rfl
      · exact absurd (masked.symm.trans rfl) pair
      · rfl
    rw [if_pos pair, relocLen, if_pos one]
    decide
  · rw [if_neg pair]
    unfold relocLen
    split <;> decide

/-- The relocations of an image that moved by `delta` lie in its blocks. -/
theorem relocInside_of_placed {entry : Word} (laid : Laid im) (room : im.origin.toNat + im.span.toNat ≤ 2 ^ 32)
    (moved : im.origin = im.base + delta) {b : Block} (member : b ∈ im.blocks) (placed : RelocPlaced entry b) :
    RelocInside im delta entry := by
  obtain ⟨kind, above, inside, space⟩ := placed
  have length := relocLen_of_pair kind
  have sized := (laid.sized b member).2
  have range := (laid.placed room).within _ (List.mem_map_of_mem member)
  have ends : (blockStart im b).toNat + b.memorySize.toNat ≤ im.origin.toNat + im.span.toNat := range.2
  have split : relocAt entry + delta = blockStart im b + (relocAt entry - b.address) := by
    unfold blockStart
    rw [moved]
    grind
  refine ⟨b, member, fun k bound => ?_⟩
  rw [split]
  exact inRange_add (by omega) (by bv_omega) (Nat.lt_of_lt_of_le bound length)

theorem V3Accepted.relocsPlaced (accepted : V3Accepted im) :
    ∀ entry ∈ im.relocs, ∃ b ∈ im.blocks, RelocPlaced entry b := by
  intro entry member
  obtain ⟨i, row, rfl⟩ := List.mem_map.mp member
  exact v3RelocsFrom_placed _ (fun b known => known) accepted.relocs i row

/-! ## The executable -/

/-- What keeps the executable out of the reserved area: a version 2 file starts
its blocks below it, and a relocatable one is not moved above it. -/
structure StartsBelow (data : File) (target : Target) : Prop where
  fixed : data.rd16 4 = 2 -> ∀ b ∈ (v2Fields (Image.blank data 2)).blocks, b.address ≤ cpuReserved
  moved : data.rd16 4 = 3 -> data.rd16 10 &&& flagRelocatable ≠ 0 -> target.loadBase ≤ cpuReserved

/-- The stack of an executable that moved by `delta`. -/
def exeStack (exe : Image) (delta : Word) : Interval :=
  ⟨(exe.stackTop + delta - exe.stackSize).toNat,
    (exe.stackTop + delta - exe.stackSize).toNat + exe.stackSize.toNat⟩

/-- The executable at its origin: nothing wraps, and the stack is clear of its
blocks, for version 3 of the whole reservation. -/
structure ExePlaced (exe : Image) (delta : Word) : Prop where
  laid : Laid exe
  room : exe.origin.toNat + exe.span.toNat < 2 ^ 32
  moved : exe.origin = exe.base + delta
  stack : (exeStack exe delta).stop = (exe.stackTop + delta).toNat
  clear : ∀ b ∈ exe.blocks, (exeStack exe delta).Apart (blockRange exe b)
  clearHull : exe.version = 3 -> (exeStack exe delta).Apart (hull exe)
  slots : ∀ i ∈ indices exe.importCount, inBlock exe (slotOf exe i) 8 .rw = true
  relocs : exe.relocatable = true -> ∀ entry ∈ exe.relocs, ∃ b ∈ exe.blocks, RelocPlaced entry b

theorem stack_stop {top stack : Word} (fits : ¬ stack > top) :
    (top - stack).toNat + stack.toNat = top.toNat := by
  bv_omega

theorem V2Accepted.exePlaced (accepted : V2Accepted exe) (below : ∀ b ∈ exe.blocks, b.address ≤ cpuReserved) :
    ExePlaced { exe with origin := exe.base } 0 := by
  obtain ⟨laid, bounded⟩ := accepted.laid below
  have stack := accepted.stack
  simp only [v2StackOk, Bool.and_eq_true, Bool.not_eq_true', Bool.or_eq_false_iff,
    decide_eq_false_iff_not, List.all_eq_true, Bool.and_eq_false_iff] at stack
  obtain ⟨⟨⟨_, fits⟩, _⟩, off⟩ := stack
  have whole := v2_whole accepted.version
  refine ⟨⟨laid.nonempty, laid.ascending, laid.fits, laid.sized⟩, laid.fits, (Word.add_zero _).symm, ?_,
    ?_, ?_, ?_, ?_⟩
  · unfold exeStack
    dsimp only
    rw [Word.add_zero]
    exact stack_stop fits
  · intro b member
    have stop := stack_stop fits
    have bound : b.address.toNat + b.memorySize.toNat ≤ 0xFFFF0000 := bounded b member
    have same := whole b member
    have start : blockStart { exe with origin := exe.base } b = b.address := by
      unfold blockStart
      dsimp only
      grind
    have clear := off b member
    unfold Apart exeStack blockRange
    dsimp only
    rw [Word.add_zero, start, stop]
    rw [same] at bound ⊢
    bv_omega
  · intro three
    have two : exe.version = 2 := accepted.version
    change exe.version = 3 at three
    rw [two] at three
    exact absurd three (by decide)
  · intro i member
    change i ∈ indices exe.importCount at member
    rw [accepted.importCount] at member
    cases member
  · intro relocatable
    change exe.relocatable = true at relocatable
    rw [accepted.relocatable] at relocatable
    cases relocatable

/-- Where a version 3 executable goes. -/
theorem loadOrigin_cases {target : Target} {origin : Word} (chosen : loadOrigin exe target = some (origin, delta)) :
    ((exe.relocatable = true -> target.loadBase = 0) ∧ origin = exe.base ∧ delta = 0) ∨
      (exe.relocatable = true ∧ origin = target.loadBase ∧ delta = target.loadBase - exe.base ∧
        ¬ target.loadBase < exe.stackSize ∧ ¬ exe.span > cpuReserved - target.loadBase) := by
  unfold loadOrigin at chosen
  split at chosen
  · next relocates =>
      split_ifs at chosen with refused
      cases chosen
      rw [not_or, not_or] at refused
      rw [Bool.and_eq_true] at relocates
      exact Or.inr ⟨relocates.1, rfl, rfl, refused.1, refused.2.2⟩
  · next stays =>
      cases chosen
      refine Or.inl ⟨fun relocatable => ?_, rfl, rfl⟩
      rw [relocatable, Bool.true_and, decide_eq_true_iff, not_not] at stays
      exact stays

theorem V3Accepted.exePlaced (accepted : V3Accepted exe) (kind : exe.type = typeWax) {target : Target}
    (below : exe.relocatable = true -> target.loadBase ≤ cpuReserved) {origin : Word}
    (chosen : loadOrigin exe target = some (origin, delta)) :
    ExePlaced { exe with origin := origin } delta := by
  have laid := accepted.laid
  have positive := laid.fits
  have slots := accepted.slots
  have relocs := accepted.relocsPlaced
  obtain ⟨spans, stop, after, loop, span, stack⟩ := accepted.loop
  have ends : exe.base.toNat + exe.span.toNat = stop.toNat :=
    span_of_stop span (v3Blocks_ascending (fun empty => absurd empty laid.nonempty) loop).1.le
  simp only [v3StackOk, Bool.or_eq_true, Bool.and_eq_true, Bool.not_eq_true', Bool.or_eq_false_iff,
    Bool.and_eq_false_iff, decide_eq_false_iff_not, decide_eq_true_iff] at stack
  obtain ⟨⟨⟨_, ⟨_, fits⟩⟩, off⟩, tight⟩ := stack.resolve_left (fun no => no kind)
  have geometry : origin.toNat + exe.span.toNat < 2 ^ 32 ∧ origin = exe.base + delta ∧
      (exe.stackTop + delta - exe.stackSize).toNat + exe.stackSize.toNat = (exe.stackTop + delta).toNat ∧
      ((exe.stackTop + delta).toNat ≤ origin.toNat ∨
        origin.toNat + exe.span.toNat ≤ (exe.stackTop + delta - exe.stackSize).toNat) := by
    rcases loadOrigin_cases chosen with ⟨_, rfl, rfl⟩ | ⟨relocatable, rfl, rfl, low, high⟩
    · rw [Word.add_zero, Word.add_zero]
      have whole := stack_stop fits
      exact ⟨positive, rfl, whole, by bv_omega⟩
    · have bound := below relocatable
      have top : exe.stackTop = exe.base := by
        rcases tight with no | same
        · rw [relocatable] at no
          cases no
        · exact not_not.mp same
      have placed : exe.stackTop + (target.loadBase - exe.base) = target.loadBase := by
        rw [top]
        grind
      rw [placed]
      unfold cpuReserved at high bound
      exact ⟨by bv_omega, by grind, stack_stop low, Or.inl (Nat.le_refl _)⟩
  obtain ⟨room, moved, whole, clear⟩ := geometry
  have placedLaid : Laid { exe with origin := origin } :=
    ⟨laid.nonempty, laid.ascending, laid.fits, laid.sized⟩
  have clearHull : (exeStack { exe with origin := origin } delta).Apart (hull { exe with origin := origin }) := by
    unfold Apart exeStack hull
    dsimp only
    omega
  refine ⟨placedLaid, room, moved, whole, ?_, fun _ => clearHull, slots, fun _ => relocs⟩
  intro b member
  have range := (placedLaid.placed (Nat.le_of_lt room)).within _ (List.mem_map_of_mem member)
  exact clearHull.of_within (Within.refl _) range

end Src32.Wax
