import Mathlib.Data.List.Find
import Src32.Machine.Align
import Src32.Wax.Origins
import Src32.Wax.Regions

namespace Src32.Wax

open Fallible Interval

/-!
# Planning in a moved window

First fit, the placement of the libraries and the merge of the blocks look at
the order of addresses and at their alignment.  In a window that is moved by a
multiple of every alignment, and that does not wrap, they do the same at
addresses moved as far.
-/

/-- A range moved. -/
def Span.shift (shift : Word) (t : Span) : Span := ⟨t.start + shift, t.stop + shift⟩

def Region.shift (shift : Word) (r : Region) : Region := { r with start := r.start + shift, stop := r.stop + shift }

/-- A placed image moved. -/
def Image.shift (shift : Word) (im : Image) : Image := im.at_ (im.origin + shift)

/-- The base and the window moved. -/
def Target.shift (shift : Word) (target : Target) : Target :=
  { target with
    windowStart := target.windowStart + shift
    windowEnd := target.windowEnd + shift
    loadBase := target.loadBase + shift }

/-- A queue of the merge with its image moved. -/
def BlockQueue.shift (shift : Word) (q : BlockQueue) : BlockQueue := (q.1, q.2.1.shift shift, q.2.2)

variable {shift windowEnd : Word}

/-! ## First fit -/

/-- The order of moved addresses. -/
theorem shift_lt {a b : Word} (first : a.toNat + shift.toNat < 2 ^ 32) (second : b.toNat + shift.toNat < 2 ^ 32) :
    a + shift < b + shift ↔ a < b := by
  rw [BitVec.lt_def, BitVec.lt_def, BitVec.toNat_add, BitVec.toNat_add, Nat.mod_eq_of_lt first, Nat.mod_eq_of_lt second]
  exact Nat.add_lt_add_iff_right

theorem shift_order (a span : Word) : a + span + shift = a + shift + span := by
  rw [BitVec.add_assoc, BitVec.add_comm span, ← BitVec.add_assoc]

/-- Ranges that are moved overlap if they did. -/
theorem overlaps_shift {a span : Word} {t : Span} (room : windowEnd.toNat + shift.toNat < 2 ^ 32)
    (fits : a.toNat + span.toNat ≤ windowEnd.toNat)
    (below : t.start.toNat ≤ windowEnd.toNat ∧ t.stop.toNat ≤ windowEnd.toNat) :
    overlaps (a + shift) (a + shift + span) (t.shift shift).start (t.shift shift).stop =
      overlaps a (a + span) t.start t.stop := by
  have stop : (a + span).toNat = a.toNat + span.toNat := by bv_omega
  unfold overlaps Span.shift
  dsimp only
  rw [← shift_order, decide_eq_decide.mpr (shift_lt (by omega) (by omega)), decide_eq_decide.mpr (shift_lt (by omega) (by omega))]

/-- First fit in a moved window finds the slot moved as far. -/
theorem findSlot_shift {im other : Image} (same : other.align = im.align ∧ other.span = im.span)
    (power : Align.Power im.align) (aligned : shift &&& (im.align - 1) = 0)
    (room : windowEnd.toNat + shift.toNat < 2 ^ 32) {taken : List Span}
    (below : ∀ t ∈ taken, t.start.toNat ≤ windowEnd.toNat ∧ t.stop.toNat ≤ windowEnd.toNat) {fuel : Nat} {start slot : Word}
    (done : findSlot im windowEnd taken fuel start = some slot) :
    findSlot other (windowEnd + shift) (taken.map (Span.shift shift)) fuel (start + shift) = some (slot + shift) := by
  induction fuel generalizing start with
  | zero => cases done
  | succ fuel ih =>
    unfold findSlot at done ⊢
    dsimp only at done ⊢
    rw [same.1, same.2]
    have moved : (start + shift + (im.align - 1)) &&& ~~~(im.align - 1) = Align.up im.align start + shift :=
      power.up_add aligned start
    have same_ : (start + (im.align - 1)) &&& ~~~(im.align - 1) = Align.up im.align start := rfl
    rw [moved]
    rw [same_] at done
    split_ifs at done with above outside
    have up : start.toNat ≤ (Align.up im.align start).toNat := le_roundUp above
    have multiple := power.up_room (start + shift)
    rw [power.up_add aligned] at multiple
    generalize Align.up im.align start = slot' at done outside up multiple ⊢
    have fits : slot'.toNat + im.span.toNat ≤ windowEnd.toNat := by bv_omega
    have sum : (slot' + shift).toNat = slot'.toNat + shift.toNat := by bv_omega
    have sumEnd : (windowEnd + shift).toNat = windowEnd.toNat + shift.toNat := by bv_omega
    have sumStart : (start + shift).toNat = start.toNat + shift.toNat := by bv_omega
    have above' : ¬ start + shift > 0xFFFFFFFF - (im.align - 1) := by bv_omega
    have outside' : ¬ (im.span > windowEnd + shift ∨ slot' + shift > windowEnd + shift - im.span) := by bv_omega
    rw [if_neg above', if_neg outside', List.find?_map]
    have met : ∀ t ∈ taken, ((fun t : Span => overlaps (slot' + shift) (slot' + shift + im.span) t.start t.stop) ∘
        Span.shift shift) t = overlaps slot' (slot' + im.span) t.start t.stop :=
      fun t member => overlaps_shift room fits (below t member)
    rw [List.find?_congr met]
    cases blocked : taken.find? fun t => overlaps slot' (slot' + im.span) t.start t.stop with
    | none =>
      rw [blocked] at done
      cases done
      rfl
    | some t =>
      rw [blocked] at done
      exact ih done

/-! ## All libraries -/

/-- A library whose alignment divides the shift. -/
def Movable (shift : Word) (im : Image) : Prop := Align.Power im.align ∧ shift &&& (im.align - 1) = 0

/-- A placement and the same placement in the moved window.  The executable and
the libraries that have their place are moved. -/
structure Followed (windowEnd shift : Word) (seen : List Nat) (p q : Placing) : Prop where
  taken : q.taken = p.taken.map (Span.shift shift)
  length : q.images.length = p.images.length
  images : ∀ (j : Nat) im, p.images[j]? = some im ->
    q.images[j]? = some (if j = 0 ∨ j ∈ seen then im.shift shift else im)
  below : ∀ t ∈ p.taken, t.start.toNat ≤ windowEnd.toNat ∧ t.stop.toNat ≤ windowEnd.toNat
  movable : ∀ (j : Nat) im, j ≠ 0 -> p.images[j]? = some im -> Movable shift im

/-- One round of a placement is followed in the moved window. -/
theorem Followed.placeOne {target : Target} {seen : List Nat} {p q next : Placing} {index : Nat}
    (room : target.windowEnd.toNat + shift.toNat < 2 ^ 32) (followed : Followed target.windowEnd shift seen p q)
    (done : placeOne target p index = .ok next) :
    ∃ moved, Wax.placeOne (target.shift shift) q index = .ok moved ∧
      Followed target.windowEnd shift (index :: seen) next moved := by
  unfold Wax.placeOne
  rcases placeOne_cases done with ⟨skipped, rfl⟩ | ⟨im, slot, library, found, slotted, rfl⟩
  · -- Nothing is placed, and there is no such library.
    refine ⟨q, ?_, followed.taken, followed.length, fun j im here => ?_, followed.below, followed.movable⟩
    · rcases skipped with first | absent
      · rw [if_pos first]
      · have none : q.images[index]? = none := by
          rw [List.getElem?_eq_none_iff, followed.length]
          exact List.getElem?_eq_none_iff.mp absent
        split
        · rfl
        · rw [none]
    · rw [followed.images j im here]
      by_cases same : j = index
      · subst same
        rcases skipped with first | absent
        · rw [if_pos (Or.inl first), if_pos (Or.inl first)]
        · rw [absent] at here
          cases here
      · simp only [List.mem_cons, same, false_or]
  · have movable := followed.movable index im library found
    have there := followed.images index im found
    have bound : index < p.images.length := (List.getElem?_eq_some_iff.mp found).1
    generalize other_ : (if index = 0 ∨ index ∈ seen then im.shift shift else im) = other at there
    have same : other.align = im.align ∧ other.span = im.span ∧ other.at_ (slot + shift) = im.at_ (slot + shift) := by
      rw [← other_]
      split <;> exact ⟨rfl, rfl, rfl⟩
    have again := findSlot_shift ⟨same.1, same.2.1⟩ movable.1 movable.2 room followed.below slotted
    have fits := (findSlot_fits slotted).2.1
    rw [if_neg library, there]
    dsimp only
    have length : q.taken.length = p.taken.length := by rw [followed.taken, List.length_map]
    have search : findSlot other (target.shift shift).windowEnd q.taken (q.taken.length + 1) (target.shift shift).windowStart =
        some (slot + shift) := by
      rw [length, followed.taken]
      exact again
    rw [search]
    refine ⟨_, rfl, ?_, ?_, fun j now here => ?_, fun t member => ?_, fun j now positive here => ?_⟩
    · dsimp only
      rw [followed.taken, List.map_append, same.2.1]
      congr 1
      change [_] = [Span.shift shift _]
      unfold Span.shift
      rw [shift_order]
    · dsimp only
      rw [List.length_set, List.length_set]
      exact followed.length
    · dsimp only at here ⊢
      by_cases mine : j = index
      · subst mine
        rw [List.getElem?_set_self bound] at here
        rw [List.getElem?_set_self (followed.length ▸ bound), if_pos (Or.inr List.mem_cons_self)]
        cases here
        exact congrArg some same.2.2
      · rw [List.getElem?_set_ne (Ne.symm mine)] at here ⊢
        rw [followed.images j now here]
        simp only [List.mem_cons, mine, false_or]
    · rcases List.mem_append.mp member with before | now
      · exact followed.below t before
      · rw [List.mem_singleton.mp now]
        have stop : (slot + im.span).toNat = slot.toNat + im.span.toNat := by bv_omega
        dsimp only
        omega
    · dsimp only at here
      by_cases mine : j = index
      · subst mine
        rw [List.getElem?_set_self bound] at here
        cases here
        exact movable
      · rw [List.getElem?_set_ne (Ne.symm mine)] at here
        exact followed.movable j now positive here

/-- A whole placement in the moved window. -/
theorem place_shift {target : Target} {delta : Word} {exe : Image} {images final : List Image} {order : List Nat}
    (room : target.windowEnd.toNat + shift.toNat < 2 ^ 32)
    (ranges : ∀ t ∈ exeTaken exe delta, t.start.toNat ≤ t.stop.toNat)
    (movable : ∀ (j : Nat) im, j ≠ 0 -> images[j]? = some im -> Movable shift im)
    (all : ∀ j < images.length, j ≠ 0 -> j ∈ order)
    (done : place target delta exe images order = .ok final) :
    place (target.shift shift) (delta + shift) (exe.shift shift) (images.modifyHead (Image.shift shift)) order =
      .ok (final.map (Image.shift shift)) := by
  obtain ⟨inside, _, _, _, ends, settled⟩ := place_ok done
  have lengths : final.length = images.length := by
    rw [ends]
    exact settled.length
  have spans : exeTaken (exe.shift shift) (delta + shift) = (exeTaken exe delta).map (Span.shift shift) := by
    unfold exeTaken
    change [_, _] = [Span.shift shift _, Span.shift shift _]
    unfold Span.shift
    dsimp only
    rw [shift_order exe.origin, BitVec.add_assoc _ delta, BitVec.add_assoc _ delta]
    rfl
  have below : ∀ t ∈ exeTaken exe delta, t.start.toNat ≤ target.windowEnd.toNat ∧ t.stop.toNat ≤ target.windowEnd.toNat := by
    intro t member
    have stop : t.stop.toNat ≤ target.windowEnd.toNat := Nat.le_of_not_lt (inside t member).2
    exact ⟨Nat.le_trans (ranges t member) stop, stop⟩
  unfold place at done ⊢
  rw [spans]
  have outside : ¬ (((exeTaken exe delta).map (Span.shift shift)).any fun t =>
      t.start < (target.shift shift).windowStart || t.stop > (target.shift shift).windowEnd) = true := by
    rw [Bool.not_eq_true, List.any_eq_false]
    intro moved member
    obtain ⟨t, before, rfl⟩ := List.mem_map.mp member
    have ends := below t before
    have start : target.windowStart.toNat ≤ t.start.toNat := Nat.le_of_not_lt (inside t before).1
    rw [Bool.or_eq_true, decide_eq_true_iff, decide_eq_true_iff, not_or]
    constructor
    · change ¬ t.start + shift < target.windowStart + shift
      rw [shift_lt (by omega) (by omega)]
      exact (inside t before).1
    · change ¬ target.windowEnd + shift < t.stop + shift
      rw [shift_lt (by omega) (by omega)]
      exact (inside t before).2
  rw [if_neg outside]
  split at done
  · cases done
  · cases run : order.foldlM (placeOne target) ⟨images, exeTaken exe delta⟩ with
    | error failure =>
      rw [run] at done
      cases done
    | ok p =>
      rw [run] at done
      cases done
      have begins : Followed target.windowEnd shift [] ⟨images, exeTaken exe delta⟩
          ⟨images.modifyHead (Image.shift shift), (exeTaken exe delta).map (Span.shift shift)⟩ := by
        refine ⟨rfl, List.length_modifyHead, fun j im here => ?_, below, movable⟩
        cases images with
        | nil => cases here
        | cons exe rest =>
          cases j with
          | zero =>
            cases here
            rw [if_pos (Or.inl rfl)]
            rfl
          | succ j =>
            rw [if_neg (by simp)]
            exact here
      obtain ⟨q, again, followed⟩ := foldlM_simulation (Followed target.windowEnd shift)
        (placeOne (target.shift shift)) [] run begins
        fun _ _ _ _ _ _ before step => before.placeOne room step
      rw [again]
      refine congrArg Except.ok (List.ext_getElem? fun j => ?_)
      rw [List.getElem?_map]
      cases here : p.images[j]? with
      | none =>
        rw [Option.map_none, List.getElem?_eq_none_iff, followed.length]
        exact List.getElem?_eq_none_iff.mp here
      | some im =>
        rw [Option.map_some, followed.images j im here]
        by_cases first : j = 0
        · rw [if_pos (Or.inl first)]
        · have bound : j < p.images.length := (List.getElem?_eq_some_iff.mp here).1
          have placed := all j (lengths ▸ bound) first
          rw [if_pos (Or.inr (List.mem_append_left _ (List.mem_reverse.mpr placed)))]

/-! ## Regions -/

theorem blockStart_shift (im : Image) (b : Block) : blockStart (im.shift shift) b = blockStart im b + shift := by
  unfold blockStart
  exact (shift_order im.origin (b.address - im.base)).symm

/-- The lowest block is the same one, moved. -/
theorem lowest_shift {queues : List BlockQueue}
    (room : ∀ q ∈ queues, ∀ b ∈ q.2.2, (blockStart q.2.1 b).toNat + shift.toNat < 2 ^ 32) :
    lowest (queues.map (BlockQueue.shift shift)) = (lowest queues).map fun found => (found.1, found.2.1 + shift, found.2.2) := by
  induction queues with
  | nil => rfl
  | cons q others ih =>
    have rest := ih fun q member => room q (List.mem_cons_of_mem _ member)
    obtain ⟨i, im, blocks⟩ := q
    rw [List.map_cons]
    unfold BlockQueue.shift at rest ⊢
    dsimp only at rest ⊢
    cases blocks with
    | nil =>
      unfold lowest
      exact rest
    | cons b behind =>
      unfold lowest
      rw [rest]
      cases best : lowest others with
      | none =>
        rw [blockStart_shift]
        rfl
      | some found =>
        obtain ⟨j, start, chosen⟩ := found
        obtain ⟨other, left, member, rfl⟩ := lowest_mem best
        have first := room _ List.mem_cons_self b List.mem_cons_self
        have second := room _ (List.mem_cons_of_mem _ member) chosen List.mem_cons_self
        rw [Option.map_some]
        dsimp only
        rw [blockStart_shift]
        by_cases lower : blockStart other chosen < blockStart im b
        · rw [if_pos lower, if_pos ((shift_lt second first).mpr lower)]
          rfl
        · rw [if_neg lower, if_neg (fun less => lower ((shift_lt second first).mp less))]
          rfl

/-- A merge and the same merge in the moved window; before the first block the
top is 0 in both. -/
structure MergeMoved (windowEnd shift : Word) (p q : Planning) : Prop where
  regions : q.regions = p.regions.map (Region.shift shift)
  top : q.top = p.top + shift ∨ p.top = 0 ∧ q.top = 0
  below : p.top.toNat ≤ windowEnd.toNat

theorem addRegion_shift {p q next : Planning} {start : Word} {b : Block} (room : windowEnd.toNat + shift.toNat < 2 ^ 32)
    (fits : start.toNat + b.memorySize.toNat ≤ windowEnd.toNat) (some_ : 1 ≤ b.memorySize.toNat)
    (moved : MergeMoved windowEnd shift p q) (done : addRegion p start b = some next) :
    ∃ again, addRegion q (start + shift) b = some again ∧ MergeMoved windowEnd shift next again ∧ next.top ≠ 0 := by
  unfold addRegion at done ⊢
  dsimp only at done ⊢
  have stop : (start + b.memorySize).toNat = start.toNat + b.memorySize.toNat := by bv_omega
  rw [← shift_order]
  -- The new top.
  have tops : (if start + b.memorySize + shift > q.top then start + b.memorySize + shift else q.top) =
        (if start + b.memorySize > p.top then start + b.memorySize else p.top) + shift ∧
      (if start + b.memorySize > p.top then start + b.memorySize else p.top).toNat ≤ windowEnd.toNat ∧
      (if start + b.memorySize > p.top then start + b.memorySize else p.top) ≠ 0 := by
    have below := moved.below
    rcases moved.top with top | ⟨first, second⟩
    · rw [top]
      by_cases higher : start + b.memorySize > p.top
      · rw [if_pos higher, if_pos ((shift_lt (by omega) (by omega)).mpr higher)]
        exact ⟨rfl, by omega, fun zero => by rw [zero] at stop; change 0 = _ at stop; omega⟩
      · rw [if_neg higher, if_neg (fun less => higher ((shift_lt (by omega) (by omega)).mp less))]
        refine ⟨rfl, below, fun zero => higher ?_⟩
        rw [zero]
        bv_omega
    · have more : start + b.memorySize > 0 := by bv_omega
      have moved_ : start + b.memorySize + shift > 0 := by bv_omega
      rw [first, second, if_pos more, if_pos moved_]
      exact ⟨rfl, by omega, fun zero => by rw [zero] at stop; change 0 = _ at stop; omega⟩
  rw [tops.1]
  generalize (if start + b.memorySize > p.top then start + b.memorySize else p.top) = top at done tops
  obtain ⟨_, high, positive⟩ := tops
  rw [moved.regions]
  cases regions : p.regions with
  | nil =>
    rw [regions] at done
    cases done
  | cons last rest =>
    rw [regions] at done
    dsimp only at done
    rw [List.map_cons]
    dsimp only
    have joins : (List.map (Region.shift shift) rest ≠ [] ∧ (Region.shift shift last).stop = start + shift ∧
        (Region.shift shift last).flags = b.perm) ↔ (rest ≠ [] ∧ last.stop = start ∧ last.flags = b.perm) := by
      rw [ne_eq, List.map_eq_nil_iff]
      unfold Region.shift
      dsimp only
      rw [BitVec.add_left_inj]
    have length : (Region.shift shift last :: List.map (Region.shift shift) rest).length = (last :: rest).length := by
      rw [List.length_cons, List.length_cons, List.length_map]
    rw [length]
    split_ifs at done with meets full
    · cases done
      rw [if_pos (joins.mpr meets)]
      exact ⟨_, rfl, ⟨rfl, Or.inl rfl, high⟩, positive⟩
    · cases done
      rw [if_neg (fun both => meets (joins.mp both)), if_neg full]
      exact ⟨_, rfl, ⟨rfl, Or.inl rfl, high⟩, positive⟩

/-- The blocks of a window are merged in the moved window as they were. -/
theorem mergeBlocks_shift {fuel : Nat} {queues : List BlockQueue} {p q final : Planning}
    (room : windowEnd.toNat + shift.toNat < 2 ^ 32)
    (fits : ∀ q ∈ queues, ∀ b ∈ q.2.2,
      (blockStart q.2.1 b).toNat + b.memorySize.toNat ≤ windowEnd.toNat ∧ 1 ≤ b.memorySize.toNat)
    (moved : MergeMoved windowEnd shift p q) (done : mergeBlocks fuel queues p = .ok final) :
    ∃ again, mergeBlocks fuel (queues.map (BlockQueue.shift shift)) q = .ok again ∧ MergeMoved windowEnd shift final again ∧
      (p.top ≠ 0 ∨ (0 < fuel ∧ lowest queues ≠ none) -> final.top ≠ 0) := by
  induction fuel generalizing queues p q with
  | zero =>
    cases done
    exact ⟨q, rfl, moved, fun some_ => some_.resolve_right fun both => Nat.lt_irrefl 0 both.1⟩
  | succ fuel ih =>
    unfold mergeBlocks at done ⊢
    have same := @lowest_shift shift queues fun q member b inside => by
      have bound := fits q member b inside
      omega
    rw [same]
    cases found : lowest queues with
    | none =>
      rw [found] at done
      cases done
      exact ⟨q, rfl, moved, fun some_ => some_.resolve_right fun both => both.2 rfl⟩
    | some triple =>
      obtain ⟨best, start, b⟩ := triple
      obtain ⟨im, rest, member, rfl⟩ := lowest_mem found
      rw [found] at done
      rw [Option.map_some]
      dsimp only at done ⊢
      have bound := fits _ member b List.mem_cons_self
      cases added : addRegion p (blockStart im b) b with
      | none =>
        rw [added] at done
        cases done
      | some next =>
        rw [added] at done
        obtain ⟨again, add, more, positive⟩ := addRegion_shift room bound.1 bound.2 moved added
        rw [add]
        dsimp only at done ⊢
        have queued : (queues.map (BlockQueue.shift shift)).map
            (fun q => if q.1 = best then (q.1, q.2.1, q.2.2.tail) else q) =
            (advance queues best).map (BlockQueue.shift shift) := by
          unfold advance
          rw [List.map_map, List.map_map]
          refine List.map_congr_left fun q _ => ?_
          dsimp only [Function.comp_apply]
          unfold BlockQueue.shift
          dsimp only
          split <;> rfl
        rw [queued]
        have later : ∀ q ∈ advance queues best, ∀ b ∈ q.2.2,
            (blockStart q.2.1 b).toNat + b.memorySize.toNat ≤ windowEnd.toNat ∧ 1 ≤ b.memorySize.toNat := by
          intro q inLater c left
          obtain ⟨blocks, inQueues, known⟩ := mem_advance inLater
          exact fits _ inQueues c (known c left)
        obtain ⟨end_, merged, ends, kept⟩ := ih later more done
        exact ⟨end_, merged, ends, fun _ => kept (Or.inl positive)⟩

end Src32.Wax
