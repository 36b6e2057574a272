import Src32.Wax.Layout
import Src32.Wax.Resolution

namespace Src32.Wax

open Interval
open Fallible

/-!
# Placement

First fit keeps a library inside the window and clear of every range taken
before it.  Over a whole placement the reservations of the libraries are
pairwise disjoint and clear of the executable and its stack.
-/

/-- The addresses of a taken range whose end did not wrap. -/
def spanRange (t : Span) : Interval := ⟨t.start.toNat, t.stop.toNat⟩

/-! ## First fit -/

/-- Rounding up does not go down. -/
theorem le_roundUp {start mask : Word} (room : ¬ start > 0xFFFFFFFF - mask) :
    start.toNat ≤ ((start + mask) &&& ~~~mask).toNat := by
  have whole := Word.and_not_add_and (start + mask) mask
  have part : ((start + mask) &&& mask).toNat ≤ mask.toNat := by
    rw [BitVec.toNat_and]
    exact Nat.and_le_right
  have sum : (start + mask).toNat = start.toNat + mask.toNat := by bv_omega
  omega

/-- A slot that overlaps nothing is clear of every taken range. -/
theorem apart_of_not_overlaps {slot span : Word} {t : Span} (fits : slot.toNat + span.toNat < 2 ^ 32)
    (free : ¬ overlaps slot (slot + span) t.start t.stop = true) :
    (Interval.mk slot.toNat (slot.toNat + span.toNat)).Apart (spanRange t) := by
  unfold overlaps at free
  rw [Bool.and_eq_true, decide_eq_true_iff, decide_eq_true_iff, not_and_or] at free
  unfold Apart spanRange
  dsimp only
  bv_omega

variable {target : Target} {next p : Placing} {index : Nat} {im : Image}

theorem findSlot_fits {windowEnd : Word} {taken : List Span} {fuel : Nat} {start slot : Word}
    (done : findSlot im windowEnd taken fuel start = some slot) :
    start.toNat ≤ slot.toNat ∧ slot.toNat + im.span.toNat ≤ windowEnd.toNat ∧
      ∀ t ∈ taken, (Interval.mk slot.toNat (slot.toNat + im.span.toNat)).Apart (spanRange t) := by
  induction fuel generalizing start with
  | zero => cases done
  | succ fuel ih =>
    unfold findSlot at done
    dsimp only at done
    split_ifs at done with room outside
    have above := le_roundUp room
    generalize (start + (im.align - 1)) &&& ~~~(im.align - 1) = aligned at done above outside
    cases blocked : taken.find? fun t => overlaps aligned (aligned + im.span) t.start t.stop with
    | none =>
      rw [blocked] at done
      cases done
      have fits : slot.toNat + im.span.toNat ≤ windowEnd.toNat := by bv_omega
      refine ⟨above, fits, fun t member => ?_⟩
      have free := List.find?_eq_none.mp blocked t member
      exact apart_of_not_overlaps (by omega) free
    | some t =>
      rw [blocked] at done
      have hit := List.find?_some blocked
      rw [overlaps, Bool.and_eq_true, decide_eq_true_iff] at hit
      obtain ⟨behind, rest⟩ := ih done
      have less : aligned.toNat < t.stop.toNat := hit.1
      exact ⟨by omega, rest⟩

/-! ## All libraries -/

/-- A placed library: inside the window, recorded, and clear of the fixed
ranges. -/
structure Settled (target : Target) (fixed taken : List Span) (im : Image) : Prop where
  inside : (hull im).Within ⟨target.windowStart.toNat, target.windowEnd.toNat⟩
  recorded : ∃ t ∈ taken, spanRange t = hull im
  clear : ∀ t ∈ fixed, (hull im).Apart (spanRange t)

/-- The state of a placement that has seen the indices `seen`. -/
structure Placed (target : Target) (fixed : List Span) (images : List Image) (seen : List Nat)
    (p : Placing) : Prop where
  length : p.images.length = images.length
  first : p.images[0]? = images[0]?
  dressed : ∀ (j : Nat) im, images[j]? = some im -> ∃ next, p.images[j]? = some next ∧ Dressed im next
  kept : ∀ t ∈ fixed, t ∈ p.taken
  settled : ∀ i ∈ seen, i ≠ 0 -> ∀ im, p.images[i]? = some im -> Settled target fixed p.taken im
  apart : ∀ i ∈ seen, ∀ j ∈ seen, i ≠ 0 -> j ≠ 0 -> i ≠ j -> ∀ im other, p.images[i]? = some im ->
    p.images[j]? = some other -> (hull im).Apart (hull other)

theorem placed_start (target : Target) (fixed : List Span) (images : List Image) :
    Placed target fixed images [] ⟨images, fixed⟩ where
  length := rfl
  first := rfl
  dressed := fun _ im found => ⟨im, found, Dressed.refl im⟩
  kept := fun _ member => member
  settled := fun _ member => by cases member
  apart := fun _ member => by cases member

theorem placeAt_ok {choice : Option Word} (done : placeAt p index im choice = .ok next) :
    ∃ slot, choice = some slot ∧
      next = ⟨p.images.set index { im with origin := slot }, p.taken ++ [⟨slot, slot + im.span⟩]⟩ := by
  cases choice with
  | none => cases done
  | some slot =>
    cases done
    exact ⟨slot, rfl, rfl⟩

/-- What one round does: nothing, or one library gets a slot. -/
theorem placeOne_cases (done : placeOne target p index = .ok next) :
    ((index = 0 ∨ p.images[index]? = none) ∧ p = next) ∨
      ∃ im slot, index ≠ 0 ∧ p.images[index]? = some im ∧
        findSlot im target.windowEnd p.taken (p.taken.length + 1) target.windowStart = some slot ∧
        next = ⟨p.images.set index { im with origin := slot }, p.taken ++ [⟨slot, slot + im.span⟩]⟩ := by
  unfold placeOne at done
  by_cases first : index = 0
  · rw [if_pos first] at done
    cases done
    exact Or.inl ⟨Or.inl first, rfl⟩
  · rw [if_neg first] at done
    cases found : p.images[index]? with
    | none =>
      rw [found] at done
      cases done
      exact Or.inl ⟨Or.inr rfl, rfl⟩
    | some im =>
      rw [found] at done
      obtain ⟨slot, slotted, same⟩ := placeAt_ok done
      exact Or.inr ⟨im, slot, first, rfl, slotted, same⟩

theorem Settled.append {fixed taken : List Span} (more : List Span) (settled : Settled target fixed taken im) :
    Settled target fixed (taken ++ more) im := by
  obtain ⟨t, member, same⟩ := settled.recorded
  exact ⟨settled.inside, ⟨t, List.mem_append_left _ member, same⟩, settled.clear⟩

/-- One round keeps the libraries placed before and settles its own. -/
theorem placed_step {fixed : List Span} {images : List Image} {seen : List Nat}
    (placed : Placed target fixed images seen p) (done : placeOne target p index = .ok next) :
    Placed target fixed images (index :: seen) next := by
  rcases placeOne_cases done with ⟨skipped, rfl⟩ | ⟨im, slot, library, found, slotted, rfl⟩
  · have absent : ∀ im, index ≠ 0 -> p.images[index]? ≠ some im := by
      intro im positive found
      rcases skipped with zero | none_
      · exact positive zero
      · rw [none_] at found
        cases found
    refine ⟨placed.length, placed.first, placed.dressed, placed.kept, ?_, ?_⟩
    · intro i member positive im found
      rcases List.mem_cons.mp member with rfl | old
      · exact absurd found (absent im positive)
      · exact placed.settled i old positive im found
    · intro i member j memberJ positive positiveJ different im other found foundJ
      rcases List.mem_cons.mp member with rfl | old
      · exact absurd found (absent im positive)
      · rcases List.mem_cons.mp memberJ with rfl | oldJ
        · exact absurd foundJ (absent other positiveJ)
        · exact placed.apart i old j oldJ positive positiveJ different im other found foundJ
  · obtain ⟨above, below, clear⟩ := findSlot_fits slotted
    have bound : index < p.images.length := (List.getElem?_eq_some_iff.mp found).1
    have newHull : hull { im with origin := slot } = ⟨slot.toNat, slot.toNat + im.span.toNat⟩ := rfl
    have ends : spanRange ⟨slot, slot + im.span⟩ = hull { im with origin := slot } := by
      rw [newHull, spanRange, Interval.mk.injEq]
      dsimp only
      exact ⟨rfl, by bv_omega⟩
    have mine : (p.images.set index { im with origin := slot })[index]? = some { im with origin := slot } := by
      rw [List.getElem?_set_self bound]
    have others : ∀ j, j ≠ index -> (p.images.set index { im with origin := slot })[j]? = p.images[j]? :=
      fun j different => List.getElem?_set_ne (Ne.symm different)
    -- the new reservation is clear of everything taken, so of every earlier library
    have newApart : ∀ j ∈ seen, j ≠ 0 -> ∀ other, p.images[j]? = some other ->
        (hull { im with origin := slot }).Apart (hull other) := by
      intro j member positive other foundJ
      obtain ⟨t, recorded, same⟩ := (placed.settled j member positive other foundJ).recorded
      exact same ▸ newHull ▸ clear t recorded
    refine ⟨?_, ?_, ?_, ?_, ?_, ?_⟩
    · exact (List.length_set ..).trans placed.length
    · exact (others 0 (Ne.symm library)).trans placed.first
    · intro j first present
      obtain ⟨now, kept, dressed⟩ := placed.dressed j first present
      by_cases here : j = index
      · subst here
        cases found.symm.trans kept
        exact ⟨_, mine, dressed.trans ⟨slot, im.depImage, rfl⟩⟩
      · exact ⟨now, (others j here).trans kept, dressed⟩
    · exact fun t member => List.mem_append_left _ (placed.kept t member)
    · intro i member positive now present
      by_cases here : i = index
      · subst here
        cases mine.symm.trans present
        refine ⟨⟨above, below⟩, ⟨_, List.mem_append_right _ List.mem_cons_self, ends⟩, ?_⟩
        exact fun t member => clear t (placed.kept t member)
      · rw [others i here] at present
        have old := (List.mem_cons.mp member).resolve_left here
        exact (placed.settled i old positive now present).append _
    · intro i member j memberJ positive positiveJ different now other present presentJ
      by_cases here : i = index
      · subst here
        cases mine.symm.trans present
        rw [others j (Ne.symm different)] at presentJ
        exact newApart j ((List.mem_cons.mp memberJ).resolve_left (Ne.symm different)) positiveJ other
          presentJ
      · have old := (List.mem_cons.mp member).resolve_left here
        rw [others i here] at present
        by_cases hereJ : j = index
        · subst hereJ
          cases mine.symm.trans presentJ
          exact (newApart i old positive now present).symm
        · rw [others j hereJ] at presentJ
          exact placed.apart i old j ((List.mem_cons.mp memberJ).resolve_left hereJ) positive positiveJ
            different now other present presentJ

/-- A whole placement: the executable and its stack lie in the window, and the
libraries in the order are settled. -/
theorem place_ok {delta : Word} {exe : Image} {images final : List Image} {order : List Nat}
    (done : place target delta exe images order = .ok final) :
    (∀ t ∈ exeTaken exe delta, ¬ t.start < target.windowStart ∧ ¬ t.stop > target.windowEnd) ∧
      ∃ seen p, (∀ j ∈ order, j ∈ seen) ∧ final = p.images ∧
        Placed target (exeTaken exe delta) images seen p := by
  unfold place at done
  by_cases outside : ((exeTaken exe delta).any fun t =>
      t.start < target.windowStart || t.stop > target.windowEnd) = true
  · rw [if_pos outside] at done
    cases done
  · rw [if_neg outside] at done
    refine ⟨?_, ?_⟩
    · intro t member
      rw [Bool.not_eq_true, List.any_eq_false] at outside
      have inside := outside t member
      simpa using inside
    · cases run : order.foldlM (placeOne target) ⟨images, exeTaken exe delta⟩ with
      | error failure =>
        rw [run] at done
        cases done
      | ok p =>
        rw [run] at done
        cases done
        have placed := foldlM_history (motive := Placed target (exeTaken exe delta) images) run
          (placed_start target _ images) (fun _ _ _ _ before step => placed_step before step)
        exact ⟨_, p, fun j member => List.mem_append_left _ (List.mem_reverse.mpr member), rfl, placed⟩

end Src32.Wax
