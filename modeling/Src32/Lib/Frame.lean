import Mathlib.Algebra.Order.Ring.Nat
import Mathlib.Data.List.Basic

namespace Src32

/-!
# Frames

A step of a store frames a set of addresses when it changes nothing outside of
it.  Frames compose, grow and run through loops, so the frame of a program is
the union of the frames of its writes.
-/

/-- `next` is `mem` outside of `touched`. -/
def Frame {α β : Type} (touched : α -> Prop) (mem next : α -> β) : Prop :=
  ∀ a, ¬ touched a -> next a = mem a

namespace Frame

variable {α β ι : Type} {touched wider : α -> Prop} {mem next last : α -> β}

theorem refl (touched : α -> Prop) (mem : α -> β) : Frame touched mem mem := fun _ _ => rfl

theorem trans (first : Frame touched mem next) (second : Frame touched next last) :
    Frame touched mem last := fun a outside => (second a outside).trans (first a outside)

theorem mono (frame : Frame touched mem next) (grows : ∀ a, touched a -> wider a) :
    Frame wider mem next := fun a outside => frame a fun inside => outside (grows a inside)

/-- A changed address is one of the touched ones. -/
theorem touched_of_ne (frame : Frame touched mem next) {a : α} (changed : next a ≠ mem a) : touched a := by
  by_contra outside
  exact changed (frame a outside)

/-- A loop frames what all of its rounds frame. -/
theorem foldl {round : (α -> β) -> ι -> α -> β} (items : List ι)
    (each : ∀ item ∈ items, ∀ mem, Frame touched mem (round mem item)) (mem : α -> β) :
    Frame touched mem (items.foldl round mem) := by
  induction items generalizing mem with
  | nil => exact refl touched mem
  | cons item rest ih =>
    have first := each item List.mem_cons_self mem
    exact first.trans (ih (fun other member => each other (List.mem_cons_of_mem item member)) _)

end Frame
end Src32
