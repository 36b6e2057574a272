import Mathlib.Data.List.Count
import Src32.Lib.Loop
import Src32.Wax.Dependencies
import Src32.Wax.Regions

namespace Src32.Wax

open Fallible Loop

/-!
# Planning ends

The recursion of the dependency resolution is as deep as the image table at
most, and each loop of the planner ends in the value that its model computes.
-/

/-! ## Dependencies -/

variable {target : Target} {libs : List File} {index : Nat} {r : Resolver}

/-- A failure of a resolution, other than that of an exhausted recursion. -/
theorem resolveDep_error {recurse : Nat -> Resolver -> Except Failure Resolver} {d : Word} {failure : Failure}
    (failed : resolveDep libs target recurse index r d = .error failure) :
    failure.name.isSome = true ∨ ∃ chosen, r.images.length ≠ waxMaxImages ∧
      recurse r.images.length (r.add chosen) = .error failure := by
  unfold resolveDep at failed
  dsimp only at failed
  split at failed
  · unfold fail at failed
    split_ifs at failed <;> cases failed <;> exact Or.inl rfl
  · split at failed
    · cases failed
      exact Or.inl rfl
    · next room =>
        split at failed
        · cases failed
          exact Or.inl rfl
        · next chosen _ =>
            split at failed
            · cases failed
              exact Or.inl rfl
            · split at failed
              · cases failed
                exact Or.inl rfl
              · split at failed
                · next failed' ran =>
                    cases failed
                    exact Or.inr ⟨chosen, room, ran⟩
                · cases failed

/-- The image table does not overflow. -/
theorem resolve_bounded (fuel : Nat) {next : Resolver} (bounded : r.images.length ≤ waxMaxImages)
    (ran : resolve libs target fuel index r = .ok next) :
    next.images.length ≤ waxMaxImages := by
  induction fuel generalizing index r next with
  | zero => cases ran
  | succ fuel ih =>
    obtain ⟨resolved, loop, rfl⟩ := resolve_iff.mp ran
    have kept := foldlM_invariant (motive := fun s : Resolver => s.images.length ≤ waxMaxImages) loop bounded
      fun state d later _ small step => by
        cases resolveDep_iff.mp step with
        | known found _ _ _ =>
          rw [length_setDep]
          exact small
        | added absent room provider _ _ ran =>
          rw [length_setDep]
          exact ih (by rw [length_add]; omega) ran
    exact kept

/-- Fuel for the images that are still free is enough: every failure is one of
the source. -/
theorem resolve_error (fuel : Nat) {failure : Failure} (bounded : r.images.length ≤ waxMaxImages)
    (enough : waxMaxImages < fuel + r.images.length) (failed : resolve libs target fuel index r = .error failure) :
    failure.name.isSome = true := by
  induction fuel generalizing index r failure with
  | zero => omega
  | succ fuel ih =>
    have loop : (indices (r.image index).depCount).foldlM (resolveDep libs target (resolve libs target fuel) index)
        (r.setColor index 1) = .error failure := by
      unfold resolve at failed
      split at failed
      · next ran =>
          cases failed
          exact ran
      · cases failed
    obtain ⟨state, d, ⟨small, large⟩, round⟩ := foldlM_error
      (motive := fun s : Resolver => s.images.length ≤ waxMaxImages ∧ r.images.length ≤ s.images.length) loop
      ⟨bounded, Nat.le_refl _⟩ (by
        intro state d later kept step
        have grown := (resolveDep_extends (fun _ _ _ => resolve_extends fuel) step).grows
        refine ⟨?_, Nat.le_trans kept.2 grown⟩
        cases resolveDep_iff.mp step with
        | known _ _ _ _ =>
          rw [length_setDep]
          exact kept.1
        | added _ room _ _ _ ran =>
          rw [length_setDep]
          exact resolve_bounded fuel (by rw [length_add]; omega) ran)
    rcases resolveDep_error round with named | ⟨chosen, room, ran⟩
    · exact named
    · have length := length_add state chosen
      exact ih (by omega) (by omega) ran

/-! ## Signatures -/

/-- One parameter of a signature. -/
def signatureBody (s : List Byte) : List Byte ⊕ Option (List Byte) :=
  match sigType s false with
  | none => .inr none
  | some rest => if rest.head? = some 0x2C then .inl rest.tail else .inr (some rest)

theorem prefixed_length {s p rest : List Byte} (found : prefixed s p = some rest) : rest.length ≤ s.length := by
  induction p generalizing s with
  | nil =>
    unfold prefixed at found
    cases found
    exact Nat.le_refl _
  | cons d p ih =>
    cases s with
    | nil => cases found
    | cons c s =>
      unfold prefixed at found
      split at found
      · exact Nat.le_succ_of_le (ih found)
      · cases found

theorem sigType_length {s rest : List Byte} {result : Bool} (found : sigType s result = some rest) :
    rest.length ≤ s.length := by
  unfold sigType at found
  obtain ⟨choice, member, chosen⟩ := List.exists_of_findSome?_eq_some found
  obtain ⟨name, _, same⟩ := List.mem_map.mp member
  change choice = some rest at chosen
  rw [chosen] at same
  exact prefixed_length same

theorem sigParams_runs (s : List Byte) : Runs signatureBody s (sigParams s.length s) := by
  apply runs_of_measure signatureBody sigParams (fun _ => True) List.length
  · intro fuel s
    unfold signatureBody
    rw [sigParams]
    generalize sigType s false = found
    cases found with
    | none => rfl
    | some rest =>
      dsimp only
      by_cases comma : rest.head? = some 0x2C
      · obtain ⟨more, rfl⟩ := List.head?_eq_some_iff.mp comma
        rw [if_pos comma]
        rfl
      · rw [if_neg comma]
        split
        · next none => cases none
        · next again same =>
            cases same
            exact absurd rfl comma
        · next same =>
            cases same
            rfl
  · intro s _ zero
    rw [List.length_eq_zero_iff.mp zero]
    rfl
  · intro s next _ goes
    unfold signatureBody at goes
    cases found : sigType s false with
    | none =>
      rw [found] at goes
      cases goes
    | some rest =>
      rw [found] at goes
      dsimp only at goes
      by_cases comma : rest.head? = some 0x2C
      · rw [if_pos comma] at goes
        cases goes
        obtain ⟨more, rfl⟩ := List.head?_eq_some_iff.mp comma
        have less := sigType_length found
        rw [List.length_cons] at less
        exact ⟨trivial, less⟩
      · rw [if_neg comma] at goes
        cases goes
  · trivial
  · exact Nat.le_refl _

/-! ## Exports -/

/-- One round of the search between two indices. -/
def searchBody (im : Image) (name : List Byte) (between : Word × Word) : (Word × Word) ⊕ Word :=
  if !(between.1 < between.2) then .inr 0
  else
    let mid := between.1 + (between.2 - between.1) / 2
    let e := im.exportTable + 24 * mid
    let symbol := (str im (im.word e)).getD []
    if name = symbol then .inr e
    else if strLess name symbol then .inl (between.1, mid)
    else .inl (mid + 1, between.2)

/-- The middle of two indices. -/
theorem middle_toNat {low high : Word} (less : low < high) :
    (low + (high - low) / 2).toNat = low.toNat + (high.toNat - low.toNat) / 2 := by
  have order : low.toNat < high.toNat := less
  have bound := high.isLt
  have half : ((high - low) / 2).toNat = (high.toNat - low.toNat) / 2 := by
    rw [BitVec.toNat_udiv]
    have apart : (high - low).toNat = high.toNat - low.toNat := by bv_omega
    rw [apart]
    rfl
  rw [BitVec.toNat_add, half]
  omega

theorem findExport_runs (im : Image) (name : List Byte) : Runs (searchBody im name) (0, im.exportCount) (findExport im name) := by
  have run := runs_of_measure (searchBody im name) (fun fuel between => searchExport im name fuel between.1 between.2)
    (fun _ => True) (fun between => between.2.toNat - between.1.toNat + 1)
  apply run
  · intro fuel between
    unfold searchBody
    dsimp only
    rw [searchExport]
    dsimp only
    split
    · rfl
    · split
      · rfl
      · split <;> rfl
  · intro between _ zero
    cases zero
  · intro between next _ goes
    refine ⟨trivial, ?_⟩
    unfold searchBody at goes
    dsimp only at goes
    split at goes
    · cases goes
    · next less =>
        rw [Bool.not_eq_true', decide_eq_false_iff_not, not_not] at less
        have middle := middle_toNat less
        have order : between.1.toNat < between.2.toNat := less
        split at goes
        · cases goes
        · split at goes
          · cases goes
            dsimp only
            omega
          · cases goes
            dsimp only
            have bound := between.2.isLt
            have next : (between.1 + (between.2 - between.1) / 2 + 1).toNat =
                (between.1 + (between.2 - between.1) / 2).toNat + 1 := by
              have one : (1 : Word).toNat = 1 := rfl
              rw [BitVec.toNat_add, one]
              omega
            omega
  · trivial
  · dsimp only
    have zero : (0 : Word).toNat = 0 := rfl
    omega

/-! ## Slots -/

/-- One round of first fit. -/
def slotBody (im : Image) (windowEnd : Word) (taken : List Span) (start : Word) : Word ⊕ Option Word :=
  let mask := im.align - 1
  if start > 0xFFFFFFFF - mask then .inr none
  else
    let aligned := (start + mask) &&& ~~~mask
    if im.span > windowEnd ∨ aligned > windowEnd - im.span then .inr none
    else
      match taken.find? fun t => overlaps aligned (aligned + im.span) t.start t.stop with
      | none => .inr (some aligned)
      | some t => .inl t.stop

/-- The taken ranges that end behind an address. -/
def behind (taken : List Span) (start : Word) : Nat := taken.countP fun t => decide (start < t.stop)

theorem behind_lt {taken : List Span} {t : Span} {start : Word} (member : t ∈ taken) (less : start < t.stop) :
    behind taken t.stop < behind taken start := by
  obtain ⟨before, after, rfl⟩ := List.append_of_mem member
  have fewer : ∀ taken : List Span, behind taken t.stop ≤ behind taken start := by
    intro taken
    apply List.countP_mono_left
    intro other _ beyond
    rw [decide_eq_true_iff] at beyond ⊢
    exact BitVec.lt_trans less beyond
  have one := fewer before
  have two := fewer after
  have self : ¬ decide (t.stop < t.stop) = true := by
    rw [decide_eq_true_iff]
    exact BitVec.lt_irrefl _
  unfold behind at one two ⊢
  rw [List.countP_append, List.countP_append, List.countP_cons, List.countP_cons, if_neg self,
    if_pos (decide_eq_true less)]
  omega

theorem findSlot_runs (im : Image) (windowEnd : Word) (taken : List Span) (start : Word) :
    Runs (slotBody im windowEnd taken) start (findSlot im windowEnd taken (taken.length + 1) start) := by
  apply runs_of_measure (slotBody im windowEnd taken) (findSlot im windowEnd taken) (fun _ => True)
    (fun start => behind taken start + 1)
  · intro fuel start
    unfold slotBody
    rw [findSlot]
    dsimp only
    split
    · rfl
    · split
      · rfl
      · cases taken.find? fun t =>
            overlaps ((start + (im.align - 1)) &&& ~~~(im.align - 1))
              (((start + (im.align - 1)) &&& ~~~(im.align - 1)) + im.span) t.start t.stop with
        | none => rfl
        | some t => rfl
  · intro start _ zero
    cases zero
  · intro start next _ goes
    refine ⟨trivial, ?_⟩
    unfold slotBody at goes
    dsimp only at goes
    split at goes
    · cases goes
    · next room =>
        have above := le_roundUp room
        split at goes
        · cases goes
        · split at goes
          · cases goes
          · next t found =>
              cases goes
              have hit := List.find?_some found
              rw [overlaps, Bool.and_eq_true, decide_eq_true_iff] at hit
              have less : start < t.stop := Nat.lt_of_le_of_lt above hit.1
              exact Nat.succ_lt_succ (behind_lt (List.mem_of_find?_eq_some found) less)
  · trivial
  · exact Nat.succ_le_succ List.countP_le_length

/-! ## Regions -/

/-- One round of the merge. -/
def mergeBody (state : List BlockQueue × Planning) : (List BlockQueue × Planning) ⊕ Except Failure Planning :=
  match lowest state.1 with
  | none => .inr (.ok state.2)
  | some (best, start, b) =>
    match addRegion state.2 start b with
    | none =>
      let left := ((state.1.find? fun q => q.1 = best).map fun q => q.2.2.length).getD 0
      let count := ((state.1.find? fun q => q.1 = best).map fun q => q.2.1.blocks.length).getD 0
      .inr (fail .regionLimit best (BitVec.ofNat 32 (count - left)) none)
    | some p => .inl (advance state.1 best, p)

theorem planRegions_runs (images : List Image) (p : Planning) :
    Runs mergeBody (blockQueues images, p) (mergeBlocks (images.map fun im => im.blocks.length).sum (blockQueues images) p) := by
  have run := runs_of_measure mergeBody (fun fuel state => mergeBlocks fuel state.1 state.2) (fun _ => True)
    (fun state => blocksLeft state.1)
  apply run
  · intro fuel state
    unfold mergeBody
    rw [mergeBlocks]
    cases lowest state.1 with
    | none => rfl
    | some triple =>
      obtain ⟨best, start, b⟩ := triple
      dsimp only
      cases addRegion state.2 start b with
      | none => rfl
      | some p => rfl
  · intro state _ zero
    unfold mergeBody
    cases found : lowest state.1 with
    | none => rfl
    | some triple =>
      obtain ⟨best, start, b⟩ := triple
      obtain ⟨im, rest, member, _⟩ := lowest_mem found
      have less := blocksLeft_advance member
      omega
  · intro state next _ goes
    refine ⟨trivial, ?_⟩
    unfold mergeBody at goes
    split at goes
    · cases goes
    · next best start b found =>
        split at goes
        · cases goes
        · cases goes
          obtain ⟨im, rest, member, _⟩ := lowest_mem found
          exact blocksLeft_advance member
  · trivial
  · exact Nat.le_of_eq (blocksLeft_blockQueues images)

/-! ## All of them -/

/-- No part of a plan goes on for ever: a failure of the recursion is one of the
source, so the recursion is not cut short, and each loop ends in the value of its
model. -/
structure Terminates (libs : List File) (target : Target) : Prop where
  resolution : ∀ exe failure, resolve libs target waxMaxImages 0 ⟨[exe], fun _ => 0, []⟩ = .error failure ->
    failure.name.isSome = true
  signatures : ∀ s result, Runs signatureBody s result ↔ result = sigParams s.length s
  exports : ∀ im name result, Runs (searchBody im name) (0, im.exportCount) result ↔ result = findExport im name
  slots : ∀ im windowEnd taken start result, Runs (slotBody im windowEnd taken) start result ↔
    result = findSlot im windowEnd taken (taken.length + 1) start
  regions : ∀ images p result, Runs mergeBody (blockQueues images, p) result ↔
    result = mergeBlocks (images.map fun im => im.blocks.length).sum (blockQueues images) p

theorem plan_terminates (libs : List File) (target : Target) : Terminates libs target where
  resolution := by
    intro exe failure failed
    refine resolve_error waxMaxImages ?_ ?_ failed
    · change 1 ≤ 8
      decide
    · change 8 < 8 + 1
      decide
  signatures := fun s _ => (sigParams_runs s).iff
  exports := fun im name _ => (findExport_runs im name).iff
  slots := fun im windowEnd taken start _ => (findSlot_runs im windowEnd taken start).iff
  regions := fun images p _ => (planRegions_runs images p).iff

end Src32.Wax
