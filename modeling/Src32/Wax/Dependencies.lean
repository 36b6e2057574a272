import Src32.Lib.PostOrder
import Src32.Wax.Providers

namespace Src32.Wax

open Fallible PostOrder
open BitVec (ofNat)

/-!
# The dependency graph

While dependencies are resolved, the images that are done are exactly those in
the order, each behind its own dependencies, and each dependency of theirs is
met.  An image whose dependencies resolve is never met again, which excludes
cycles.
-/

variable {libs : List File} {target : Target} {r next : Resolver} {index : Nat}

/-! ## Images of a resolver -/

theorem length_setDep (r : Resolver) (index j : Nat) : (r.setDep index j).images.length = r.images.length :=
  List.length_modify ..

variable {id : List Byte} {j k : Nat}

theorem image_setDep_self (inside : index < r.images.length) :
    (r.setDep index j).image index = { r.image index with depImage := (r.image index).depImage ++ [j] } := by
  unfold Resolver.image Resolver.setDep
  dsimp only
  rw [List.getD_eq_getElem?_getD, List.getD_eq_getElem?_getD, List.getElem?_modify, List.getElem?_eq_getElem inside]
  change (if index = index then _ else _) = _
  rw [if_pos rfl]
  rfl

theorem image_setDep_other (other : k ≠ index) : (r.setDep index j).image k = r.image k := by
  unfold Resolver.image Resolver.setDep
  dsimp only
  rw [List.getD_eq_getElem?_getD, List.getD_eq_getElem?_getD, List.getElem?_modify]
  cases r.images[k]? with
  | none => rfl
  | some im =>
    change (if index = k then _ else _) = _
    rw [if_neg (Ne.symm other)]
    rfl

theorem length_add (r : Resolver) (chosen : Image) : (r.add chosen).images.length = r.images.length + 1 := by
  change (r.images ++ [chosen]).length = _
  rw [List.length_append, List.length_singleton]

theorem image_add_old {chosen : Image} (inside : k < r.images.length) : (r.add chosen).image k = r.image k := by
  unfold Resolver.image
  change (r.images ++ [chosen]).getD k _ = _
  rw [List.getD_eq_getElem?_getD, List.getD_eq_getElem?_getD, List.getElem?_append_left inside]

theorem image_add_new (r : Resolver) (chosen : Image) : (r.add chosen).image r.images.length = chosen := by
  unfold Resolver.image
  change (r.images ++ [chosen]).getD r.images.length _ = _
  rw [List.getD_eq_getElem?_getD, List.getElem?_concat_length]
  rfl

theorem image_beyond (beyond : r.images.length ≤ k) : (r.image k).depImage = [] := by
  unfold Resolver.image
  rw [List.getD_eq_getElem?_getD, List.getElem?_eq_none beyond]
  rfl

/-- The indices of the libraries. -/
theorem mem_libraries (n j : Nat) : j ∈ (List.range n).drop 1 ↔ 1 ≤ j ∧ j < n := by
  cases n with
  | zero =>
    constructor
    · intro member
      cases member
    · intro bounds
      omega
  | succ n =>
    rw [List.range_succ_eq_map, List.drop_one, List.tail_cons, List.mem_map]
    constructor
    · rintro ⟨i, member, rfl⟩
      have inside := List.mem_range.mp member
      omega
    · intro bounds
      exact ⟨j - 1, List.mem_range.mpr (by omega), by omega⟩

/-- The entries a loop over a table runs through. -/
theorem getElem?_indices {count d : Word} {i : Nat} (found : (indices count)[i]? = some d) : d = ofNat 32 i := by
  unfold indices at found
  rw [List.getElem?_map, Option.map_eq_some_iff] at found
  obtain ⟨n, inside, rfl⟩ := found
  obtain ⟨_, same⟩ := List.getElem?_eq_some_iff.mp inside
  rw [List.getElem_range] at same
  rw [same]

theorem length_indices (count : Word) : (indices count).length = count.toNat := by
  unfold indices
  rw [List.length_map, List.length_range]

theorem find_some (found : r.find id = some j) :
    1 ≤ j ∧ j < r.images.length ∧ str (r.image j) (r.image j).imageId = some id := by
  unfold Resolver.find at found
  have named := List.find?_some found
  rw [decide_eq_true_iff] at named
  have bounds := (mem_libraries _ _).mp (List.mem_of_find?_eq_some found)
  exact ⟨bounds.1, bounds.2, named⟩

theorem find_none (absent : r.find id = none) (library : 1 ≤ j) (inside : j < r.images.length) :
    str (r.image j) (r.image j).imageId ≠ some id := by
  unfold Resolver.find at absent
  have missed := List.find?_eq_none.mp absent j ((mem_libraries _ _).mpr ⟨library, inside⟩)
  rw [decide_eq_true_iff] at missed
  exact missed

/-- Two choices of dependencies for every image. -/
theorem image_setDep_chosen (r : Resolver) (index j k : Nat) : Chosen (r.image k) ((r.setDep index j).image k) := by
  by_cases same : k = index
  · subst same
    by_cases inside : k < r.images.length
    · rw [image_setDep_self inside]
      exact ⟨_, rfl⟩
    · unfold Resolver.image
      rw [List.getD_eq_getElem?_getD, List.getD_eq_getElem?_getD, List.getElem?_eq_none (Nat.le_of_not_lt inside),
        List.getElem?_eq_none (by rw [length_setDep]; exact Nat.le_of_not_lt inside)]
      exact Chosen.refl _
  · rw [image_setDep_other same]
    exact Chosen.refl _

theorem color_setColor_other {value : Nat} (other : k ≠ index) : (r.setColor index value).color k = r.color k :=
  if_neg other

theorem color_setColor_self (r : Resolver) (index value : Nat) : (r.setColor index value).color index = value :=
  if_pos rfl

/-! ## Met dependencies -/

/-- `pr` is a library that meets dependency `d` of `im`. -/
structure Meets (im pr : Image) (d : Word) : Prop where
  named : str pr pr.imageId = some (wanted im d)
  major : pr.abiMajor = wantedMajor im d
  minor : ¬ pr.abiMinor < wantedMinor im d

theorem Meets.chosen {im pr im' pr' : Image} {d : Word} (meets : Meets im pr d) (one : Chosen im im') (two : Chosen pr pr') :
    Meets im' pr' d := by
  obtain ⟨_, rfl⟩ := one
  obtain ⟨_, rfl⟩ := two
  exact ⟨meets.named, meets.major, meets.minor⟩

/-- The library at `j` is done and meets dependency `d` of image `i`. -/
structure Suits (r : Resolver) (i j : Nat) (d : Word) : Prop where
  library : 1 ≤ j
  inside : j < r.images.length
  finished : r.color j = 2
  met : Meets (r.image i) (r.image j) d

/-- The first `done` dependencies of image `i` are met. -/
structure Linked (r : Resolver) (i done : Nat) : Prop where
  length : (r.image i).depImage.length = done
  suits : ∀ (d j : Nat), (r.image i).depImage[d]? = some j -> Suits r i j (ofNat 32 d)

/-- The images that are done are in the order, behind their dependencies, and
every library is the provider of its own name and major. -/
structure Good (libs : List File) (r : Resolver) : Prop where
  colored : ∀ j, j < r.images.length -> r.color j = 1 ∨ r.color j = 2
  ordered : ∀ j, j ∈ r.order ↔ j < r.images.length ∧ r.color j = 2
  nodup : r.order.Nodup
  sorted : Sorted (fun j => (r.image j).depImage) r.order
  linked : ∀ j, j < r.images.length -> r.color j = 2 -> Linked r j (r.image j).depCount.toNat
  single : ∀ j k, 1 ≤ j -> j < r.images.length -> 1 ≤ k -> k < r.images.length ->
    str (r.image j) (r.image j).imageId = str (r.image k) (r.image k).imageId -> j = k
  provided : ∀ j, 1 ≤ j -> j < r.images.length ->
    ∃ id major im, IsProvider libs id major im ∧ Chosen im (r.image j)

/-- A dependency edge. -/
def Edge (r : Resolver) (i j : Nat) : Prop := j ∈ (r.image i).depImage

/-- What the resolution of `index` changes: it chooses its dependencies, and
the images it adds are done and reached from it. -/
structure Grown (r next : Resolver) (index : Nat) : Prop where
  grows : r.images.length ≤ next.images.length
  same : ∀ j, j < r.images.length -> j ≠ index -> next.image j = r.image j ∧ next.color j = r.color j
  chosen : Chosen (r.image index) (next.image index)
  fresh : ∀ j, r.images.length ≤ j -> j < next.images.length ->
    next.color j = 2 ∧ Relation.ReflTransGen (Edge next) index j

/-- The dependencies of `index` up to `done` are resolved, and it is not done
itself. -/
structure Midway (libs : List File) (r next : Resolver) (index done : Nat) : Prop where
  good : Good libs next
  pending : next.color index = 1
  inside : index < next.images.length
  linked : Linked next index done
  grown : Grown r next index

theorem Edge.inside {i : Nat} (edge : Edge r i j) : i < r.images.length := by
  by_contra beyond
  unfold Edge at edge
  rw [image_beyond (Nat.le_of_not_lt beyond)] at edge
  cases edge

/-! ## One chosen dependency -/

variable {i j k done : Nat} {d : Word}

theorem Suits.setDep (suits : Suits r i j d) (index k : Nat) : Suits (r.setDep index k) i j d where
  library := suits.library
  inside := by
    rw [length_setDep]
    exact suits.inside
  finished := suits.finished
  met := suits.met.chosen (image_setDep_chosen r index k i) (image_setDep_chosen r index k j)

theorem Linked.setDep_other (linked : Linked r i done) (other : i ≠ index) (k : Nat) : Linked (r.setDep index k) i done := by
  refine ⟨?_, fun d j found => ?_⟩
  · rw [image_setDep_other other]
    exact linked.length
  · rw [image_setDep_other other] at found
    exact (linked.suits d j found).setDep index k

/-- The next dependency of an image is met. -/
theorem Linked.setDep (linked : Linked r index done) (inside : index < r.images.length)
    (suits : Suits r index j (ofNat 32 done)) : Linked (r.setDep index j) index (done + 1) := by
  refine ⟨?_, fun d k found => ?_⟩
  · rw [image_setDep_self inside]
    change ((r.image index).depImage ++ [j]).length = _
    rw [List.length_append, linked.length, List.length_singleton]
  · rw [image_setDep_self inside] at found
    change ((r.image index).depImage ++ [j])[d]? = some k at found
    rcases getElem?_append_single found with old | ⟨last, rfl⟩
    · exact (linked.suits d k old).setDep index j
    · rw [last, linked.length]
      exact suits.setDep index k

/-- The dependencies of an image that is not done do not matter. -/
theorem Good.setDep (good : Good libs r) (pending : r.color index = 1) (j : Nat) : Good libs (r.setDep index j) := by
  have other : ∀ k, r.color k = 2 -> k ≠ index := by
    rintro k finished rfl
    rw [pending] at finished
    cases finished
  have named : ∀ k, str ((r.setDep index j).image k) ((r.setDep index j).image k).imageId =
      str (r.image k) (r.image k).imageId := by
    intro k
    obtain ⟨_, same⟩ := image_setDep_chosen r index j k
    rw [same]
    rfl
  constructor
  case colored =>
    intro k inside
    rw [length_setDep] at inside
    exact good.colored k inside
  case ordered =>
    intro k
    rw [length_setDep]
    exact good.ordered k
  case nodup => exact good.nodup
  case sorted =>
    apply good.sorted.congr
    intro k member
    have finished := ((good.ordered k).mp member).2
    exact congrArg Image.depImage (image_setDep_other (other k finished))
  case linked =>
    intro k inside finished
    rw [length_setDep] at inside
    rw [image_setDep_other (other k finished)]
    exact (good.linked k inside finished).setDep_other (other k finished) j
  case single =>
    intro i k first inside second insideToo same
    rw [length_setDep] at inside insideToo
    rw [named, named] at same
    exact good.single i k first inside second insideToo same
  case provided =>
    intro k library inside
    rw [length_setDep] at inside
    obtain ⟨id, major, im, provider, chosen⟩ := good.provided k library inside
    exact ⟨id, major, im, provider, chosen.trans (image_setDep_chosen r index j k)⟩

theorem Edge.setDep (edge : Edge r i k) (index j : Nat) : Edge (r.setDep index j) i k := by
  have inside := edge.inside
  unfold Edge at edge ⊢
  by_cases same : i = index
  · subst same
    rw [image_setDep_self inside]
    exact List.mem_append_left _ edge
  · rw [image_setDep_other same]
    exact edge

theorem edge_setDep (inside : index < r.images.length) (j : Nat) : Edge (r.setDep index j) index j := by
  unfold Edge
  rw [image_setDep_self inside]
  exact List.mem_append_right _ List.mem_cons_self

theorem Grown.setDep (grown : Grown r next index) (j : Nat) : Grown r (next.setDep index j) index where
  grows := by
    rw [length_setDep]
    exact grown.grows
  same := by
    intro k inside other
    rw [image_setDep_other other]
    exact grown.same k inside other
  chosen := grown.chosen.trans (image_setDep_chosen next index j index)
  fresh := by
    intro k beyond inside
    rw [length_setDep] at inside
    obtain ⟨finished, path⟩ := grown.fresh k beyond inside
    exact ⟨finished, Relation.ReflTransGen.mono (fun _ _ edge => Edge.setDep edge index j) _ _ path⟩

/-- A library of the launch that is done meets the next dependency. -/
theorem Midway.known (midway : Midway libs r next index done) (suits : Suits next index j (ofNat 32 done)) :
    Midway libs r (next.setDep index j) index (done + 1) where
  good := midway.good.setDep midway.pending j
  pending := midway.pending
  inside := by
    rw [length_setDep]
    exact midway.inside
  linked := midway.linked.setDep midway.inside suits
  grown := midway.grown.setDep j

/-! ## An added library -/

/-- A provider starts without dependencies. -/
theorem parse_depImage {data : File} {im : Image} (accepted : parse data = .ok im) : im.depImage = [] := by
  rcases parse_accepted accepted with ⟨_, ⟨_, rfl⟩, _⟩ | ⟨_, ⟨_, _, rfl⟩, _⟩
  · rfl
  · rfl

/-- A resolver is ready for the library that it just added. -/
theorem Good.add (good : Good libs r) {major : Word} {chosen : Image} (provider : IsProvider libs id major chosen)
    (absent : r.find id = none) : Good libs ((r.add chosen).setColor r.images.length 1) := by
  have length : ((r.add chosen).setColor r.images.length 1).images.length = r.images.length + 1 := length_add r chosen
  have old : ∀ k, k < r.images.length -> ((r.add chosen).setColor r.images.length 1).image k = r.image k :=
    fun k inside => image_add_old inside
  have new : ((r.add chosen).setColor r.images.length 1).image r.images.length = chosen := image_add_new r chosen
  have colors : ∀ k, k ≠ r.images.length -> ((r.add chosen).setColor r.images.length 1).color k = r.color k := by
    intro k other
    rw [color_setColor_other other]
    exact color_setColor_other other
  have named : str chosen chosen.imageId = some id := by
    obtain ⟨_, _, _, provides, _⟩ := provider
    exact provides.2.2.2.2
  have pending := color_setColor_self (r.add chosen) r.images.length 1
  constructor
  case colored =>
    intro k inside
    rw [length] at inside
    by_cases last : k = r.images.length
    · rw [last]
      exact Or.inl pending
    · rw [colors k last]
      exact good.colored k (by omega)
  case ordered =>
    intro k
    rw [length]
    change k ∈ r.order ↔ _
    rw [good.ordered k]
    by_cases last : k = r.images.length
    · rw [last, pending]
      constructor
      · intro inside
        exact absurd inside.1 (Nat.lt_irrefl _)
      · intro inside
        exact absurd inside.2 (by decide)
    · rw [colors k last]
      constructor
      · intro inside
        exact ⟨by omega, inside.2⟩
      · intro inside
        exact ⟨by omega, inside.2⟩
  case nodup => exact good.nodup
  case sorted =>
    apply good.sorted.congr
    intro k member
    exact congrArg Image.depImage (old k ((good.ordered k).mp member).1)
  case linked =>
    intro k inside finished
    rw [length] at inside
    have other : k ≠ r.images.length := by
      rintro rfl
      rw [pending] at finished
      cases finished
    rw [colors k other] at finished
    have before : k < r.images.length := by omega
    obtain ⟨count, suits⟩ := good.linked k before finished
    refine ⟨?_, fun d j found => ?_⟩
    · rw [old k before]
      exact count
    · rw [old k before] at found
      have suit := suits d j found
      have earlier := suit.inside
      refine ⟨suit.library, by rw [length]; omega, ?_, ?_⟩
      · rw [colors j (by omega)]
        exact suit.finished
      · rw [old k before, old j earlier]
        exact suit.met
  case single =>
    intro i k first inside second insideToo same
    rw [length] at inside insideToo
    -- No library had the name of the new one.
    by_cases last : i = r.images.length
    · by_cases lastToo : k = r.images.length
      · rw [last, lastToo]
      · rw [last, new, old k (by omega), named] at same
        exact absurd same.symm (find_none absent second (by omega))
    · by_cases lastToo : k = r.images.length
      · rw [lastToo, new, old i (by omega), named] at same
        exact absurd same (find_none absent first (by omega))
      · rw [old i (by omega), old k (by omega)] at same
        exact good.single i k first (by omega) second (by omega) same
  case provided =>
    intro k library inside
    rw [length] at inside
    by_cases last : k = r.images.length
    · rw [last, new]
      exact ⟨id, major, chosen, provider, Chosen.refl chosen⟩
    · rw [old k (by omega)]
      exact good.provided k library (by omega)

/-- An added library meets the dependency it was added for. -/
theorem Midway.added (midway : Midway libs r next index done) {resolved : Resolver} {chosen : Image}
    (provider : IsProvider libs (wanted (next.image index) (ofNat 32 done))
      (wantedMajor (next.image index) (ofNat 32 done)) chosen)
    (minor : ¬ chosen.abiMinor < wantedMinor (next.image index) (ofNat 32 done)) (good : Good libs resolved)
    (finished : resolved.color next.images.length = 2) (grown : Grown (next.add chosen) resolved next.images.length) :
    Midway libs r (resolved.setDep index next.images.length) index (done + 1) := by
  have inside := midway.inside
  have length := length_add next chosen
  have grows := grown.grows
  have apart : index ≠ next.images.length := Nat.ne_of_lt inside
  -- What was there before is still there.
  have kept : ∀ k, k < next.images.length -> resolved.image k = next.image k ∧ resolved.color k = next.color k := by
    intro k before
    obtain ⟨image, color⟩ := grown.same k (by omega) (Nat.ne_of_lt before)
    refine ⟨image.trans (image_add_old before), color.trans (color_setColor_other (Nat.ne_of_lt before))⟩
  have pending : resolved.color index = 1 := (kept index inside).2.trans midway.pending
  have insideToo : index < resolved.images.length := by omega
  have linked : Linked resolved index done := by
    refine ⟨?_, fun d k found => ?_⟩
    · rw [(kept index inside).1]
      exact midway.linked.length
    · rw [(kept index inside).1] at found
      have suit := midway.linked.suits d k found
      have before := suit.inside
      refine ⟨suit.library, by omega, (kept k before).2.trans suit.finished, ?_⟩
      rw [(kept index inside).1, (kept k before).1]
      exact suit.met
  have suits : Suits resolved index next.images.length (ofNat 32 done) := by
    refine ⟨by omega, by omega, finished, ?_⟩
    obtain ⟨_, _, _, provides, _⟩ := provider
    have met : Meets (next.image index) chosen (ofNat 32 done) := ⟨provides.2.2.2.2, provides.2.2.2.1, minor⟩
    have same := grown.chosen
    rw [image_add_new] at same
    rw [(kept index inside).1]
    exact met.chosen (Chosen.refl _) same
  have edges : ∀ a b, Edge next a b -> Edge (resolved.setDep index next.images.length) a b := by
    intro a b edge
    apply Edge.setDep
    unfold Edge
    rw [(kept a edge.inside).1]
    exact edge
  constructor
  case good => exact good.setDep pending _
  case pending => exact pending
  case inside =>
    rw [length_setDep]
    exact insideToo
  case linked => exact linked.setDep insideToo suits
  case grown =>
    have before := midway.grown.grows
    constructor
    case grows =>
      rw [length_setDep]
      omega
    case same =>
      intro k old other
      obtain ⟨image, color⟩ := midway.grown.same k old other
      rw [image_setDep_other other]
      exact ⟨(kept k (by omega)).1.trans image, (kept k (by omega)).2.trans color⟩
    case chosen =>
      have same := midway.grown.chosen
      rw [← (kept index inside).1] at same
      exact same.trans (image_setDep_chosen resolved index _ index)
    case fresh =>
      intro k beyond within
      rw [length_setDep] at within
      have step := edge_setDep insideToo next.images.length
      by_cases old : k < next.images.length
      · obtain ⟨done, path⟩ := midway.grown.fresh k beyond old
        exact ⟨(kept k old).2.trans done, Relation.ReflTransGen.mono edges _ _ path⟩
      · by_cases here : k = next.images.length
        · rw [here]
          exact ⟨finished, Relation.ReflTransGen.single step⟩
        · obtain ⟨done, path⟩ := grown.fresh k (by omega) within
          refine ⟨done, Relation.ReflTransGen.head step ?_⟩
          exact Relation.ReflTransGen.mono (fun _ _ edge => Edge.setDep edge index _) _ _ path

/-! ## Resolution -/

/-- What a resolution of `index` is to do. -/
def Resolves (libs : List File) (index : Nat) (r next : Resolver) : Prop :=
  Good libs (r.setColor index 1) -> index < r.images.length -> (r.image index).depImage = [] ->
    Good libs next ∧ next.color index = 2 ∧ Grown r next index

/-- One dependency is met, when the recursion resolves what it is given. -/
theorem Midway.step (midway : Midway libs r next index done) {recurse : Nat -> Resolver -> Except Failure Resolver}
    {final : Resolver} (sound : ∀ i s t, recurse i s = .ok t -> Resolves libs i s t)
    (step : DepStep libs target recurse index next (ofNat 32 done) final) :
    Midway libs r final index (done + 1) := by
  cases step with
  | known found pending major minor =>
    obtain ⟨library, inside, named⟩ := find_some found
    have finished := (midway.good.colored _ inside).resolve_left pending
    exact midway.known ⟨library, inside, finished, named, major, minor⟩
  | added absent _ provider minor _ ran =>
    rcases chooseProvider_cases libs (wanted (next.image index) (ofNat 32 done))
      (wantedMajor (next.image index) (ofNat 32 done)) with ⟨empty, _⟩ | ⟨im, found, chosen⟩
    · rw [empty] at provider
      cases provider
    · cases found.symm.trans provider
      obtain ⟨_, _, _, provides, _⟩ := id chosen
      obtain ⟨good, finished, grown⟩ := sound _ _ _ ran (midway.good.add chosen absent)
        (by rw [length_add]; exact Nat.lt_succ_self _)
        (by rw [image_add_new]; exact parse_depImage provides.1)
      exact midway.added chosen minor good finished grown

/-- An image is done when all of its dependencies are met. -/
theorem Midway.finish (midway : Midway libs r next index (r.image index).depCount.toNat) :
    Good libs (next.finish index) ∧ (next.finish index).color index = 2 ∧ Grown r (next.finish index) index := by
  have good := midway.good
  have self : (next.finish index).color index = 2 := color_setColor_self next index 2
  have other : ∀ k, k ≠ index -> (next.finish index).color k = next.color k := fun k apart => color_setColor_other apart
  have kept : ∀ k, next.color k = 2 -> (next.finish index).color k = 2 := by
    intro k finished
    by_cases same : k = index
    · rw [same]
      exact self
    · exact (other k same).trans finished
  have absent : index ∉ next.order := by
    intro member
    have finished := ((good.ordered index).mp member).2
    rw [midway.pending] at finished
    cases finished
  have relink : ∀ k count, Linked next k count -> Linked (next.finish index) k count := by
    intro k count linked
    refine ⟨linked.length, fun d j found => ?_⟩
    have suit := linked.suits d j found
    exact ⟨suit.library, suit.inside, kept j suit.finished, suit.met⟩
  refine ⟨?_, self, midway.grown.grows, ?_, midway.grown.chosen, ?_⟩
  · constructor
    case colored =>
      intro k inside
      by_cases same : k = index
      · rw [same]
        exact Or.inr self
      · rw [other k same]
        exact good.colored k inside
    case ordered =>
      intro k
      change k ∈ next.order ++ [index] ↔ _ ∧ _
      rw [List.mem_append, List.mem_singleton, good.ordered k]
      by_cases same : k = index
      · rw [same]
        exact ⟨fun _ => ⟨midway.inside, self⟩, fun _ => Or.inr rfl⟩
      · rw [other k same]
        exact ⟨fun choice => choice.resolve_right same, Or.inl⟩
    case nodup =>
      change (next.order ++ [index]).Nodup
      rw [List.nodup_append]
      refine ⟨good.nodup, List.nodup_singleton index, ?_⟩
      rintro a member b last rfl
      rw [List.mem_singleton.mp last] at member
      exact absent member
    case sorted =>
      apply good.sorted.append
      intro k member
      obtain ⟨d, found⟩ := List.mem_iff_getElem?.mp member
      have suit := midway.linked.suits d k found
      exact (good.ordered k).mpr ⟨suit.inside, suit.finished⟩
    case linked =>
      intro k inside finished
      by_cases same : k = index
      · rw [same]
        apply relink
        obtain ⟨_, image⟩ := midway.grown.chosen
        change Linked next index (next.image index).depCount.toNat
        have count : (next.image index).depCount = (r.image index).depCount := by
          rw [image]
        rw [count]
        exact midway.linked
      · rw [other k same] at finished
        exact relink k _ (good.linked k inside finished)
    case single => exact good.single
    case provided => exact good.provided
  · intro k inside apart
    rw [other k apart]
    exact midway.grown.same k inside apart
  · intro k beyond inside
    obtain ⟨finished, path⟩ := midway.grown.fresh k beyond inside
    exact ⟨kept k finished, path⟩

/-- A resolution starts with no dependency met. -/
theorem midway_start (good : Good libs (r.setColor index 1)) (inside : index < r.images.length)
    (empty : (r.image index).depImage = []) : Midway libs r (r.setColor index 1) index 0 where
  good := good
  pending := color_setColor_self r index 1
  inside := inside
  linked := by
    refine ⟨?_, fun d j found => ?_⟩
    · change (r.image index).depImage.length = 0
      rw [empty, List.length_nil]
    · change (r.image index).depImage[d]? = some j at found
      rw [empty] at found
      cases found
  grown := by
    refine ⟨Nat.le_refl _, fun k _ other => ⟨rfl, color_setColor_other other⟩, Chosen.refl _, fun k beyond within => ?_⟩
    change k < r.images.length at within
    omega

/-- A resolution that succeeds meets every dependency of its image and of the
images it adds. -/
theorem resolve_resolves (fuel : Nat) (ran : resolve libs target fuel index r = .ok next) : Resolves libs index r next := by
  induction fuel generalizing index r next with
  | zero => cases ran
  | succ fuel ih =>
    intro good inside empty
    obtain ⟨resolved, loop, rfl⟩ := resolve_iff.mp ran
    let motive done next := Midway libs r next index done
    have midway := foldlM_indexed (motive := motive) 0 loop (midway_start good inside empty)
      (fun i state d later found midway step => by
        rw [Nat.zero_add] at midway ⊢
        rw [getElem?_indices found] at step
        exact midway.step (fun _ _ _ => ih) (resolveDep_iff.mp step))
    rw [length_indices, Nat.zero_add] at midway
    exact midway.finish

/-- The resolver that a plan starts with is ready for the executable. -/
theorem good_start (exe : Image) : Good libs ((⟨[exe], fun _ => 0, []⟩ : Resolver).setColor 0 1) where
  colored := by
    intro j inside
    change j < 1 at inside
    rw [Nat.lt_one_iff.mp inside]
    exact Or.inl rfl
  ordered := by
    intro j
    constructor
    · intro member
      cases member
    · rintro ⟨inside, finished⟩
      change j < 1 at inside
      rw [Nat.lt_one_iff.mp inside] at finished
      cases finished
  nodup := List.nodup_nil
  sorted := sorted_nil
  linked := by
    intro j inside finished
    change j < 1 at inside
    rw [Nat.lt_one_iff.mp inside] at finished
    cases finished
  single := by
    intro j k first inside
    change j < 1 at inside
    omega
  provided := by
    intro j first inside
    change j < 1 at inside
    omega

end Src32.Wax
