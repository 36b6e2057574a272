import Mathlib.Algebra.Order.BigOperators.Group.List
import Src32.Wax.Confinement

namespace Src32.Wax

open Interval

/-!
# Protection regions of a plan

The region list is the stack followed by the merged blocks of all images.  The
merge visits every block, so its top is the highest end of a block, and each
region it builds lies where its blocks do.
-/

/-- A queue of the merge: the index of an image, the image, and the blocks of
it that are left. -/
abbrev BlockQueue := Nat × Image × List Block

variable {queues : List BlockQueue} {bounds : Interval} {b : Block} {im : Image}

/-- A block found behind other queues. -/
theorem found_behind {q : BlockQueue} {others : List BlockQueue} {i : Nat} {start : Word}
    (found : ∃ im rest, (i, im, b :: rest) ∈ others ∧ start = blockStart im b) :
    ∃ im rest, (i, im, b :: rest) ∈ q :: others ∧ start = blockStart im b := by
  obtain ⟨im, rest, member, same⟩ := found
  exact ⟨im, rest, List.mem_cons_of_mem q member, same⟩

theorem lowest_mem {i : Nat} {start : Word} (found : lowest queues = some (i, start, b)) :
    ∃ im rest, (i, im, b :: rest) ∈ queues ∧ start = blockStart im b := by
  induction queues generalizing i start b with
  | nil => cases found
  | cons q others ih =>
    obtain ⟨j, im, blocks⟩ := q
    cases blocks with
    | nil => exact found_behind (ih found)
    | cons c rest =>
      unfold lowest at found
      cases best : lowest others with
      | none =>
        rw [best] at found
        cases found
        exact ⟨im, rest, List.mem_cons_self, rfl⟩
      | some triple =>
        obtain ⟨k, startK, chosen⟩ := triple
        rw [best] at found
        dsimp only at found
        split_ifs at found with lower
        · cases found
          exact found_behind (ih best)
        · cases found
          exact ⟨im, rest, List.mem_cons_self, rfl⟩

theorem lowest_none (empty : lowest queues = none) : ∀ q ∈ queues, q.2.2 = [] := by
  induction queues with
  | nil => exact List.forall_mem_nil _
  | cons q others ih =>
    obtain ⟨j, im, blocks⟩ := q
    cases blocks with
    | nil =>
      intro q member
      rcases List.mem_cons.mp member with rfl | later
      · rfl
      · exact ih empty q later
    | cons c rest =>
      unfold lowest at empty
      split at empty
      · cases empty
      · split at empty <;> cases empty

/-- The end of a block range within bounds does not wrap. -/
theorem stop_toNat (inside : (blockRange im b).Within bounds) (low : bounds.stop < 2 ^ 32) :
    (blockStart im b + b.memorySize).toNat = (blockStart im b).toNat + b.memorySize.toNat := by
  have stop : (blockStart im b).toNat + b.memorySize.toNat ≤ bounds.stop := inside.2
  rw [BitVec.toNat_add, Nat.mod_eq_of_lt (Nat.lt_of_le_of_lt stop low)]

/-- Planning in progress: the regions behind the stack lie between the lower
bound and the top. -/
structure Merged (bounds : Interval) (stack : Region) (p : Planning) : Prop where
  regions : ∀ r ∈ p.regions, r = stack ∨
    bounds.start ≤ r.start.toNat ∧ r.start.toNat ≤ r.stop.toNat ∧ r.stop.toNat ≤ p.top.toNat
  top : p.top.toNat ≤ bounds.stop

theorem addRegion_merged {stack : Region} {p next : Planning} (merged : Merged bounds stack p)
    (low : bounds.stop < 2 ^ 32) (stackLow : bounds.start ≤ stack.start.toNat)
    (stackOrdered : stack.start.toNat ≤ stack.stop.toNat) (inside : (blockRange im b).Within bounds)
    (added : addRegion p (blockStart im b) b = some next) :
    Merged bounds stack next ∧ p.top.toNat ≤ next.top.toNat ∧ (blockRange im b).stop ≤ next.top.toNat := by
  have stop := stop_toNat inside low
  have bottom : bounds.start ≤ (blockStart im b).toNat := inside.1
  have ceiling : (blockStart im b).toNat + b.memorySize.toNat ≤ bounds.stop := inside.2
  have range : (blockRange im b).stop = (blockStart im b).toNat + b.memorySize.toNat := rfl
  rw [range]
  unfold addRegion at added
  dsimp only at added
  -- the new top is the larger of the old one and the end of the block
  obtain ⟨top, highest, larger, smaller⟩ : ∃ top, (if blockStart im b + b.memorySize > p.top then
      blockStart im b + b.memorySize else p.top) = top ∧ p.top.toNat ≤ top.toNat ∧
      (blockStart im b).toNat + b.memorySize.toNat ≤ top.toNat ∧ top.toNat ≤ bounds.stop := by
    refine ⟨_, rfl, ?_⟩
    have old := merged.top
    split
    · next above =>
        have less : p.top.toNat < (blockStart im b + b.memorySize).toNat := above
        omega
    · next below =>
        have less : ¬ p.top.toNat < (blockStart im b + b.memorySize).toNat := below
        omega
  rw [highest] at added
  have kept : ∀ r ∈ p.regions, r = stack ∨
      bounds.start ≤ r.start.toNat ∧ r.start.toNat ≤ r.stop.toNat ∧ r.stop.toNat ≤ top.toNat := by
    intro r member
    rcases merged.regions r member with same | ⟨start, ordered, below⟩
    · exact Or.inl same
    · exact Or.inr ⟨start, ordered, Nat.le_trans below larger⟩
  cases regions : p.regions with
  | nil =>
    rw [regions] at added
    cases added
  | cons last rest =>
    rw [regions] at added kept
    dsimp only at added
    split_ifs at added with joins full
    · cases added
      refine ⟨⟨?_, smaller.2⟩, larger, smaller.1⟩
      intro r member
      rcases List.mem_cons.mp member with rfl | later
      · refine Or.inr ⟨?_, ?_, ?_⟩
        · rcases kept last List.mem_cons_self with same | ⟨start, _, _⟩
          · rw [same]
            exact stackLow
          · exact start
        · have meets : last.stop = blockStart im b := joins.2.1
          have ordered : last.start.toNat ≤ last.stop.toNat := by
            rcases kept last List.mem_cons_self with same | ⟨_, ordered, _⟩
            · rw [same]
              exact stackOrdered
            · exact ordered
          dsimp only
          rw [meets] at ordered
          omega
        · dsimp only
          omega
      · exact kept r (List.mem_cons_of_mem last later)
    · cases added
      refine ⟨⟨?_, smaller.2⟩, larger, smaller.1⟩
      intro r member
      rcases List.mem_cons.mp member with rfl | later
      · refine Or.inr ⟨bottom, ?_, ?_⟩ <;> dsimp only <;> omega
      · exact kept r later

/-- The number of blocks that are left. -/
def blocksLeft (queues : List BlockQueue) : Nat := (queues.map fun q => q.2.2.length).sum

/-- The queues without the first block of image `best`. -/
def advance (queues : List BlockQueue) (best : Nat) : List BlockQueue :=
  queues.map fun q => if q.1 = best then (q.1, q.2.1, q.2.2.tail) else q

theorem blocksLeft_advance {best : Nat} {rest : List Block} (member : (best, im, b :: rest) ∈ queues) :
    blocksLeft (advance queues best) < blocksLeft queues := by
  induction queues with
  | nil => cases member
  | cons q others ih =>
    have shrinks : ∀ q : BlockQueue,
        (if q.1 = best then (q.1, q.2.1, q.2.2.tail) else q).2.2.length ≤ q.2.2.length := by
      intro q
      split
      · rw [List.length_tail]
        exact Nat.sub_le _ _
      · exact Nat.le_refl _
    have whole : blocksLeft (advance others best) ≤ blocksLeft others := by
      unfold blocksLeft advance
      rw [List.map_map]
      exact List.sum_le_sum fun q _ => shrinks q
    unfold blocksLeft advance at ih whole ⊢
    rw [List.map_cons, List.map_cons, List.map_cons, List.sum_cons, List.sum_cons]
    rcases List.mem_cons.mp member with rfl | later
    · rw [if_pos rfl]
      dsimp only [List.tail_cons, List.length_cons]
      omega
    · have here := shrinks q
      have less := ih later
      omega

/-- What is left after the first block of `best` went. -/
theorem mem_advance {best : Nat} {q : BlockQueue} (member : q ∈ advance queues best) :
    ∃ blocks, (q.1, q.2.1, blocks) ∈ queues ∧ ∀ b ∈ q.2.2, b ∈ blocks := by
  obtain ⟨old, inside, rfl⟩ := List.mem_map.mp member
  refine ⟨old.2.2, ?_⟩
  split
  · exact ⟨inside, fun b later => List.mem_of_mem_tail later⟩
  · exact ⟨inside, fun b later => later⟩

theorem mergeBlocks_spec {fuel : Nat} {stack : Region} {p final : Planning} (enough : blocksLeft queues ≤ fuel)
    (distinct : (queues.map Prod.fst).Nodup)
    (inside : ∀ q ∈ queues, ∀ b ∈ q.2.2, (blockRange q.2.1 b).Within bounds) (low : bounds.stop < 2 ^ 32)
    (stackLow : bounds.start ≤ stack.start.toNat) (stackOrdered : stack.start.toNat ≤ stack.stop.toNat)
    (merged : Merged bounds stack p) (done : mergeBlocks fuel queues p = .ok final) :
    Merged bounds stack final ∧ p.top.toNat ≤ final.top.toNat ∧
      ∀ q ∈ queues, ∀ b ∈ q.2.2, (blockRange q.2.1 b).stop ≤ final.top.toNat := by
  induction fuel generalizing queues p with
  | zero =>
    cases done
    refine ⟨merged, Nat.le_refl _, fun q member b inBlocks => ?_⟩
    have each := List.single_le_sum (l := queues.map fun q => q.2.2.length) (fun _ _ => Nat.zero_le _) _
      (List.mem_map_of_mem member)
    have none_ : q.2.2.length = 0 := by
      unfold blocksLeft at enough
      omega
    rw [List.length_eq_zero_iff.mp none_] at inBlocks
    cases inBlocks
  | succ fuel ih =>
    unfold mergeBlocks at done
    cases found : lowest queues with
    | none =>
      rw [found] at done
      cases done
      refine ⟨merged, Nat.le_refl _, fun q member b inBlocks => ?_⟩
      rw [lowest_none found q member] at inBlocks
      cases inBlocks
    | some triple =>
      obtain ⟨best, start, b⟩ := triple
      obtain ⟨im, rest, member, rfl⟩ := lowest_mem found
      rw [found] at done
      dsimp only at done
      cases added : addRegion p (blockStart im b) b with
      | none =>
        rw [added] at done
        cases done
      | some next =>
        rw [added] at done
        dsimp only at done
        have here := inside _ member b List.mem_cons_self
        obtain ⟨grown, above, reached⟩ :=
          addRegion_merged merged low stackLow stackOrdered here added
        have shorter : blocksLeft (advance queues best) ≤ fuel := by
          have less := blocksLeft_advance member
          omega
        have names : (advance queues best).map Prod.fst = queues.map Prod.fst := by
          unfold advance
          rw [List.map_map]
          refine List.map_congr_left fun q _ => ?_
          dsimp only [Function.comp_apply]
          split <;> rfl
        obtain ⟨whole, later, all⟩ := ih shorter (names ▸ distinct) (fun q inLater c left => by
          obtain ⟨blocks, inQueues, known⟩ := mem_advance inLater
          exact inside _ inQueues c (known c left)) grown done
        refine ⟨whole, Nat.le_trans above later, fun q inQueues c inBlocks => ?_⟩
        by_cases mine : q.1 = best
        · have same : q = (best, im, b :: rest) :=
            List.inj_on_of_nodup_map distinct inQueues member mine
          rw [same] at inBlocks ⊢
          rcases List.mem_cons.mp inBlocks with rfl | behind
          · exact Nat.le_trans reached later
          · refine all (best, im, rest) ?_ c behind
            exact List.mem_map.mpr ⟨_, member, if_pos rfl⟩
        · exact all q (List.mem_map.mpr ⟨q, inQueues, if_neg mine⟩) c inBlocks

/-! ## The regions of a launch -/

/-- The addresses of a region. -/
def regionRange (r : Region) : Interval := ⟨r.start.toNat, r.stop.toNat⟩

/-- The regions lie in the window, and all but the stack end at the top, which
no block of the launch goes beyond. -/
structure RegionsPlaced (target : Target) (launch : Launch) (exe : Image) : Prop where
  inside : ∀ r ∈ launch.regions, r.start.toNat ≤ r.stop.toNat ∧ (regionRange r).Within target.window
  reach : ∀ r ∈ launch.regions, r.stop = launch.stackTop ∨ r.stop.toNat ≤ launch.top.toNat
  top : launch.top.toNat ≤ target.windowEnd.toNat
  blocks : ∀ b ∈ exe.blocks, (blockRange exe b).stop ≤ launch.top.toNat

/-- The block tables `planRegions` merges, with the index of their image. -/
def blockQueues (images : List Image) : List (Nat × Image × List Block) :=
  images.zipIdx.map fun q => (q.2, q.1, q.1.blocks)

theorem blocksLeft_blockQueues (images : List Image) :
    blocksLeft (blockQueues images) = (images.map fun im => im.blocks.length).sum := by
  unfold blocksLeft blockQueues
  rw [List.map_map]
  conv_rhs => rw [← List.zipIdx_map_fst 0 images, List.map_map]
  rfl

/-- Region 0 is the stack of the launch. -/
theorem LaunchPlaced.stack_stop {target : Target} {launch : Launch} {exe : Image}
    (placed : LaunchPlaced target launch exe) :
    (launch.stackTop - launch.stackSize).toNat + launch.stackSize.toNat = launch.stackTop.toNat := by
  have same := congrArg Interval.stop placed.stackSame
  rw [placed.placed.stack] at same
  unfold stackRange at same
  dsimp only at same
  have fits := (exe.stackTop + launch.delta).isLt
  bv_omega

theorem regionsPlaced_of_waxPlan {data : File} {libs : List File} {target : Target} {launch : Launch}
    (planned : waxPlan data libs target = .ok launch) {exe : Image} (placed : LaunchPlaced target launch exe) :
    RegionsPlaced target launch exe := by
  obtain ⟨parsed, origin, delta, r, _, _, _, _, _, stackTop, stackSize, rfl, _, planning, regions, top,
    merging⟩ := waxPlan_ok planned
  unfold planRegions at merging
  have stackStop := placed.stack_stop
  have stackInside := placed.stackInside
  rw [← placed.stackSame] at stackInside
  have stackLow : target.windowStart.toNat ≤ (launch.stackTop - launch.stackSize).toNat := stackInside.1
  have stackHigh : (launch.stackTop - launch.stackSize).toNat + launch.stackSize.toNat ≤
      target.windowEnd.toNat := stackInside.2
  have start : parsed.stackTop - parsed.stackSize + launch.delta = launch.stackTop - launch.stackSize := by
    rw [stackTop, stackSize]
    grind
  have stack : (⟨parsed.stackTop - parsed.stackSize + launch.delta, parsed.stackTop + launch.delta, permRw⟩ :
      Region) = ⟨launch.stackTop - launch.stackSize, launch.stackTop, permRw⟩ := by rw [start, stackTop]
  change mergeBlocks _ _ ⟨[(⟨parsed.stackTop - parsed.stackSize + launch.delta,
    parsed.stackTop + launch.delta, permRw⟩ : Region)], 0⟩ = .ok planning at merging
  rw [stack] at merging
  have left := blocksLeft_blockQueues launch.images
  have distinct : ((blockQueues launch.images).map Prod.fst).Nodup := by
    have names : (blockQueues launch.images).map Prod.fst = launch.images.zipIdx.map Prod.snd := List.map_map
    rw [names, List.zipIdx_map_snd]
    exact List.nodup_range'
  have inside : ∀ q ∈ blockQueues launch.images,
      ∀ b ∈ q.2.2, (blockRange q.2.1 b).Within target.window := by
    intro q member b inBlocks
    obtain ⟨⟨im, i⟩, listed, rfl⟩ := List.mem_map.mp member
    have here : launch.images[i]? = some im := List.mem_zipIdx_iff_getElem?.mp listed
    exact (placed.block_in_hull here _ (List.mem_map_of_mem inBlocks)).trans (placed.inside here)
  have started : Merged target.window ⟨launch.stackTop - launch.stackSize, launch.stackTop, permRw⟩
      ⟨[⟨launch.stackTop - launch.stackSize, launch.stackTop, permRw⟩], 0⟩ :=
    ⟨fun r member => Or.inl (List.mem_singleton.mp member), Nat.zero_le _⟩
  have bottom : target.window.start ≤
      (Region.mk (launch.stackTop - launch.stackSize) launch.stackTop permRw).start.toNat := stackLow
  obtain ⟨merged, _, all⟩ := mergeBlocks_spec (Nat.le_of_eq left) distinct inside target.windowEnd.isLt
    bottom (Nat.le_trans (Nat.le_add_right _ _) (Nat.le_of_eq stackStop)) started merging
  have split : ∀ r ∈ launch.regions, r = ⟨launch.stackTop - launch.stackSize, launch.stackTop, permRw⟩ ∨
      target.windowStart.toNat ≤ r.start.toNat ∧ r.start.toNat ≤ r.stop.toNat ∧
        r.stop.toNat ≤ launch.top.toNat := by
    intro r member
    rw [regions, List.mem_reverse] at member
    rw [top]
    exact merged.regions r member
  have ceiling : launch.top.toNat ≤ target.windowEnd.toNat := by
    rw [top]
    exact merged.top
  refine ⟨?_, ?_, ceiling, ?_⟩
  · intro r member
    rcases split r member with rfl | ⟨low, ordered, high⟩
    · exact ⟨by dsimp only; omega, stackLow, by dsimp only [regionRange, Target.window]; omega⟩
    · exact ⟨ordered, low, Nat.le_trans high ceiling⟩
  · intro r member
    rcases split r member with rfl | ⟨_, _, high⟩
    · exact Or.inl rfl
    · exact Or.inr high
  · intro b inBlocks
    have listed : (0, exe, exe.blocks) ∈ blockQueues launch.images :=
      List.mem_map.mpr ⟨(exe, 0), List.mem_zipIdx_iff_getElem?.mpr placed.first, rfl⟩
    rw [top]
    exact all _ listed b inBlocks

end Src32.Wax
