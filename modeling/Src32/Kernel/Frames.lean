import Src32.Kernel.Arena
import Src32.Kernel.Nommu
import Mathlib.Data.Finset.Card

namespace Src32.Kernel

open Function (update update_self update_of_ne)

/-!
# Single frames of the pool

The virtual memory backend draws its frames one at a time and counts who holds
each.  Behind the allocator stand the loops that clear and copy memory, with the
bytes they leave.
-/

/-! ## Taking and giving back -/

/-- The address of frame `f`. -/
def frameAddr (f : Nat) : Word := poolBase + BitVec.ofNat 32 f * mmPage

theorem frameAddr_toNat {f : Nat} (small : f ≤ maxFrames) : (frameAddr f).toNat = 0x400000 + f * 4096 := pageAddr_toNat small

theorem firstPage_frameAddr {f : Nat} (small : f ≤ maxFrames) : firstPage (frameAddr f) = f := by
  have address := frameAddr_toNat small
  rw [firstPage_eq (by rw [poolBase_toNat, address]; omega), address]
  omega

namespace Pool

/-- The frame that round `n` of the scan of `frame_alloc` looks at: from the hint
on, around the end of the pool. -/
def scanAt (pool : Pool) (n : Nat) : Nat :=
  if pool.nextHint + n ≥ pool.frames then pool.nextHint + n - pool.frames else pool.nextHint + n

/-- `frame_alloc` as far as the pool goes: a free frame, now taken. -/
def frameAlloc (pool : Pool) : Option (Nat × Pool) :=
  if pool.free = 0 then none
  else
    match (List.range pool.frames).find? fun n => pool.refs (pool.scanAt n) = 0 with
    | none => none
    | some n =>
      let f := pool.scanAt n
      some (f, { pool with refs := update pool.refs f 1, free := pool.free - 1, nextHint := f + 1 })

/-- `frame_free`: one reference less. -/
def frameFree (pool : Pool) (pa : Word) : Pool :=
  let f := firstPage pa
  if pa < poolBase ∨ f ≥ pool.frames ∨ pool.refs f = 0 then pool
  else
    { pool with
      refs := update pool.refs f (pool.refs f - 1)
      free := if pool.refs f - 1 = 0 then pool.free + 1 else pool.free }

/-- `free_frames` counts the frames without a reference, and the scan starts
inside the pool. -/
structure Counted (pool : Pool) : Prop where
  wide : pool.frames ≤ maxFrames
  hint : pool.nextHint ≤ pool.frames
  count : pool.free = ((Finset.range pool.frames).filter fun f => pool.refs f = 0).card

variable {pool next : Pool} {f : Nat}

theorem frameAlloc_some (counted : pool.Counted) (done : pool.frameAlloc = some (f, next)) :
    f < pool.frames ∧ pool.refs f = 0 ∧ next.Counted ∧ next.free + 1 = pool.free ∧ next.frames = pool.frames ∧
      next.refs = update pool.refs f 1 := by
  unfold frameAlloc at done
  split_ifs at done with empty
  cases found : (List.range pool.frames).find? fun n => pool.refs (pool.scanAt n) = 0 with
  | none =>
    rw [found] at done
    cases done
  | some n =>
    rw [found] at done
    cases done
    have round : n < pool.frames := List.mem_range.mp (List.mem_of_find?_eq_some found)
    have zero : pool.refs (pool.scanAt n) = 0 := by
      have picked := List.find?_some found
      exact of_decide_eq_true picked
    have hint := counted.hint
    have inside : pool.scanAt n < pool.frames := by
      unfold scanAt
      split <;> omega
    generalize pool.scanAt n = f at zero inside
    have fewer : ((Finset.range pool.frames).filter fun k => update pool.refs f 1 k = 0) =
        ((Finset.range pool.frames).filter fun k => pool.refs k = 0).erase f := by
      ext k
      rw [Finset.mem_erase, Finset.mem_filter, Finset.mem_filter]
      by_cases here : k = f
      · subst here
        rw [update_self]
        constructor
        · intro both
          exact absurd both.2 (by decide)
        · intro both
          exact absurd rfl both.1
      · rw [update_of_ne here]
        exact ⟨fun both => ⟨here, both⟩, fun both => both.2⟩
    have member : f ∈ (Finset.range pool.frames).filter fun k => pool.refs k = 0 :=
      Finset.mem_filter.mpr ⟨Finset.mem_range.mpr inside, zero⟩
    refine ⟨inside, zero, ⟨counted.wide, inside, ?_⟩, Nat.sub_add_cancel (Nat.pos_of_ne_zero empty), rfl, rfl⟩
    dsimp only
    rw [fewer, Finset.card_erase_of_mem member, counted.count]

/-- A frame is found whenever one is free. -/
theorem frameAlloc_none (counted : pool.Counted) : pool.frameAlloc = none ↔ pool.free = 0 := by
  constructor
  · intro refused
    by_contra some_
    have positive := Nat.pos_of_ne_zero some_
    rw [counted.count, Finset.card_pos] at positive
    obtain ⟨f, member⟩ := positive
    rw [Finset.mem_filter, Finset.mem_range] at member
    obtain ⟨inside, zero⟩ := member
    have hint := counted.hint
    have reached : ∃ n < pool.frames, pool.scanAt n = f := by
      by_cases ahead : pool.nextHint ≤ f
      · refine ⟨f - pool.nextHint, by omega, ?_⟩
        unfold scanAt
        split <;> omega
      · refine ⟨f + pool.frames - pool.nextHint, by omega, ?_⟩
        unfold scanAt
        split <;> omega
    obtain ⟨n, round, rfl⟩ := reached
    unfold frameAlloc at refused
    rw [if_neg some_] at refused
    cases found : (List.range pool.frames).find? fun n => pool.refs (pool.scanAt n) = 0 with
    | none =>
      have never := List.find?_eq_none.mp found n (List.mem_range.mpr round)
      exact never (decide_eq_true zero)
    | some m =>
      rw [found] at refused
      cases refused
  · intro empty
    exact if_pos empty

/-- A frame with several references keeps one. -/
theorem frameFree_shared (small : f ≤ maxFrames) (inside : f < pool.frames) (shared : 1 < (pool.refs f).toNat) :
    pool.frameFree (frameAddr f) = { pool with refs := update pool.refs f (pool.refs f - 1) } := by
  have address := frameAddr_toNat small
  have bound := (pool.refs f).isLt
  have kept : pool.refs f - 1 ≠ 0 := by
    intro zero
    have none_ := congrArg BitVec.toNat zero
    rw [BitVec.toNat_sub] at none_
    change (2 ^ 8 - 1 + (pool.refs f).toNat) % 2 ^ 8 = 0 at none_
    omega
  have taken : ¬ (frameAddr f < poolBase ∨ f ≥ pool.frames ∨ pool.refs f = 0) := by
    rintro (low | out | zero)
    · have less : (frameAddr f).toNat < poolBase.toNat := low
      rw [address, poolBase_toNat] at less
      omega
    · omega
    · rw [zero] at shared
      exact absurd shared (by decide)
  unfold frameFree
  dsimp only
  rw [firstPage_frameAddr small, if_neg taken, if_neg kept]

/-- The count is that of the free frames, whoever holds the others. -/
theorem Counted.refs (counted : pool.Counted) {refs : Nat -> Byte}
    (same : ∀ f, refs f = 0 ↔ pool.refs f = 0) : ({ pool with refs := refs } : Pool).Counted := by
  refine ⟨counted.wide, counted.hint, ?_⟩
  rw [counted.count]
  congr 1
  ext f
  rw [Finset.mem_filter, Finset.mem_filter, same f]

end Pool

/-! ## Clearing and copying -/

/-- The byte loop that `kmem_copy` amounts to, by words or by DMA where it can. -/
def copyLoop : Nat -> Word -> Word -> Wax.Memory -> Wax.Memory
  | 0, _, _, mem => mem
  | n + 1, dst, src, mem => copyLoop n (dst + 1) (src + 1) (update mem dst (mem src))

/-- `kmem_copy`. -/
def kmemCopy (dst src len : Word) (mem : Wax.Memory) : Wax.Memory := copyLoop len.toNat dst src mem

theorem storeWord_zero {at_ : Word} (fits : at_.toNat + 4 ≤ 2 ^ 32) (mem : Wax.Memory) (a : Word) :
    Wax.storeWord mem at_ 0 a = if at_.toNat ≤ a.toNat ∧ a.toNat < at_.toNat + 4 then 0 else mem a := by
  unfold Wax.storeWord Wax.copyBytes Wax.copyBytes Wax.copyBytes Wax.copyBytes Wax.copyBytes
  split_ifs with inside
  all_goals first
    | rfl
    | bv_omega

theorem zeroWords_apply (n : Nat) {at_ : Word} (fits : at_.toNat + 4 * n ≤ 2 ^ 32) (mem : Wax.Memory) (a : Word) :
    zeroWords n at_ mem a = if at_.toNat ≤ a.toNat ∧ a.toNat < at_.toNat + 4 * n then 0 else mem a := by
  induction n generalizing at_ mem with
  | zero =>
    rw [if_neg (by omega)]
    rfl
  | succ n ih =>
    have bound := a.isLt
    have next : (at_ + 4).toNat = (at_.toNat + 4) % 2 ^ 32 := BitVec.toNat_add ..
    unfold zeroWords
    rw [ih (by omega), storeWord_zero (by omega)]
    split_ifs <;> first
      | rfl
      | omega

/-- Whole words are cleared, nothing else changes. -/
theorem kmemZero_apply {start stop : Word} (ordered : start.toNat ≤ stop.toNat)
    (whole : (stop.toNat - start.toNat) % 4 = 0) (mem : Wax.Memory) (a : Word) :
    kmemZero start stop mem a = if start.toNat ≤ a.toNat ∧ a.toNat < stop.toNat then 0 else mem a := by
  have bound := stop.isLt
  have words : ((stop - start) / 4).toNat = (stop.toNat - start.toNat) / 4 := by
    rw [BitVec.toNat_udiv, BitVec.toNat_sub_of_le ordered]
    rfl
  unfold kmemZero
  rw [words, zeroWords_apply _ (by omega)]
  have length : start.toNat + 4 * ((stop.toNat - start.toNat) / 4) = stop.toNat := by omega
  rw [length]

/-- The byte loop in front stops at the next word and has cleared what it
passed. -/
theorem zeroToWord_apply (n : Nat) {from_ : Word} (mem : Wax.Memory) {stop : Nat} (ordered : from_.toNat ≤ stop)
    (near : stop ≤ from_.toNat + n) (aligned : stop % 4 = 0) (close : stop < from_.toNat + 4)
    (fits : stop < 2 ^ 32) :
    (zeroToWord n from_ mem).1.toNat = stop ∧ ∀ a : Word, (zeroToWord n from_ mem).2 a =
      if from_.toNat ≤ a.toNat ∧ a.toNat < stop then 0 else mem a := by
  induction n generalizing from_ mem with
  | zero =>
    have here : from_.toNat = stop := by omega
    refine ⟨here, fun a => ?_⟩
    rw [if_neg (by omega)]
    rfl
  | succ n ih =>
    have asks : from_ &&& 3 = 0 ↔ from_.toNat % 4 = 0 := Word.and_low_eq_zero from_ 2
    unfold zeroToWord
    by_cases at_ : from_.toNat % 4 = 0
    · rw [if_pos (asks.mpr at_)]
      have here : from_.toNat = stop := by omega
      refine ⟨here, fun a => ?_⟩
      rw [if_neg (by omega)]
    · rw [if_neg (mt asks.mp at_)]
      have next : (from_ + 1).toNat = from_.toNat + 1 := by bv_omega
      obtain ⟨ends, cleared⟩ := ih (update mem from_ 0) (show (from_ + 1).toNat ≤ stop by omega)
        (by omega) (by omega)
      refine ⟨ends, fun a => ?_⟩
      rw [cleared a, next]
      by_cases here : a = from_
      · subst here
        rw [update_self, if_neg (by omega), if_pos (by omega)]
      · have apart : a.toNat ≠ from_.toNat := fun same => here (BitVec.eq_of_toNat_eq same)
        rw [update_of_ne here]
        split_ifs <;> first
          | rfl
          | omega

/-- A copy between ranges that do not meet. -/
theorem copyLoop_apply (n : Nat) {dst src : Word} (mem : Wax.Memory) (dstFits : dst.toNat + n ≤ 2 ^ 32)
    (srcFits : src.toNat + n ≤ 2 ^ 32) (apart : dst.toNat + n ≤ src.toNat ∨ src.toNat + n ≤ dst.toNat) (a : Word) :
    copyLoop n dst src mem a =
      if dst.toNat ≤ a.toNat ∧ a.toNat < dst.toNat + n then mem (src + (a - dst)) else mem a := by
  induction n generalizing dst src mem with
  | zero =>
    rw [if_neg (by omega)]
    rfl
  | succ n ih =>
    have bound := a.isLt
    have nextDst : (dst + 1).toNat = (dst.toNat + 1) % 2 ^ 32 := BitVec.toNat_add ..
    have nextSrc : (src + 1).toNat = (src.toNat + 1) % 2 ^ 32 := BitVec.toNat_add ..
    unfold copyLoop
    by_cases last : n = 0
    · subst last
      unfold copyLoop
      by_cases here : a = dst
      · subst here
        rw [update_self, if_pos (by omega), BitVec.sub_self, BitVec.add_zero]
      · have different : a.toNat ≠ dst.toNat := fun same => here (BitVec.eq_of_toNat_eq same)
        rw [update_of_ne here, if_neg (by omega)]
    · rw [ih _ (by omega) (by omega) (by omega)]
      by_cases here : a = dst
      · subst here
        rw [if_neg (by omega), if_pos (by omega), update_self, BitVec.sub_self, BitVec.add_zero]
      · have different : a.toNat ≠ dst.toNat := fun same => here (BitVec.eq_of_toNat_eq same)
        rw [update_of_ne here]
        split_ifs with inside outer outer
        · have place : src + 1 + (a - (dst + 1)) = src + (a - dst) := by bv_omega
          have other : src + (a - dst) ≠ dst := by
            intro same
            have numbers := congrArg BitVec.toNat same
            rw [BitVec.toNat_add, BitVec.toNat_sub_of_le (show dst ≤ a from outer.1)] at numbers
            omega
          rw [place, update_of_ne other]
        · omega
        · omega
        · rfl

end Src32.Kernel
