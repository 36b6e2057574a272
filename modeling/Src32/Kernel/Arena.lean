import Src32.Kernel.Pool
import Src32.Lib.Intervals

namespace Src32.Kernel

open Interval
open Function (update update_self update_of_ne)

/-!
# Arenas

What the arena allocator hands out: runs of whole pages of the pool.  Leases
record who holds which run; every operation of the allocator keeps the runs
held, inside the pool and clear of one another.
-/

/-- The addresses from `lo` to before `hi`. -/
def addrRange (lo hi : Word) : Interval := ⟨lo.toNat, hi.toNat⟩

/-- A nonempty run of whole pages of a pool of so many frames. -/
structure Arena (frames : Nat) (lo hi : Word) : Prop where
  above : poolBase.toNat ≤ lo.toNat
  nonempty : lo.toNat < hi.toNat
  lowAligned : lo.toNat % 4096 = 0
  highAligned : hi.toNat % 4096 = 0
  inside : hi.toNat ≤ poolBase.toNat + 4096 * frames

theorem poolBase_toNat : poolBase.toNat = 0x400000 := rfl

theorem firstPage_eq {x : Word} (above : poolBase.toNat ≤ x.toNat) :
    firstPage x = (x.toNat - 0x400000) / 4096 := by
  rw [poolBase_toNat] at above
  unfold firstPage
  rw [BitVec.toNat_udiv, show mmPage.toNat = 4096 from rfl]
  have difference : (x - poolBase).toNat = x.toNat - 0x400000 := by
    unfold poolBase
    bv_omega
  rw [difference]

/-- The pages of an arena are held. -/
def Held (pool : Pool) (lo hi : Word) : Prop := ∀ f, firstPage lo ≤ f -> f < firstPage hi -> pool.refs f ≠ 0

/-- The pages of an arena are free. -/
def Vacant (pool : Pool) (lo hi : Word) : Prop := ∀ f, firstPage lo ≤ f -> f < firstPage hi -> pool.refs f = 0

variable {pool next : Pool} {lo hi : Word}

theorem rangeFree_spec (free : pool.rangeFree lo hi = true) :
    Arena pool.frames lo hi ∧ Vacant pool lo hi := by
  unfold Pool.rangeFree at free
  simp only [Bool.and_eq_true, Bool.not_eq_true', Bool.or_eq_false_iff, decide_eq_false_iff_not,
    List.all_eq_true, not_not] at free
  obtain ⟨⟨⟨⟨above, ordered⟩, wide⟩, masked⟩, all⟩ := free
  obtain ⟨lowAligned, highAligned⟩ := Page.both_aligned masked
  have bottom : poolBase.toNat ≤ lo.toNat := Nat.le_of_not_lt above
  have less : lo.toNat < hi.toNat := Nat.lt_of_not_le ordered
  have top : poolBase.toNat ≤ hi.toNat := by omega
  have pages : ((hi - poolBase) / mmPage).toNat = (hi.toNat - 0x400000) / 4096 := firstPage_eq top
  rw [pages] at wide
  rw [poolBase_toNat] at bottom
  refine ⟨⟨bottom, less, lowAligned, highAligned, ?_⟩, fun f low high => ?_⟩
  · rw [poolBase_toNat]
    omega
  · have member : f ∈ List.range' (firstPage lo) (firstPage hi - firstPage lo) := by
      rw [List.mem_range'_1]
      omega
    have untaken := all f member
    unfold Pool.frameTaken at untaken
    rw [decide_eq_false_iff_not, not_not] at untaken
    exact untaken

/-- Arenas that share no page share no address. -/
theorem Arena.apart {frames : Nat} {low high : Word} (first : Arena frames lo hi) (second : Arena frames low high)
    (pages : ∀ f, firstPage lo ≤ f -> f < firstPage hi -> firstPage low ≤ f -> ¬ f < firstPage high) :
    (addrRange lo hi).Apart (addrRange low high) := by
  have ends : poolBase.toNat ≤ hi.toNat ∧ poolBase.toNat ≤ high.toNat :=
    ⟨Nat.le_trans first.above (Nat.le_of_lt first.nonempty),
      Nat.le_trans second.above (Nat.le_of_lt second.nonempty)⟩
  rw [firstPage_eq first.above, firstPage_eq ends.1, firstPage_eq second.above, firstPage_eq ends.2] at pages
  have firstAbove := first.above
  have secondAbove := second.above
  have firstLess := first.nonempty
  have secondLess := second.nonempty
  have aligned := And.intro (And.intro first.lowAligned first.highAligned)
    (And.intro second.lowAligned second.highAligned)
  rw [poolBase_toNat] at firstAbove secondAbove
  unfold Apart addrRange
  dsimp only
  by_contra overlap
  by_cases order : lo.toNat ≤ low.toNat
  · exact pages ((low.toNat - 0x400000) / 4096) (by omega) (by omega) (by omega) (by omega)
  · exact pages ((lo.toNat - 0x400000) / 4096) (by omega) (by omega) (by omega) (by omega)

/-! ## Taking and returning pages -/

theorem rangeTake_refs (pool : Pool) (lo hi : Word) (f : Nat) :
    (pool.rangeTake lo hi).refs f = if firstPage lo ≤ f ∧ f < firstPage hi then 1 else pool.refs f := rfl

theorem rangeTake_held (pool : Pool) (lo hi : Word) : Held (pool.rangeTake lo hi) lo hi := by
  intro f low high
  rw [rangeTake_refs, if_pos ⟨low, high⟩]
  decide

theorem Held.take (held : Held pool lo hi) (low high : Word) :
    Held (pool.rangeTake low high) lo hi := by
  intro f above below
  rw [rangeTake_refs]
  split
  · decide
  · exact held f above below

theorem arenaClaim_ok (done : pool.arenaClaim lo hi = .ok next) :
    pool.rangeFree (Page.down lo) (Page.up hi) = true ∧ next = pool.rangeTake (Page.down lo) (Page.up hi) := by
  unfold Pool.arenaClaim at done
  dsimp only at done
  split_ifs at done with outside free
  cases done
  exact ⟨free, rfl⟩

theorem arenaExtend_some {newHi : Word} (done : pool.arenaExtend hi newHi = some next) :
    pool.rangeFree hi newHi = true ∧ next = pool.rangeTake hi newHi := by
  unfold Pool.arenaExtend at done
  split_ifs at done with refused
  cases done
  rw [not_or, not_or, Bool.not_eq_true', Bool.not_eq_false] at refused
  exact ⟨refused.2.2, rfl⟩

/-- The address of a page of the pool. -/
theorem pageAddr_toNat {first : Nat} (small : first ≤ maxFrames) :
    (poolBase + BitVec.ofNat 32 first * mmPage).toNat = 0x400000 + first * 4096 := by
  unfold maxFrames at small
  rw [BitVec.toNat_add, BitVec.toNat_mul, BitVec.toNat_ofNat, poolBase_toNat,
    show mmPage.toNat = 4096 from rfl]
  omega

/-- The run `arenaAlloc` takes: whole pages of the pool that were free, the bytes
asked for rounded up to pages. -/
theorem arenaAlloc_some {bytes : Word} (wide : pool.frames ≤ maxFrames)
    (done : pool.arenaAlloc bytes = some (lo, next)) :
    ∃ hi, Arena pool.frames lo hi ∧ Vacant pool lo hi ∧ next = pool.rangeTake lo hi ∧
      hi.toNat = lo.toNat + (bytes + mmPageMask).toNat / 4096 * 4096 := by
  unfold Pool.arenaAlloc at done
  dsimp only at done
  split_ifs at done with refused
  rw [not_or] at refused
  have pages : ((bytes + mmPageMask) / mmPage).toNat = (bytes + mmPageMask).toNat / 4096 :=
    BitVec.toNat_udiv
  cases found : firstFit pool.frameTaken ((bytes + mmPageMask) / mmPage).toNat pool.frames 0 0 with
  | none =>
    rw [found] at done
    cases done
  | some first =>
    rw [found] at done
    cases done
    obtain ⟨fits, free⟩ := firstFit_spec (Nat.le_refl 0) (by omega) found
    have some_ : ((bytes + mmPageMask) / mmPage).toNat ≠ 0 := fun none_ =>
      refused.1 (BitVec.eq_of_toNat_eq none_)
    rw [← pages]
    generalize (bytes + mmPageMask) / mmPage = count at *
    have start := pageAddr_toNat (Nat.le_trans (Nat.le_add_right first count.toNat) (by omega))
    generalize poolBase + BitVec.ofNat 32 first * mmPage = lo at *
    unfold maxFrames at wide
    have stop : (lo + count * mmPage).toNat = lo.toNat + count.toNat * 4096 := by
      rw [BitVec.toNat_add, start, BitVec.toNat_mul, show mmPage.toNat = 4096 from rfl]
      omega
    refine ⟨lo + count * mmPage, ⟨?_, ?_, ?_, ?_, ?_⟩, ?_, rfl, stop⟩
    · rw [poolBase_toNat]
      omega
    · omega
    · omega
    · omega
    · rw [poolBase_toNat]
      omega
    · intro f low high
      rw [firstPage_eq (by rw [poolBase_toNat]; omega), start] at low
      rw [firstPage_eq (by rw [poolBase_toNat]; omega), stop, start] at high
      have untaken := free f (by omega) (by omega)
      unfold Pool.frameTaken at untaken
      rw [decide_eq_false_iff_not, not_not] at untaken
      exact untaken

theorem arenaFree_refs (arena : Arena pool.frames lo hi) (f : Nat) :
    (pool.arenaFree lo hi).refs f = if firstPage lo ≤ f ∧ f < firstPage hi then 0 else pool.refs f := by
  unfold Pool.arenaFree
  rw [if_neg, Page.up_of_aligned arena.highAligned]
  rw [not_or]
  exact ⟨Nat.not_lt_of_le arena.above, Nat.not_le_of_lt arena.nonempty⟩

@[simp] theorem arenaFree_frames (pool : Pool) (lo hi : Word) : (pool.arenaFree lo hi).frames = pool.frames := by
  unfold Pool.arenaFree
  split <;> rfl

/-! ## Leases -/

section Leases

variable {ι : Type} [DecidableEq ι] {pool : Pool} {lease : ι -> Option (Word × Word)} {lo hi : Word}

/-- Every tenant holds a run of pages of the pool, and no two runs share an
address. -/
structure Leases (pool : Pool) (lease : ι -> Option (Word × Word)) : Prop where
  wide : pool.frames ≤ maxFrames
  arena : ∀ p lo hi, lease p = some (lo, hi) -> Arena pool.frames lo hi
  held : ∀ p lo hi, lease p = some (lo, hi) -> Held pool lo hi
  apart : ∀ p q lo hi low high, p ≠ q -> lease p = some (lo, hi) -> lease q = some (low, high) ->
    (addrRange lo hi).Apart (addrRange low high)

/-- A vacant run is clear of every run that is held. -/
theorem Leases.apart_vacant (leases : Leases pool lease) (arena : Arena pool.frames lo hi)
    (vacant : Vacant pool lo hi) {q : ι} {low high : Word} (leased : lease q = some (low, high)) :
    (addrRange lo hi).Apart (addrRange low high) := by
  refine arena.apart (leases.arena q low high leased) fun f above below start stop => ?_
  exact leases.held q low high leased f start stop (vacant f above below)

variable {p : ι}

/-- A tenant without a lease takes a vacant run. -/
theorem Leases.take (leases : Leases pool lease) (arena : Arena pool.frames lo hi) (vacant : Vacant pool lo hi)
    (idle : lease p = none) :
    Leases (pool.rangeTake lo hi) (update lease p (some (lo, hi))) := by
  have apart : ∀ q low high, lease q = some (low, high) -> (addrRange lo hi).Apart (addrRange low high) :=
    fun q low high leased => leases.apart_vacant arena vacant leased
  refine ⟨leases.wide, ?_, ?_, ?_⟩
  · intro q low high leased
    by_cases same : q = p
    · subst same
      rw [update_self] at leased
      cases leased
      exact arena
    · rw [update_of_ne same] at leased
      exact leases.arena q low high leased
  · intro q low high leased
    by_cases same : q = p
    · subst same
      rw [update_self] at leased
      cases leased
      exact rangeTake_held pool lo hi
    · rw [update_of_ne same] at leased
      exact (leases.held q low high leased).take lo hi
  · intro q r low high low' high' different first second
    by_cases same : q = p
    · subst same
      rw [update_self] at first
      rw [update_of_ne (Ne.symm different)] at second
      cases first
      exact apart r low' high' second
    · rw [update_of_ne same] at first
      by_cases other : r = p
      · subst other
        rw [update_self] at second
        cases second
        exact (apart q low high first).symm
      · rw [update_of_ne other] at second
        exact leases.apart q r low high low' high' different first second

/-- A tenant grows into a vacant run right above its own. -/
theorem Leases.extend (leases : Leases pool lease) {newHi : Word} (leased : lease p = some (lo, hi))
    (arena : Arena pool.frames hi newHi) (vacant : Vacant pool hi newHi) :
    Leases (pool.rangeTake hi newHi) (update lease p (some (lo, newHi))) := by
  have old := leases.arena p lo hi leased
  have whole : Arena pool.frames lo newHi :=
    ⟨old.above, Nat.lt_trans old.nonempty arena.nonempty, old.lowAligned, arena.highAligned, arena.inside⟩
  have apart : ∀ q low high, q ≠ p -> lease q = some (low, high) ->
      (addrRange lo newHi).Apart (addrRange low high) := by
    intro q low high different other
    have below := leases.apart p q lo hi low high (Ne.symm different) leased other
    have above := leases.apart_vacant arena vacant other
    have lowered := old.nonempty
    have raised := arena.nonempty
    have theirs := (leases.arena q low high other).nonempty
    unfold Apart addrRange at below above ⊢
    dsimp only at below above ⊢
    omega
  refine ⟨leases.wide, ?_, ?_, ?_⟩
  · intro q low high found
    by_cases same : q = p
    · subst same
      rw [update_self] at found
      cases found
      exact whole
    · rw [update_of_ne same] at found
      exact leases.arena q low high found
  · intro q low high found
    by_cases same : q = p
    · subst same
      rw [update_self] at found
      cases found
      intro f above below
      rw [rangeTake_refs]
      split
      · decide
      · next outside =>
          refine leases.held q lo hi leased f above ?_
          by_contra beyond
          exact outside ⟨Nat.le_of_not_lt beyond, below⟩
    · rw [update_of_ne same] at found
      exact (leases.held q low high found).take hi newHi
  · intro q r low high low' high' different first second
    by_cases same : q = p
    · subst same
      rw [update_self] at first
      rw [update_of_ne (Ne.symm different)] at second
      cases first
      exact apart r low' high' (Ne.symm different) second
    · rw [update_of_ne same] at first
      by_cases other : r = p
      · subst other
        rw [update_self] at second
        cases second
        exact (apart q low high same first).symm
      · rw [update_of_ne other] at second
        exact leases.apart q r low high low' high' different first second

/-- A tenant returns its run. -/
theorem Leases.release (leases : Leases pool lease) (leased : lease p = some (lo, hi)) :
    Leases (pool.arenaFree lo hi) (update lease p none) := by
  have arena := leases.arena p lo hi leased
  refine ⟨?_, ?_, ?_, ?_⟩
  · rw [arenaFree_frames]
    exact leases.wide
  · intro q low high found
    by_cases same : q = p
    · subst same
      rw [update_self] at found
      cases found
    · rw [update_of_ne same] at found
      rw [arenaFree_frames]
      exact leases.arena q low high found
  · intro q low high found
    by_cases same : q = p
    · subst same
      rw [update_self] at found
      cases found
    · rw [update_of_ne same] at found
      intro f above below
      rw [arenaFree_refs arena, if_neg]
      · exact leases.held q low high found f above below
      · rintro ⟨start, stop⟩
        have theirs := leases.arena q low high found
        have apart := leases.apart p q lo hi low high (Ne.symm same) leased found
        rw [firstPage_eq theirs.above] at above
        rw [firstPage_eq (Nat.le_trans theirs.above (Nat.le_of_lt theirs.nonempty))] at below
        rw [firstPage_eq arena.above] at start
        rw [firstPage_eq (Nat.le_trans arena.above (Nat.le_of_lt arena.nonempty))] at stop
        have aligned := And.intro (And.intro arena.lowAligned arena.highAligned)
          (And.intro theirs.lowAligned theirs.highAligned)
        unfold Apart addrRange at apart
        dsimp only at apart
        omega
  · intro q r low high low' high' different first second
    by_cases same : q = p
    · subst same
      rw [update_self] at first
      cases first
    · by_cases other : r = p
      · subst other
        rw [update_self] at second
        cases second
      · rw [update_of_ne same] at first
        rw [update_of_ne other] at second
        exact leases.apart q r low high low' high' different first second

end Leases

end Src32.Kernel
