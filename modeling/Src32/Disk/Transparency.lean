import Src32.Disk.Cache
import Src32.Lib.Intervals
import Src32.Lib.Recency
import Src32.Lib.Runs
import Mathlib.Data.Fintype.Card

namespace Src32.Disk

open Kernel (FndError fndOk)
open Function (update update_self update_of_ne)

/-!
# The cache is transparent

Whatever is read, written and dropped and whichever reads of the drive fail, a
read that is answered with OK is answered with the bytes the drive holds now.
A live window holds what the drive holds: windows that a write meets are
forgotten before it.  The ages of the live windows are those of `Recency`.
-/

/-- What the drives hold: a byte for a drive and a position. -/
abbrev Media := Word -> Nat -> Byte

/-- Sectors from `lba` on. -/
def extent (lba count : Word) : Interval := ⟨lba.toNat, lba.toNat + count.toNat⟩

/-- The sectors of a window. -/
def Window.sectors (w : Window) : Interval := extent w.lba w.count

/-- The buffer holds these sectors. -/
def Holds (media : Media) (data : Buffer) (drive lba count : Word) : Prop :=
  ∀ i, i < count.toNat * 512 -> data i = media drive (lba.toNat * 512 + i)

/-- A drive may fail any read, but what it answers with OK is what it holds. -/
def Reads (media : Media) (read : DiskReadFn) : Prop :=
  ∀ drive lba count buf, (read drive lba count buf).1 = fndOk -> Holds media (read drive lba count buf).2 drive lba count

/-- The windows that hold something. -/
def live (cache : Cache) : Finset WindowIx := Finset.univ.filter fun i => (cache i).count ≠ 0

def ages (cache : Cache) (i : WindowIx) : Nat := (cache i).age

variable {cache next : Cache} {media : Media} {used : WindowIx -> Nat} {clock : Nat} {w i : WindowIx}
  {drive lba count capacity : Word} {first again : DiskReadFn}

theorem mem_live : i ∈ live cache ↔ (cache i).count ≠ 0 := by
  simp only [live, Finset.mem_filter, Finset.mem_univ, true_and]

/-- What holds of the windows while the drives hold `media`, when the windows
were used at these times. -/
structure Coherent (media : Media) (used : WindowIx -> Nat) (clock : Nat) (cache : Cache) : Prop where
  small : ∀ i ∈ live cache, (cache i).drive < 4 ∧ (cache i).count ≤ diskCacheSectors
  holds : ∀ i ∈ live cache, Holds media (cache i).data (cache i).drive (cache i).lba (cache i).count
  ranked : Recency.Ranked (live cache) (ages cache)
  recent : Recency.Recent (live cache) (ages cache) used
  past : ∀ i, used i ≤ clock

/-- Windows may have gone and the others are as they were, except for their
ages. -/
def Shrinks (cache next : Cache) : Prop :=
  ∀ i, (next i).count ≠ 0 -> next i = { cache i with age := (next i).age }

theorem Shrinks.refl (cache : Cache) : Shrinks cache cache := fun _ _ => rfl

theorem Shrinks.member (shrinks : Shrinks cache next) (member : i ∈ live next) : i ∈ live cache := by
  rw [mem_live] at member ⊢
  have same := congrArg Window.count (shrinks i member)
  exact same ▸ member

theorem Shrinks.trans {third : Cache} (first : Shrinks cache next) (second : Shrinks next third) :
    Shrinks cache third := by
  intro i member
  have before := mem_live.mp (second.member (mem_live.mpr member))
  rw [second i member, first i before]

/-! ## Forgetting a window -/

theorem forget_dead (dead : (cache w).count = 0) : forget cache w = cache := by
  unfold forget
  exact if_neg (not_not.mpr dead)

/-- The window goes and the ages of the others close up. -/
theorem forget_live (member : (cache w).count ≠ 0) :
    Shrinks cache (forget cache w) ∧ live (forget cache w) = (live cache).erase w ∧
      ∀ i ∈ (live cache).erase w, ages (forget cache w) i = Recency.leave (ages cache) w i := by
  have self : (forget cache w w).count = 0 := by
    unfold forget
    rw [if_pos member]
    dsimp only
    rw [update_self]
  have others : ∀ i, i ≠ w -> forget cache w i = if (cache i).count ≠ 0 ∧ (cache i).age > (cache w).age then
      { cache i with age := (cache i).age - 1 } else cache i := by
    intro i other
    unfold forget
    rw [if_pos member]
    dsimp only
    rw [update_of_ne other]
  have counts : ∀ i, i ≠ w -> (forget cache w i).count = (cache i).count := by
    intro i other
    rw [others i other]
    split <;> rfl
  refine ⟨fun i here => ?_, ?_, fun i here => ?_⟩
  · have other : i ≠ w := by
      rintro rfl
      exact here self
    rw [others i other]
    split <;> rfl
  · ext i
    rw [Finset.mem_erase, mem_live, mem_live]
    constructor
    · intro here
      have other : i ≠ w := by
        rintro rfl
        exact here self
      exact ⟨other, counts i other ▸ here⟩
    · rintro ⟨other, here⟩
      rw [counts i other]
      exact here
  · rw [Finset.mem_erase, mem_live] at here
    unfold ages Recency.leave
    rw [others i here.1]
    by_cases older : (cache i).age > (cache w).age
    · rw [if_pos ⟨here.2, older⟩, if_pos older]
    · rw [if_neg (fun both => older both.2), if_neg older]

theorem forget_shrinks (cache : Cache) (w : WindowIx) : Shrinks cache (forget cache w) := by
  by_cases dead : (cache w).count = 0
  · rw [forget_dead dead]
    exact Shrinks.refl cache
  · exact (forget_live dead).1

theorem forget_self (cache : Cache) (w : WindowIx) : (forget cache w w).count = 0 := by
  by_cases dead : (cache w).count = 0
  · rw [forget_dead dead]
    exact dead
  · have gone := (forget_live dead).2.1
    by_contra member
    rw [← ne_eq, ← mem_live, gone] at member
    exact (Finset.mem_erase.mp member).1 rfl

theorem Coherent.forget (coherent : Coherent media used clock cache) (w : WindowIx) :
    Coherent media used clock (forget cache w) := by
  by_cases dead : (cache w).count = 0
  · rw [forget_dead dead]
    exact coherent
  · obtain ⟨shrinks, lives, aged⟩ := forget_live dead
    have member := mem_live.mpr dead
    have kept : ∀ i ∈ live (Disk.forget cache w), Disk.forget cache w i =
        { cache i with age := (Disk.forget cache w i).age } := fun i here => shrinks i (mem_live.mp here)
    refine ⟨fun i here => ?_, fun i here => ?_, ?_, ?_, coherent.past⟩
    · rw [kept i here]
      exact coherent.small i (shrinks.member here)
    · rw [kept i here]
      exact coherent.holds i (shrinks.member here)
    · rw [lives]
      exact Recency.ranked_congr aged (coherent.ranked.leave member)
    · rw [lives]
      intro i here j there older
      rw [aged i here, aged j there] at older
      exact coherent.recent.leave coherent.ranked member i here j there older

/-! ## Forgetting many -/

/-- A loop that forgets windows. -/
theorem forgetAll_invariant {motive : Cache -> Prop} (gone : Window -> Bool) (items : List WindowIx)
    (begins : motive cache) (keeps : ∀ cache w, motive cache -> motive (forget cache w)) :
    motive (items.foldl (fun cache i => if gone (cache i) then forget cache i else cache) cache) := by
  induction items generalizing cache with
  | nil => exact begins
  | cons i rest ih =>
    rw [List.foldl_cons]
    apply ih
    split
    · exact keeps cache i begins
    · exact begins

theorem forgetAll_shrinks (gone : Window -> Bool) (items : List WindowIx) (cache : Cache) :
    Shrinks cache (items.foldl (fun cache i => if gone (cache i) then forget cache i else cache) cache) :=
  forgetAll_invariant (motive := Shrinks cache) gone items (Shrinks.refl cache) fun next w shrinks =>
    shrinks.trans (forget_shrinks next w)

/-- No window remains that was to go. -/
theorem forgetAll_gone (gone : Window -> Bool) (steady : ∀ w age, gone { w with age := age } = gone w)
    (items : List WindowIx) (cache : Cache) {i : WindowIx} (member : i ∈ items)
    (remains : (items.foldl (fun cache i => if gone (cache i) then forget cache i else cache) cache i).count ≠ 0) :
    gone (cache i) = false := by
  induction items generalizing cache with
  | nil => cases member
  | cons j rest ih =>
    rw [List.foldl_cons] at remains
    have later := forgetAll_shrinks gone rest (if gone (cache j) then forget cache j else cache)
    have before := mem_live.mp (later.member (mem_live.mpr remains))
    by_cases here : i = j
    · rw [here]
      by_contra goes
      rw [Bool.not_eq_false] at goes
      rw [here, if_pos goes] at before
      exact before (forget_self cache j)
    · have stays := ih _ ((List.mem_cons.mp member).resolve_left here) remains
      by_cases goes : gone (cache j) = true
      · rw [if_pos goes] at before stays
        rw [forget_shrinks cache j i before, steady] at stays
        exact stays
      · rw [if_neg goes] at stays
        exact stays

theorem Coherent.forgetAll (coherent : Coherent media used clock cache) (gone : Window -> Bool) :
    Coherent media used clock (forgetAll gone cache) :=
  forgetAll_invariant gone (List.finRange 4) coherent fun _ w holds => holds.forget w

theorem drop_gone (remains : (diskCacheDrop cache drive i).count ≠ 0) :
    drive ≠ diskCacheAll ∧ (cache i).drive ≠ drive := by
  have stays := forgetAll_gone (fun w => drive = diskCacheAll || w.drive = drive) (fun _ _ => rfl) (List.finRange 4)
    cache (List.mem_finRange i) remains
  rw [Bool.or_eq_false_iff, decide_eq_false_iff_not, decide_eq_false_iff_not] at stays
  exact stays

/-- Everything is dropped. -/
theorem dropAll_dead (cache : Cache) (i : WindowIx) : (diskCacheDrop cache diskCacheAll i).count = 0 := by
  by_contra remains
  exact (drop_gone remains).1 rfl

/-- A window that a write does not meet has none of its sectors. -/
theorem Window.apart_of_meets {w : Window} (full : w.count ≠ 0) (same : w.drive = drive)
    (misses : w.meets drive lba count = false) : count = 0 ∨ w.sectors.Apart (extent lba count) := by
  unfold Window.meets at misses
  rw [decide_eq_true same, decide_eq_true full, Bool.and_true, Bool.and_true] at misses
  by_cases empty : count = 0
  · exact Or.inl empty
  · right
    rw [decide_eq_true empty, Bool.true_and] at misses
    unfold Window.sectors extent Interval.Apart
    dsimp only
    split at misses
    · next behind =>
        rw [decide_eq_false_iff_not, BitVec.not_lt, BitVec.le_def, BitVec.toNat_sub_of_le behind] at misses
        rw [BitVec.le_def] at behind
        omega
    · next before =>
        rw [BitVec.not_le] at before
        rw [decide_eq_false_iff_not, BitVec.not_lt, BitVec.le_def, BitVec.toNat_sub_of_le (BitVec.le_of_lt before)] at misses
        rw [BitVec.lt_def] at before
        omega

theorem write_gone (remains : (diskCacheWrite cache drive lba count i).count ≠ 0) (same : (cache i).drive = drive) :
    count = 0 ∨ (cache i).sectors.Apart (extent lba count) := by
  have shrinks := forgetAll_shrinks (fun w => w.meets drive lba count) (List.finRange 4) cache
  have full := mem_live.mp (shrinks.member (mem_live.mpr remains))
  exact Window.apart_of_meets full same
    (forgetAll_gone (fun w => w.meets drive lba count) (fun _ _ => rfl) (List.finRange 4) cache (List.mem_finRange i)
      remains)

/-! ## What the drives hold changes -/

/-- Nothing changes but these sectors. -/
def Writes (media after : Media) (drive lba count : Word) : Prop :=
  ∀ other position, other ≠ drive ∨ ¬ (extent lba count).Contains (position / 512) ->
    after other position = media other position

theorem Coherent.rewritten {after : Media} (coherent : Coherent media used clock cache)
    (same : ∀ i ∈ live cache, ∀ position, (cache i).sectors.Contains (position / 512) ->
      after (cache i).drive position = media (cache i).drive position) : Coherent after used clock cache := by
  refine ⟨coherent.small, fun i member k inside => ?_, coherent.ranked, coherent.recent, coherent.past⟩
  rw [coherent.holds i member k inside]
  symm
  apply same i member
  unfold Window.sectors extent Interval.Contains
  dsimp only
  omega

theorem Coherent.write {after : Media} (coherent : Coherent media used clock cache)
    (writes : Writes media after drive lba count) :
    Coherent after used clock (diskCacheWrite cache drive lba count) := by
  have shrinks := forgetAll_shrinks (fun w => w.meets drive lba count) (List.finRange 4) cache
  apply (coherent.forgetAll fun w => w.meets drive lba count).rewritten
  intro i member position inside
  rw [mem_live] at member
  have kept := shrinks i member
  change diskCacheWrite cache drive lba count i = _ at kept
  change (diskCacheWrite cache drive lba count i).sectors.Contains _ at inside
  change after (diskCacheWrite cache drive lba count i).drive position = media (diskCacheWrite cache drive lba count i).drive position
  rw [kept] at inside ⊢
  apply writes
  by_cases same : (cache i).drive = drive
  · right
    rcases write_gone member same with empty | apart
    · have none : count.toNat = 0 := by
        rw [empty]
        rfl
      unfold extent Interval.Contains
      dsimp only
      omega
    · exact apart.not_contains inside
  · exact Or.inl same

theorem Coherent.drop {after : Media} (coherent : Coherent media used clock cache)
    (others : drive ≠ diskCacheAll -> ∀ other, other ≠ drive -> after other = media other) :
    Coherent after used clock (diskCacheDrop cache drive) := by
  have shrinks := forgetAll_shrinks (fun w => drive = diskCacheAll || w.drive = drive) (List.finRange 4) cache
  apply (coherent.forgetAll fun w => drive = diskCacheAll || w.drive = drive).rewritten
  intro i member position _
  rw [mem_live] at member
  obtain ⟨one, other⟩ := drop_gone member
  have kept := shrinks i member
  change diskCacheDrop cache drive i = _ at kept
  change after (diskCacheDrop cache drive i).drive position = media (diskCacheDrop cache drive i).drive position
  rw [kept, others one _ other]

/-! ## Using a window -/

theorem touch_spec (cache : Cache) (w : WindowIx) :
    (∀ i, touch cache w i = { cache i with age := (touch cache w i).age }) ∧
      ∀ i ∈ live cache, ages (touch cache w) i = Recency.use (ages cache) w i := by
  have others : ∀ i, i ≠ w -> touch cache w i = if (cache i).count ≠ 0 ∧ (cache i).age < (cache w).age then
      { cache i with age := (cache i).age + 1 } else cache i := by
    intro i other
    unfold touch
    dsimp only
    rw [update_of_ne other]
  have self : touch cache w w = { cache w with age := 0 } := by
    unfold touch
    dsimp only
    rw [update_self, if_neg fun both => Nat.lt_irrefl _ both.2]
  constructor
  · intro i
    by_cases same : i = w
    · rw [same, self]
    · rw [others i same]
      split <;> rfl
  · intro i member
    rw [mem_live] at member
    unfold ages Recency.use
    by_cases same : i = w
    · rw [if_pos same, same, self]
    · rw [if_neg same, others i same]
      by_cases younger : (cache i).age < (cache w).age
      · rw [if_pos ⟨member, younger⟩, if_pos younger]
      · rw [if_neg (fun both => younger both.2), if_neg younger]

theorem touch_live (cache : Cache) (w : WindowIx) : live (touch cache w) = live cache := by
  ext i
  rw [mem_live, mem_live, (touch_spec cache w).1 i]

theorem past_update (past : ∀ i, used i ≤ clock) (w i : WindowIx) : update used w (clock + 1) i ≤ clock + 1 := by
  by_cases same : i = w
  · rw [same, update_self]
  · rw [update_of_ne same]
    exact Nat.le_succ_of_le (past i)

theorem Coherent.touch (coherent : Coherent media used clock cache) (member : w ∈ live cache) :
    Coherent media (update used w (clock + 1)) (clock + 1) (touch cache w) := by
  obtain ⟨kept, aged⟩ := touch_spec cache w
  have lives := touch_live cache w
  refine ⟨fun i here => ?_, fun i here => ?_, ?_, ?_, past_update coherent.past w⟩
  · rw [kept i]
    exact coherent.small i (lives ▸ here)
  · rw [kept i]
    exact coherent.holds i (lives ▸ here)
  · rw [lives]
    exact Recency.ranked_congr aged (coherent.ranked.use member)
  · rw [lives]
    intro i here j there older
    rw [aged i here, aged j there] at older
    have past : ∀ k ∈ live cache, used k < clock + 1 := fun k _ => Nat.lt_succ_of_le (coherent.past k)
    exact coherent.recent.use coherent.ranked member past i here j there older

/-- Time passes. -/
theorem Coherent.later (coherent : Coherent media used clock cache) : Coherent media used (clock + 1) cache :=
  ⟨coherent.small, coherent.holds, coherent.ranked, coherent.recent, fun i => Nat.le_succ_of_le (coherent.past i)⟩

/-- The data of a window that holds nothing changes. -/
theorem Coherent.fill (coherent : Coherent media used clock cache) (dead : (cache w).count = 0) (data : Buffer) :
    Coherent media used clock (fill cache w data) := by
  have counts : ∀ i, (Disk.fill cache w data i).count = (cache i).count ∧ (Disk.fill cache w data i).age = (cache i).age := by
    intro i
    unfold Disk.fill
    by_cases same : i = w
    · rw [same, update_self]
      exact ⟨rfl, rfl⟩
    · rw [update_of_ne same]
      exact ⟨rfl, rfl⟩
  have lives : live (Disk.fill cache w data) = live cache := by
    ext i
    rw [mem_live, mem_live, (counts i).1]
  have aged : ages (Disk.fill cache w data) = ages cache := funext fun i => (counts i).2
  have same : ∀ i ∈ live cache, Disk.fill cache w data i = cache i := by
    intro i member
    have other : i ≠ w := by
      rintro rfl
      exact mem_live.mp member dead
    exact update_of_ne other ..
  refine ⟨fun i here => ?_, fun i here => ?_, ?_, ?_, coherent.past⟩
  · rw [lives] at here
    rw [same i here]
    exact coherent.small i here
  · rw [lives] at here
    rw [same i here]
    exact coherent.holds i here
  · rw [lives, aged]
    exact coherent.ranked
  · rw [lives, aged]
    exact coherent.recent

/-- A window that held nothing comes to hold sectors just read. -/
theorem Coherent.publish (coherent : Coherent media used clock cache) (dead : (cache w).count = 0)
    (valid : drive < 4) (full : count ≠ 0) (small : count ≤ diskCacheSectors)
    (holds : Holds media (cache w).data drive lba count) :
    Coherent media (update used w (clock + 1)) (clock + 1)
      (Disk.touch (update cache w { cache w with drive := drive, lba := lba, age := 4, count := count }) w) := by
  generalize published : update cache w { cache w with drive := drive, lba := lba, age := 4, count := count } =
    next
  have self : next w = { cache w with drive := drive, lba := lba, age := 4, count := count } := by
    rw [← published, update_self]
  have others : ∀ i, i ≠ w -> next i = cache i := by
    intro i other
    rw [← published, update_of_ne other]
  obtain ⟨kept, aged⟩ := touch_spec next w
  have absent : w ∉ live cache := fun member => mem_live.mp member dead
  have lives : live (Disk.touch next w) = insert w (live cache) := by
    rw [touch_live]
    ext i
    rw [Finset.mem_insert, mem_live, mem_live]
    by_cases same : i = w
    · rw [same, self]
      exact ⟨fun _ => Or.inl rfl, fun _ => full⟩
    · rw [others i same]
      exact ⟨Or.inr, fun either => either.resolve_left same⟩
  have first : ages (Disk.touch next w) w = 0 := by
    rw [aged w (mem_live.mpr (by rw [self]; exact full))]
    exact if_pos rfl
  have cards : (live cache).card ≤ 4 := Finset.card_le_univ (live cache)
  have later : ∀ i ∈ live cache, ages (Disk.touch next w) i = ages cache i + 1 := by
    intro i member
    have other : i ≠ w := by
      rintro rfl
      exact absent member
    have low := coherent.ranked.lt member
    rw [aged i (mem_live.mpr (by rw [others i other]; exact mem_live.mp member))]
    unfold Recency.use ages
    rw [if_neg other, others i other, self]
    exact if_pos (Nat.lt_of_lt_of_le low cards)
  refine ⟨fun i here => ?_, fun i here => ?_, ?_, ?_, past_update coherent.past w⟩
  · rw [lives, Finset.mem_insert] at here
    rw [kept i]
    rcases here with same | here
    · rw [same, self]
      exact ⟨valid, small⟩
    · have other : i ≠ w := by
        rintro rfl
        exact absent here
      rw [others i other]
      exact coherent.small i here
  · rw [lives, Finset.mem_insert] at here
    rw [kept i]
    rcases here with same | here
    · rw [same, self]
      exact holds
    · have other : i ≠ w := by
        rintro rfl
        exact absent here
      rw [others i other]
      exact coherent.holds i here
  · rw [lives]
    exact coherent.ranked.enter absent first later
  · rw [lives]
    exact coherent.recent.enter absent first later fun i _ => Nat.lt_succ_of_le (coherent.past i)

/-! ## The victim -/

theorem victim_foldl (items : List WindowIx) (seen : List WindowIx) {v : WindowIx}
    (begins : (cache v).count = 0 ∨ ∀ i ∈ seen, (cache i).count ≠ 0 ∧ ages cache i ≤ ages cache v) :
    (cache (items.foldl (victimVisit cache) v)).count = 0 ∨
      ∀ i ∈ seen ++ items, (cache i).count ≠ 0 ∧ ages cache i ≤ ages cache (items.foldl (victimVisit cache) v) := by
  induction items generalizing seen v with
  | nil =>
    rw [List.append_nil]
    exact begins
  | cons j rest ih =>
    have step : (cache (victimVisit cache v j)).count = 0 ∨ ∀ i ∈ seen ++ [j], (cache i).count ≠ 0 ∧
        ages cache i ≤ ages cache (victimVisit cache v j) := by
      unfold victimVisit
      split
      · next replaces =>
          by_cases dead : (cache j).count = 0
          · exact Or.inl dead
          · obtain ⟨lives, older⟩ := replaces.resolve_left dead
            refine Or.inr fun i member => ?_
            rcases List.mem_append.mp member with early | last
            · obtain ⟨here, most⟩ := begins.resolve_left lives i early
              exact ⟨here, Nat.le_trans most (Nat.le_of_lt older)⟩
            · rw [List.mem_singleton.mp last]
              exact ⟨dead, Nat.le_refl _⟩
      · next stays =>
          rw [not_or, not_and_or, not_not] at stays
          rcases stays.2 with dead | younger
          · exact Or.inl dead
          · refine begins.imp_right fun all i member => ?_
            rcases List.mem_append.mp member with early | last
            · exact all i early
            · rw [List.mem_singleton.mp last]
              exact ⟨stays.1, Nat.le_of_not_lt younger⟩
    have later := ih (seen ++ [j]) step
    rw [List.append_assoc] at later
    exact later

/-- The victim holds nothing, or every window holds something and it is the
oldest. -/
theorem victim_oldest (full : (cache (victim cache)).count ≠ 0) (i : WindowIx) :
    (cache i).count ≠ 0 ∧ ages cache i ≤ ages cache (victim cache) :=
  (victim_foldl (List.finRange 4) [] (Or.inr nofun)).resolve_left full i (List.mem_finRange i)

/-! ## Reading -/

theorem serves_spec {w : Window} (serves : w.serves drive lba count = true) :
    w.count ≠ 0 ∧ w.drive = drive ∧ w.lba.toNat ≤ lba.toNat ∧
      lba.toNat + count.toNat ≤ w.lba.toNat + w.count.toNat := by
  unfold Window.serves at serves
  simp only [Bool.and_eq_true, decide_eq_true_iff] at serves
  obtain ⟨⟨⟨⟨full, same⟩, above⟩, fits⟩, inside⟩ := serves
  rw [BitVec.le_def, BitVec.toNat_sub_of_le above, BitVec.toNat_sub_of_le fits] at inside
  rw [BitVec.le_def] at above fits
  exact ⟨full, same, above, by omega⟩

theorem prefetch_le (lba capacity : Word) : prefetch lba capacity ≤ diskCacheSectors := by
  unfold prefetch
  dsimp only
  generalize (if lba < capacity then capacity - lba else 0) = left
  split
  · exact BitVec.le_refl _
  · next small => exact BitVec.not_lt.mp small

/-- The answer has the bytes the drive holds. -/
def Answers (media : Media) (answer : Answer) (cache : Cache) (drive lba count : Word) : Prop :=
  ∃ w offset, answer.out = some (w, offset) ∧ Holds media (fun i => (cache w).data (offset + i)) drive lba count

/-- An exact read of these sectors has failed with the status. -/
def FailsExactly (first again : DiskReadFn) (drive lba count status : Word) : Prop :=
  ∃ buf, (first drive lba count buf).1 = status ∨ (again drive lba count buf).1 = status

/-- The window that an answer is taken from has been used. -/
def mark (used : WindowIx -> Nat) (now : Nat) (answer : Answer) (cache : Cache) : WindowIx -> Nat :=
  match answer.out with
  | none => used
  | some (w, _) => if (cache w).count = 0 then used else update used w now

/-- What a read comes to. -/
structure ReadSpec (media : Media) (used : WindowIx -> Nat) (clock : Nat) (first again : DiskReadFn)
    (drive lba count : Word) (result : Answer × Cache) : Prop where
  coherent : Coherent media (mark used (clock + 1) result.1 result.2) (clock + 1) result.2
  exact_ : result.1.status = fndOk -> Answers media result.1 result.2 drive lba count
  fails : result.1.status ≠ fndOk ->
    (result.1.status = FndError.badArg.code ∧ (count = 0 ∨ count > diskCacheSectors)) ∨
      FailsExactly first again drive lba count result.1.status

/-- A read that is not published. -/
theorem readSpec_fill (coherent : Coherent media used clock cache) (dead : (cache w).count = 0) {read : DiskReadFn}
    (reads : Reads media read) (either : read = first ∨ read = again) :
    ReadSpec media used clock first again drive lba count
      (⟨(read drive lba count (cache w).data).1, some (w, 0)⟩, fill cache w (read drive lba count (cache w).data).2) := by
  have self : fill cache w (read drive lba count (cache w).data).2 w =
      { cache w with data := (read drive lba count (cache w).data).2 } := update_self ..
  refine ⟨?_, fun done => ⟨w, 0, rfl, fun i inside => ?_⟩, fun _ => Or.inr ⟨(cache w).data, ?_⟩⟩
  · unfold mark
    dsimp only
    have none : (fill cache w (read drive lba count (cache w).data).2 w).count = 0 := by
      rw [self]
      exact dead
    rw [if_pos none]
    exact (coherent.fill dead _).later
  · dsimp only
    rw [self, Nat.zero_add]
    exact reads drive lba count (cache w).data done i inside
  · rcases either with rfl | rfl
    · exact Or.inl rfl
    · exact Or.inr rfl

theorem readSpec_missed (coherent : Coherent media used clock cache) (dead : (cache w).count = 0)
    (reads : Reads media first) (retries : Reads media again) (some_ : count ≠ 0) :
    ReadSpec media used clock first again drive lba count (readMissed first again cache w drive lba count capacity) := by
  unfold readMissed
  dsimp only
  split
  · exact readSpec_fill coherent dead reads (Or.inl rfl)
  · next cached =>
      rw [not_or, BitVec.not_le, BitVec.not_lt] at cached
      have filled := coherent.fill dead (first drive lba (prefetch lba capacity) (cache w).data).2
      have self : fill cache w (first drive lba (prefetch lba capacity) (cache w).data).2 w =
          { cache w with data := (first drive lba (prefetch lba capacity) (cache w).data).2 } := update_self ..
      generalize fill cache w (first drive lba (prefetch lba capacity) (cache w).data).2 = after at filled self ⊢
      split
      · have dropped : Coherent media used clock (diskCacheDrop after diskCacheAll) :=
          filled.drop fun other => absurd rfl other
        exact readSpec_fill dropped (dropAll_dead after w) retries (Or.inr rfl)
      · next done =>
          rw [not_not] at done
          have holds := reads drive lba (prefetch lba capacity) (cache w).data done
          have none : (after w).count = 0 := by
            rw [self]
            exact dead
          have full : prefetch lba capacity ≠ 0 := by
            intro empty
            apply some_
            apply BitVec.eq_of_toNat_eq
            have fits := cached.2
            rw [empty, BitVec.le_def] at fits
            exact Nat.le_zero.mp fits
          have published := filled.publish none cached.1 full (prefetch_le lba capacity) (by rw [self]; exact holds)
          generalize updated : update after w
            { after w with drive := drive, lba := lba, age := 4, count := prefetch lba capacity } = result at published
          have filledIn : result w = { after w with drive := drive, lba := lba, age := 4, count := prefetch lba capacity } := by
            rw [← updated, update_self]
          have place : touch result w w = { result w with age := (touch result w w).age } := (touch_spec result w).1 w
          rw [filledIn, self] at place
          refine ⟨?_, fun _ => ⟨w, 0, rfl, fun i inside => ?_⟩, fun failed => absurd rfl failed⟩
          · unfold mark
            dsimp only
            have held : (touch result w w).count ≠ 0 := by
              rw [place]
              exact full
            rw [if_neg held]
            exact published
          · have fits := cached.2
            rw [BitVec.le_def] at fits
            dsimp only
            rw [place, Nat.zero_add]
            exact holds i (Nat.lt_of_lt_of_le inside (Nat.mul_le_mul_right 512 fits))

theorem diskCacheRead_spec (coherent : Coherent media used clock cache) (reads : Reads media first)
    (retries : Reads media again) (drive lba count capacity : Word) :
    ReadSpec media used clock first again drive lba count (diskCacheRead first again cache drive lba count capacity) := by
  unfold diskCacheRead
  split
  · next refused =>
      refine ⟨coherent.later, fun done => ?_, fun _ => Or.inl ⟨rfl, refused⟩⟩
      exact absurd done (FndError.code_ne_fndOk .badArg)
  · next valid =>
      rw [not_or] at valid
      split
      · next w found =>
          have serves := List.find?_some found
          obtain ⟨full, same, above, fits⟩ := serves_spec serves
          have kept := (touch_spec cache w).1 w
          refine ⟨?_, fun _ => ⟨w, _, rfl, fun i inside => ?_⟩, fun failed => absurd rfl failed⟩
          · unfold mark
            dsimp only
            have held : (touch cache w w).count ≠ 0 := by
              rw [kept]
              exact full
            rw [if_neg held]
            exact coherent.touch (mem_live.mpr full)
          · have offset : (lba - (cache w).lba).toNat = lba.toNat - (cache w).lba.toNat := BitVec.toNat_sub_of_le above
            have held := coherent.holds w (mem_live.mpr full) ((lba - (cache w).lba).toNat * 512 + i) (by omega)
            rw [same] at held
            dsimp only
            rw [kept]
            dsimp only
            rw [held]
            exact congrArg (media drive) (by omega)
      · exact readSpec_missed (coherent.forget (victim cache)) (forget_self cache (victim cache)) reads retries valid.1

/-! ## Runs -/

/-- The cache with the drives behind it.  When a window was used last is not
part of the service: it says what the ages mean. -/
structure Service where
  cache : Cache
  media : Media
  clock : Nat
  used : WindowIx -> Nat

/-- A read, a write or a drop.  What the drives hold after a write or a drop is
up to them. -/
inductive Request where
  | read (first again : DiskReadFn) (drive lba count capacity : Word)
  | write (drive lba count : Word) (after : Media)
  | drop (drive : Word) (after : Media)

namespace Service

/-- A request is served.  A read may fail whenever the drive does; a write may
leave anything in its own sectors, and the media of a drive that is dropped may
have been changed. -/
inductive Step (s : Service) : Request -> Service -> Prop where
  | read {first again : DiskReadFn} (reads : Reads s.media first) (retries : Reads s.media again)
      (drive lba count capacity : Word) :
      Step s (.read first again drive lba count capacity)
        { s with
          cache := (diskCacheRead first again s.cache drive lba count capacity).2
          clock := s.clock + 1
          used := mark s.used (s.clock + 1) (diskCacheRead first again s.cache drive lba count capacity).1
            (diskCacheRead first again s.cache drive lba count capacity).2 }
  | write {drive lba count : Word} {after : Media} (writes : Writes s.media after drive lba count) :
      Step s (.write drive lba count after)
        { s with cache := diskCacheWrite s.cache drive lba count, media := after }
  | drop {drive : Word} {after : Media}
      (others : drive ≠ diskCacheAll -> ∀ other, other ≠ drive -> after other = s.media other) :
      Step s (.drop drive after) { s with cache := diskCacheDrop s.cache drive, media := after }

/-- All windows are zero when the service starts. -/
def start (media : Media) : Service := ⟨fun _ => ⟨0, 0, 0, 0, fun _ => 0⟩, media, 0, fun _ => 0⟩

def machine : System Service Request := ⟨fun s => ∃ media, s = start media, Step⟩

/-- What a client and the drives may rely on. -/
structure Transparent (s : Service) : Prop where
  /-- A read that is answered with OK has the bytes the drive holds. -/
  reads : ∀ first again drive lba count capacity, Reads s.media first -> Reads s.media again ->
    (diskCacheRead first again s.cache drive lba count capacity).1.status = fndOk ->
      Answers s.media (diskCacheRead first again s.cache drive lba count capacity).1
        (diskCacheRead first again s.cache drive lba count capacity).2 drive lba count
  /-- It fails if it asks for no sector or for too many, or if an exact read
  fails. -/
  fails : ∀ first again drive lba count capacity, Reads s.media first -> Reads s.media again ->
    (diskCacheRead first again s.cache drive lba count capacity).1.status ≠ fndOk ->
      ((diskCacheRead first again s.cache drive lba count capacity).1.status = FndError.badArg.code ∧
          (count = 0 ∨ count > diskCacheSectors)) ∨
        FailsExactly first again drive lba count (diskCacheRead first again s.cache drive lba count capacity).1.status
  /-- No window that a write overlaps remains. -/
  writes : ∀ drive lba count i, (diskCacheWrite s.cache drive lba count i).count ≠ 0 ->
    (diskCacheWrite s.cache drive lba count i).drive = drive -> count ≠ 0 ->
      (diskCacheWrite s.cache drive lba count i).sectors.Apart (extent lba count)
  /-- No window of a drive that is dropped remains. -/
  drops : ∀ drive i, (diskCacheDrop s.cache drive i).count ≠ 0 ->
    drive ≠ diskCacheAll ∧ (diskCacheDrop s.cache drive i).drive ≠ drive
  /-- The ages of the live windows are 0 to their number less one. -/
  ranked : (live s.cache).image (ages s.cache) = Finset.range (live s.cache).card
  /-- A window that is replaced while it holds something is the least recently
  used one. -/
  oldest : (s.cache (victim s.cache)).count ≠ 0 ->
    ∀ i, (s.cache i).count ≠ 0 ∧ s.used (victim s.cache) ≤ s.used i

theorem transparent_of_coherent {s : Service} (coherent : Coherent s.media s.used s.clock s.cache) : s.Transparent where
  reads := fun _ _ drive lba count capacity reads retries =>
    (diskCacheRead_spec coherent reads retries drive lba count capacity).exact_
  fails := fun _ _ drive lba count capacity reads retries =>
    (diskCacheRead_spec coherent reads retries drive lba count capacity).fails
  writes := by
    intro drive lba count i remains same some_
    have shrinks := forgetAll_shrinks (fun w => w.meets drive lba count) (List.finRange 4) s.cache
    have kept := shrinks i remains
    change diskCacheWrite s.cache drive lba count i = _ at kept
    rw [kept] at same ⊢
    exact (write_gone remains same).resolve_left some_
  drops := by
    intro drive i remains
    have shrinks := forgetAll_shrinks (fun w => drive = diskCacheAll || w.drive = drive) (List.finRange 4) s.cache
    have kept := shrinks i remains
    change diskCacheDrop s.cache drive i = _ at kept
    rw [kept]
    exact drop_gone remains
  ranked := coherent.ranked
  oldest := by
    intro full i
    obtain ⟨here, older⟩ := victim_oldest full i
    refine ⟨here, ?_⟩
    by_cases same : i = victim s.cache
    · rw [same]
    · have member := mem_live.mpr here
      have last := mem_live.mpr full
      have apart : ages s.cache i ≠ ages s.cache (victim s.cache) := fun equal =>
        same (coherent.ranked.injOn member last equal)
      exact Nat.le_of_lt (coherent.recent i member _ last (Nat.lt_of_le_of_ne older apart))

theorem coherent_start (media : Media) : Coherent media (start media).used (start media).clock (start media).cache := by
  have none : live (start media).cache = ∅ := by
    ext i
    rw [mem_live]
    exact ⟨fun member => absurd rfl member, fun member => absurd member (Finset.notMem_empty i)⟩
  refine ⟨fun i member => ?_, fun i member => ?_, ?_, fun i member => ?_, fun _ => Nat.le_refl 0⟩
  · rw [none] at member
    exact absurd member (Finset.notMem_empty i)
  · rw [none] at member
    exact absurd member (Finset.notMem_empty i)
  · unfold Recency.Ranked
    rw [none]
    rfl
  · rw [none] at member
    exact absurd member (Finset.notMem_empty i)

theorem coherent_step {s after : Service} {request : Request} (coherent : Coherent s.media s.used s.clock s.cache)
    (step : Step s request after) : Coherent after.media after.used after.clock after.cache := by
  cases step with
  | read reads retries drive lba count capacity =>
    exact (diskCacheRead_spec coherent reads retries drive lba count capacity).coherent
  | write writes => exact coherent.write writes
  | drop others => exact coherent.drop others

/-- A drive of zeros that fails no read. -/
def zeroRead : DiskReadFn := fun _ _ _ _ => (fndOk, fun _ => 0)

end Service
end Src32.Disk
