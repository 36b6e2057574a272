import Src32.Kernel.AddressSpace
import Src32.Libfnd.HeapCalls

namespace Src32.Libfnd

open Kernel Wax Tiling
open Function (update update_self update_of_ne)

/-!
# The heap of every run

Whatever a program allocates and frees and whenever the kernel refuses to grow
the heap: the blocks tile it, no two free ones are neighbours, and what a live
block holds stays.
-/

/-! ## Freeing -/

/-- The used blocks of a list in which one is freed. -/
theorem placed_freed {place y : Nat} {before behind : List Tile} {b c : Tile} (used : c.used = true) :
    (y, c) ∈ placed 8 place (before ++ (⟨b.size, false⟩ :: behind)) ↔
      (y, c) ∈ placed 8 place (before ++ b :: behind) ∧ y ≠ place + span 8 before := by
  rw [placed_append, placed_append, placed, placed, List.mem_append, List.mem_append, List.mem_cons, List.mem_cons]
  dsimp only
  have other : (y, c) ≠ (place + span 8 before, (⟨b.size, false⟩ : Tile)) := by
    intro same
    cases same
    cases used
  rw [or_iff_right other]
  constructor
  · rintro (front | back)
    · have inside := (placed_inside front).2
      exact ⟨.inl front, by omega⟩
    · have inside := (placed_inside back).1
      exact ⟨.inr (.inr back), by omega⟩
  · rintro ⟨front | same | back, away⟩
    · exact .inl front
    · cases same
      exact absurd rfl away
    · exact .inr back

/-- One used block is gone, the others are as they were. -/
structure Freed (s t : Program) (blocks next : List Tile) (x : Nat) : Prop where
  tiled : t.Tiled next
  block : ∀ y c, c.used = true ->
    ((y, c) ∈ placed 8 t.first.toNat next ↔ (y, c) ∈ placed 8 s.first.toNat blocks ∧ y ≠ x)
  kept : ∀ y c, (y, c) ∈ placed 8 s.first.toNat blocks -> c.used = true -> y ≠ x ->
    ∀ z : Word, y ≤ z.toNat -> z.toNat < y + 8 + c.size -> t.mem z = s.mem z

namespace Program

variable {s : Program} {blocks : List Tile} {b : Tile} {p : Word} {x : Nat}

theorem memFree_freed (tiled : s.Tiled blocks) (member : (x, b) ∈ placed 8 s.first.toNat blocks) (here : p.toNat = x + 8) :
    ∃ t next, s.memFree p = some t ∧ Freed s t blocks next x := by
  obtain ⟨before, behind, rfl, place⟩ := placed_iff.mp member
  have fits := tiled.fits
  have inside := placed_inside member
  have header : (p - 8).toNat = x := by
    have step : (8 : Word).toNat = 8 := rfl
    rw [BitVec.toNat_sub_of_le (by rw [BitVec.le_def]; omega), here]
    omega
  have four : (p - 8 + 4).toNat = x + 4 := by
    rw [BitVec.toNat_add, header]
    have step : (4 : Word).toNat = 4 := rfl
    omega
  have outside : ∀ z : Word, z.toNat < x ∨ x + 8 ≤ z.toNat -> (s.setUsed (p - 8) 0).mem z = s.mem z :=
    fun z apart => storeWord_outside (by omega) 0 (by omega)
  have tiles : Tiles (s.setUsed (p - 8) 0).mem s.first.toNat (before ++ (⟨b.size, false⟩ :: behind)) := by
    obtain ⟨front, middle⟩ := tiles_append.mp tiled.tiles
    rw [← place, ← header] at middle
    obtain ⟨own, back⟩ := tiles_cons.mp middle
    rw [span_append, span_cons] at fits
    refine tiles_append.mpr ⟨front.of_inside (by omega) fun z _ most => outside z (by omega), ?_⟩
    rw [← place, ← header]
    refine tiles_cons.mpr ⟨header_mark own (by omega) 0, ?_⟩
    exact back.of_inside (by rw [header]; omega) fun z least _ => outside z (by omega)
  have whole : s.first.toNat + span 8 (before ++ (⟨b.size, false⟩ :: behind)) = s.heapEnd.toNat := by
    rw [← tiled.whole, span_append, span_append, span_cons, span_cons]
  have shorter : (before ++ (⟨b.size, false⟩ :: behind)).length < s.fuel := by
    have enough := tiled.enough
    rw [List.length_append, List.length_cons] at enough ⊢
    exact enough
  have positive : 0 < s.first.toNat := tiled.positive.resolve_right (by simp)
  obtain ⟨mem, done, laid, _, kept⟩ := @sweep_merges (s.setUsed (p - 8) 0) s.first _ s.fuel tiles whole (.inl positive) shorter
  refine ⟨{ s with mem := mem }, merge 8 (before ++ (⟨b.size, false⟩ :: behind)), ?_, ⟨?_, ?_, ?_⟩⟩
  · unfold memFree
    rw [if_neg]
    · exact done
    · rintro rfl
      have zero : (0 : Word).toNat = 0 := rfl
      omega
  · refine ⟨laid, ?_, merge_apart, merge_dvd (Nat.dvd_refl 8) ?_, tiled.begins, tiled.ends⟩
    · rw [span_merge]
      exact whole
    · intro c inside_
      rw [List.mem_append, List.mem_cons] at inside_
      rcases inside_ with front | rfl | back
      · exact tiled.sizes c (List.mem_append_left _ front)
      · exact tiled.sizes b (mem_of_placed member)
      · exact tiled.sizes c (List.mem_append_right _ (List.mem_cons_of_mem _ back))
  · intro y c used
    rw [placed_merge used, placed_freed used, ← place]
  · intro y c other used away z least most
    have still : (y, c) ∈ placed 8 s.first.toNat (before ++ (⟨b.size, false⟩ :: behind)) := by
      rw [placed_freed used, ← place]
      exact ⟨other, away⟩
    refine (kept y c still used z least most).trans (outside z ?_)
    rcases Nat.lt_or_gt_of_ne away with less | more
    · have apart := placed_disjoint other member less
      omega
    · have apart := placed_disjoint member other more
      omega

end Program

/-! ## Runs -/

/-- A program and the blocks it has, with the sizes that it has asked for. -/
structure Session where
  program : Program
  live : Word -> Option Word

/-- A program runs: it allocates, frees what it has, and writes into it. -/
inductive Reaches : Session -> Prop where
  | start {brk : Word} (mem : Memory) (positive : 0 < brk.toNat) (limit : brk.toNat ≤ 2 ^ 31) (aligned : 8 ∣ brk.toNat) :
      Reaches ⟨⟨0, 0, mem, brk⟩, fun _ => none⟩
  | alloc {t : Session} (earlier : Reaches t) {kernel : Word -> Growth} (kind : Kind kernel t.program) (asked : Word)
      {p : Word} {next : Program} (done : t.program.memAlloc kernel asked = some (p, next)) :
      Reaches ⟨next, if p = 0 then t.live else update t.live p (some asked)⟩
  | free {t : Session} (earlier : Reaches t) {p : Word} (live : p = 0 ∨ (t.live p).isSome = true) {next : Program}
      (done : t.program.memFree p = some next) : Reaches ⟨next, update t.live p none⟩
  | write {t : Session} (earlier : Reaches t) {p n offset : Word} (live : t.live p = some n) (inside : offset < n)
      (value : Byte) :
      Reaches ⟨{ t.program with mem := update t.program.mem (p + offset) value }, t.live⟩

/-- The live blocks are the used ones. -/
structure Session.Owns (t : Session) (blocks : List Tile) : Prop where
  tiled : t.program.Tiled blocks
  live : ∀ p n, t.live p = some n -> ∃ x b, p.toNat = x + 8 ∧ (x, b) ∈ placed 8 t.program.first.toNat blocks ∧
    b.used = true ∧ n.toNat ≤ b.size
  used : ∀ x b, (x, b) ∈ placed 8 t.program.first.toNat blocks -> b.used = true ->
    ∃ p n, p.toNat = x + 8 ∧ t.live p = some n

variable {t : Session} {blocks : List Tile}

theorem Session.Owns.alloc (owns : t.Owns blocks) {next : Program} {more : List Tile} {p asked : Word}
    (given : Given t.program next blocks more p asked) :
    p ≠ 0 ∧ t.live p = none ∧ Session.Owns ⟨next, update t.live p (some asked)⟩ more := by
  obtain ⟨tiled, ⟨x, b, place, used, large, fresh, blocks_⟩, _⟩ := given
  have some_ : p ≠ 0 := by
    rintro rfl
    have zero : (0 : Word).toNat = 0 := rfl
    omega
  have none : t.live p = none := by
    rw [Option.eq_none_iff_forall_ne_some]
    intro n live
    obtain ⟨y, c, here, member, usedC, _⟩ := owns.live p n live
    have same : y = x := by omega
    rw [same] at member
    exact fresh c usedC member
  refine ⟨some_, none, tiled, fun q n live => ?_, fun y c member usedC => ?_⟩
  · by_cases own : q = p
    · rw [own] at live ⊢
      have asks : some asked = some n := (update_self p (some asked) t.live).symm.trans live
      cases asks
      exact ⟨x, b, place, (blocks_ x b used).mpr (.inr rfl), used, large⟩
    · have before : t.live q = some n := (update_of_ne own (some asked) t.live).symm.trans live
      obtain ⟨y, c, here, member, usedC, room⟩ := owns.live q n before
      exact ⟨y, c, here, (blocks_ y c usedC).mpr (.inl member), usedC, room⟩
  · rcases (blocks_ y c usedC).mp member with before | same
    · obtain ⟨q, n, here, live⟩ := owns.used y c before usedC
      refine ⟨q, n, here, ?_⟩
      have other : q ≠ p := by
        rintro rfl
        rw [none] at live
        cases live
      exact (update_of_ne other (some asked) t.live).trans live
    · cases same
      exact ⟨p, asked, place, update_self p (some asked) t.live⟩

theorem Session.Owns.free (owns : t.Owns blocks) {next : Program} {fewer : List Tile} {p : Word} {x : Nat}
    (here : p.toNat = x + 8) (freed : Freed t.program next blocks fewer x) :
    Session.Owns ⟨next, update t.live p none⟩ fewer := by
  obtain ⟨tiled, blocks_, _⟩ := freed
  refine ⟨tiled, fun q n live => ?_, fun y c member usedC => ?_⟩
  · have other : q ≠ p := by
      rintro rfl
      have gone : (none : Option Word) = some n := (update_self q none t.live).symm.trans live
      cases gone
    have before : t.live q = some n := (update_of_ne other none t.live).symm.trans live
    obtain ⟨y, c, place, member, usedC, room⟩ := owns.live q n before
    refine ⟨y, c, place, (blocks_ y c usedC).mpr ⟨member, ?_⟩, usedC, room⟩
    rintro rfl
    exact other (BitVec.eq_of_toNat_eq (place.trans here.symm))
  · obtain ⟨before, away⟩ := (blocks_ y c usedC).mp member
    obtain ⟨q, n, place, live⟩ := owns.used y c before usedC
    refine ⟨q, n, place, ?_⟩
    have other : q ≠ p := by
      rintro rfl
      omega
    exact (update_of_ne other none t.live).trans live

theorem Session.Owns.write (owns : t.Owns blocks) {p n offset : Word} (live : t.live p = some n) (inside : offset < n)
    (value : Byte) :
    Session.Owns ⟨{ t.program with mem := update t.program.mem (p + offset) value }, t.live⟩ blocks := by
  obtain ⟨x, b, place, member, used, room⟩ := owns.live p n live
  have fits := owns.tiled.fits
  have bounds := placed_inside member
  have below : offset.toNat < n.toNat := inside
  have target : (p + offset).toNat = x + 8 + offset.toNat := by
    rw [BitVec.toNat_add]
    omega
  refine ⟨⟨?_, owns.tiled.whole, owns.tiled.apart, owns.tiled.sizes, owns.tiled.begins, owns.tiled.ends⟩, owns.live,
    owns.used⟩
  refine owns.tiled.tiles.of_headers (by omega) fun y c other z least most => ?_
  refine update_of_ne ?_ _ _
  rintro rfl
  rcases Nat.lt_trichotomy x y with less | rfl | more
  · have apart := placed_disjoint member other less
    omega
  · omega
  · have apart := placed_disjoint other member more
    omega

/-- The blocks of every run. -/
theorem owns_of_reaches (reaches : Reaches t) : ∃ blocks, t.Owns blocks := by
  induction reaches with
  | @start brk mem positive limit aligned =>
    exact ⟨[], ⟨tiles_nil, rfl, List.isChain_nil, nofun, .inl ⟨rfl, rfl⟩, positive, limit, aligned⟩, nofun, nofun⟩
  | @alloc t _ kernel kind asked p next done ih =>
    obtain ⟨blocks, owns⟩ := ih
    rcases Program.memAlloc_given owns.tiled kind asked with nothing | ⟨q, u, more, gives, given⟩
    · rw [nothing] at done
      cases done
      rw [if_pos rfl]
      exact ⟨blocks, owns⟩
    · rw [gives] at done
      cases done
      obtain ⟨some_, _, still⟩ := owns.alloc given
      rw [if_neg some_]
      exact ⟨more, still⟩
  | @free t _ p live next done ih =>
    obtain ⟨blocks, owns⟩ := ih
    by_cases zero : p = 0
    · have same : t.program.memFree p = some t.program := if_pos zero
      rw [same] at done
      cases done
      have none : t.live p = none := by
        rw [Option.eq_none_iff_forall_ne_some]
        intro n some_
        obtain ⟨x, _, place, _⟩ := owns.live p n some_
        rw [zero] at place
        have number : (0 : Word).toNat = 0 := rfl
        omega
      rw [← none, Function.update_eq_self]
      exact ⟨blocks, owns⟩
    · obtain ⟨n, some_⟩ := Option.isSome_iff_exists.mp (live.resolve_left zero)
      obtain ⟨x, b, place, member, _⟩ := owns.live p n some_
      obtain ⟨u, fewer, frees, freed⟩ := Program.memFree_freed owns.tiled member place
      rw [frees] at done
      cases done
      exact ⟨fewer, owns.free place freed⟩
  | write _ live inside value ih =>
    obtain ⟨blocks, owns⟩ := ih
    exact ⟨blocks, owns.write live inside value⟩

/-- The bytes of the block behind a header. -/
def Session.room (t : Session) (p : Word) : Nat := (t.program.sizeOf (p - 8)).toNat

/-- The heap is tiled, and the live blocks lie in it side by side. -/
structure Session.Sound (t : Session) : Prop where
  tiled : ∃ blocks, t.program.Tiled blocks
  live : ∀ p n, t.live p = some n -> 8 ∣ p.toNat ∧ n.toNat ≤ t.room p ∧ t.program.first.toNat + 8 ≤ p.toNat ∧
    p.toNat + t.room p ≤ t.program.heapEnd.toNat
  disjoint : ∀ p n q m, t.live p = some n -> t.live q = some m -> p ≠ q ->
    p.toNat + t.room p + 8 ≤ q.toNat ∨ q.toNat + t.room q + 8 ≤ p.toNat

theorem placed_dvd {unit place x : Nat} {b : Tile} {list : List Tile} (header : unit ∣ 8) (start : unit ∣ place)
    (sizes : ∀ c ∈ list, unit ∣ c.size) (member : (x, b) ∈ placed 8 place list) : unit ∣ x := by
  induction list generalizing place with
  | nil => cases member
  | cons c rest ih =>
    rw [placed, List.mem_cons] at member
    rcases member with same | later
    · cases same
      exact start
    · exact ih (Nat.dvd_add (Nat.dvd_add start header) (sizes c List.mem_cons_self))
        (fun d inside => sizes d (List.mem_cons_of_mem _ inside)) later

/-- Where a live block is. -/
theorem Session.Owns.block (owns : t.Owns blocks) {p n : Word} (live : t.live p = some n) :
    ∃ x b, p.toNat = x + 8 ∧ (x, b) ∈ placed 8 t.program.first.toNat blocks ∧ b.used = true ∧ n.toNat ≤ b.size ∧
      b.size = t.room p := by
  obtain ⟨x, b, place, member, used, large⟩ := owns.live p n live
  refine ⟨x, b, place, member, used, large, ?_⟩
  have header : (p - 8).toNat = x := by
    have step : (8 : Word).toNat = 8 := rfl
    rw [BitVec.toNat_sub_of_le (by rw [BitVec.le_def]; omega), place]
    omega
  rw [← header] at member
  exact (owns.tiled.tiles (p - 8) b member).1.symm

theorem Session.Owns.sound (owns : t.Owns blocks) : t.Sound := by
  refine ⟨⟨blocks, owns.tiled⟩, fun p n live => ?_, fun p n q m first second other => ?_⟩
  · obtain ⟨x, b, place, member, _, large, size⟩ := owns.block live
    have inside := placed_inside member
    have whole := owns.tiled.whole
    have start : 8 ∣ t.program.first.toNat := by
      rcases owns.tiled.begins with ⟨zero, _⟩ | ⟨_, aligned, _⟩
      · rw [zero]
        exact Nat.dvd_zero 8
      · exact aligned
    have aligned := placed_dvd (Nat.dvd_refl 8) start owns.tiled.sizes member
    rw [← size, place]
    exact ⟨Nat.dvd_add aligned (Nat.dvd_refl 8), large, by omega, by omega⟩
  · obtain ⟨x, b, place, member, _, _, size⟩ := owns.block first
    obtain ⟨y, c, placeQ, memberQ, _, _, sizeQ⟩ := owns.block second
    have away : x ≠ y := by
      rintro rfl
      exact other (BitVec.eq_of_toNat_eq (place.trans placeQ.symm))
    rw [← size, ← sizeQ, place, placeQ]
    rcases Nat.lt_or_gt_of_ne away with less | more
    · have apart := placed_disjoint member memberQ less
      omega
    · have apart := placed_disjoint memberQ member more
      omega

/-- Before the first call. -/
def untouched : Session := ⟨⟨0, 0, fun _ => 0, 0x1000⟩, fun _ => none⟩

/-- The heap is one free block, and it serves what fits in it whatever the kernel answers. -/
structure Program.Whole (s : Program) : Prop where
  unused : s.usedOf s.first = 0
  only : s.nextOf s.first = s.heapEnd
  serves : ∀ asked, asked ≠ 0 -> asked ≤ s.sizeOf s.first ->
    ∃ next, ∀ kernel, s.memAlloc kernel asked = some (s.first + 8, next)

/-- Whatever has happened before, nothing of the heap is lost when all is freed. -/
theorem freed_heap_whole (reaches : Reaches t) (nothing : ∀ p, t.live p = none)
    (begun : t.program.first ≠ t.program.heapEnd) : t.program.Whole := by
  obtain ⟨blocks, owns⟩ := owns_of_reaches reaches
  have free : ∀ b ∈ blocks, b.used = false := by
    intro b member
    obtain ⟨before, behind, whole⟩ := List.append_of_mem member
    refine Bool.eq_false_iff.mpr fun used => ?_
    obtain ⟨p, n, _, live⟩ := owns.used _ b (placed_iff.mpr ⟨before, behind, whole, rfl⟩) used
    rw [nothing p] at live
    cases live
  obtain ⟨⟨tiles, whole, apart, sizes, begins, ends⟩, _, _⟩ := owns
  generalize t.program = s at *
  rcases blocks with _ | ⟨b, _ | ⟨c, rest⟩⟩
  · exact absurd (BitVec.eq_of_toNat_eq whole) begun
  · obtain ⟨size, mark⟩ := (tiles_cons.mp tiles).1
    have unused := mark.mpr (free b List.mem_cons_self)
    have unit := sizes b List.mem_cons_self
    rw [span_cons, span_nil] at whole
    rcases begins with ⟨zero, none_⟩ | ⟨positive, aligned, last⟩
    · exact absurd (zero.trans none_.symm) begun
    rw [← last] at ends
    refine ⟨unused, BitVec.eq_of_toNat_eq ?_, fun asked some_ room => ?_⟩
    · rw [Program.nextOf_toNat size (by omega)]
      omega
    · have fits : asked.toNat ≤ b.size := size ▸ room
      have most : asked.toNat ≤ 0x7FFFFFF0 := by omega
      have rounded := Program.rounded_toNat most
      have enough : ((asked + 7) &&& ~~~7).toNat ≤ b.size := by omega
      have found : s.search ((asked + 7) &&& ~~~7) s.fuel s.first 0 = some (.fits s.first) := by
        unfold Program.fuel Program.search
        rw [if_pos (Program.inside_heap positive (Nat.le_of_eq whole)), if_pos ⟨unused, BitVec.le_def.mpr (size.symm ▸ enough)⟩]
      refine ⟨s.take s.first ((asked + 7) &&& ~~~7), fun kernel => ?_⟩
      unfold Program.memAlloc
      rw [if_neg fun refused => refused.elim some_ (Nat.not_lt.mpr most)]
      dsimp only
      rw [found]
  · -- Two free blocks would be neighbours.
    have both := (List.isChain_cons_cons.mp apart).1
    rw [free b List.mem_cons_self, free c (List.mem_cons_of_mem _ List.mem_cons_self)] at both
    exact absurd both (by decide)

/-- The memory of a program that has one block of 16 bytes. -/
def oneBlock : Memory := storeWord (storeWord (fun a => if 0x1000 ≤ a ∧ a < 0x1000 + 24 then 0 else 0) 0x1000 16) 0x1004 1

def oneGrowth (delta : Word) : Growth := if delta = 24 then .granted fun _ => 0 else .refused .noMemory

theorem freed_heap_whole_released :
    Program.Whole ⟨0x1000, 0x1018, storeWord oneBlock 0x1004 0, 0x1018⟩ := by
  have start := Reaches.start (fun _ => 0) (by decide : 0 < (0x1000 : Word).toNat) (by decide) (by decide)
  have kind : Kind oneGrowth ⟨0, 0, fun _ => 0, 0x1000⟩ := by
    intro delta fresh granted
    unfold oneGrowth at granted
    split_ifs at granted with same
    rw [same]
    decide
  have gives : Program.memAlloc ⟨0, 0, fun _ => 0, 0x1000⟩ oneGrowth 16 = some (0x1008, ⟨0x1000, 0x1018, oneBlock, 0x1018⟩) := rfl
  have frees : Program.memFree ⟨0x1000, 0x1018, oneBlock, 0x1018⟩ 0x1008 =
      some ⟨0x1000, 0x1018, storeWord oneBlock 0x1004 0, 0x1018⟩ := rfl
  have freed : Reaches ⟨_, update (update (fun _ => none) 0x1008 (some 16)) 0x1008 none⟩ :=
    .free (.alloc start kind 16 gives) (.inr rfl) frees
  rw [Function.update_idem, Function.update_eq_self_iff.mpr rfl] at freed
  exact freed_heap_whole freed (fun _ => rfl) (by decide)

end Src32.Libfnd
