import Src32.Devices.DmacBeats
import Src32.Kernel.KmemCopy
import Src32.Fs.FsCopy

namespace Src32.Kernel.Copy

open Copies Loop Devices
open BitVec (ofNat toNat_add toNat_ofNat)

/-!
# Copies by DMA

`copy_dma` of `mm.c` on channel 1 of the controller, and `kmem_copy` with it.  Between two
polls the bus grants the channel any number of beats; the traffic of other masters is not
part of the copy.
-/

/-- A grant of the bus to the channel. -/
structure Grant where
  idcReady : Bool
  answer : Option Word
  boundary : Bool

/-- The machine that a copy runs on. -/
structure Platform where
  /-- `mm_ram_bytes()`; main RAM ends where the window of the VRAM begins. -/
  ramBytes : Word
  window : ramBytes.toNat ≤ 0x10000000
  /-- What the identification register reads. -/
  dmacId : Word
  /-- The control register of the arbiter. -/
  bmcControl : Word
  space : Dmac.Space
  /-- The grants before each poll. -/
  grants : Nat -> List Grant
  idcAccepts : Bool
  priority : Word

structure Kern where
  ram : Ram
  dmac : Dmac

/-- The word that the next beat of a channel reads, if it is a word. -/
def wordRead (ch : Dmac.Channel) : List Word :=
  match ch.nextOp with
  | some op => if op.write = false ∧ op.width = 4 then [op.address] else []
  | none => []

/-- A grant of the bus to channel 1. -/
def Kern.grant (p : Platform) (k : Kern) (g : Grant) : Kern :=
  if k.dmac.requests g.idcReady 1 = true then
    let s := Dmac.service p.space { dmac := k.dmac, memory := k.ram.memory } 1 g.answer g.boundary
    { dmac := s.dmac, ram := { memory := s.memory, words := wordRead (k.dmac.channels 1) ++ k.ram.words } }
  else k

/-- `COPY_DMA_REG(offset)`. -/
def copyDmaReg (p : Platform) (d : Dmac) (offset : Nat) : Word := d.readRegister offset p.priority

/-- The registers that `copy_dma` writes, in order. -/
def programChannel (p : Platform) (src dst bytes width : Word) (d : Dmac) : Dmac :=
  let d := d.writeWord 0x008 (copyDmaReg p d 0x008 ||| 2) p.idcAccepts
  let d := d.writeWord 0x00C (copyDmaReg p d 0x00C &&& ~~~2#32) p.idcAccepts
  let d := d.writeWord 0x010 2 p.idcAccepts
  let d := d.writeWord 0x130 6 p.idcAccepts
  let d := d.writeWord 0x138 0 p.idcAccepts
  let d := d.writeWord 0x120 src p.idcAccepts
  let d := d.writeWord 0x124 dst p.idcAccepts
  let d := d.writeWord 0x128 bytes p.idcAccepts
  d.writeWord 0x12C (0x100 ||| width) p.idcAccepts

/-- The polling loop. -/
structure Polling where
  kern : Kern
  polls : Nat
  status : Word

def Polling.poll (p : Platform) (t : Polling) : Polling :=
  let kern := (p.grants t.polls).foldl (Kern.grant p) t.kern
  { kern := kern, polls := t.polls + 1, status := copyDmaReg p kern.dmac 0x130 }

/-- The locals of `copy_dma`. -/
structure DmaCopier where
  ram : Ram
  dst : Word
  src : Word
  len : Word

/-- `*dst++ = *src++`, with `--len`. -/
def DmaCopier.byte (c : DmaCopier) : DmaCopier :=
  { ram := c.ram.copyByte c.dst c.src, dst := c.dst + 1, src := c.src + 1, len := c.len - 1 }

/-- The loop of `dst[i] = src[i]` from an index on. -/
def DmaCopier.rest (fuel : Nat) (c : DmaCopier) (i : Word) : Option Ram :=
  (whileLoop (fun t : Ram × Word => decide (t.2.toNat < c.len.toNat))
    (fun t => (t.1.copyByte (c.dst + t.2) (c.src + t.2), t.2 + 1)) fuel (c.ram, i)).map Prod.fst

/-- `copy_dma` behind its bytes of the head. -/
def DmaCopier.transfer (p : Platform) (fuel : Nat) (width : Word) (d : Dmac) (c : DmaCopier) : Option (Bool × Kern) :=
  let bytes := if width ≠ 0 then c.len &&& ~~~3#32 else c.len
  if bytes = 0 then (c.rest fuel 0).map fun ram => (true, { ram := ram, dmac := d })
  else
    let first := Polling.poll p
      { kern := { ram := c.ram, dmac := programChannel p c.src c.dst bytes width d }, polls := 0, status := 0 }
    (whileLoop (fun t => t.status.getLsbD 0) (Polling.poll p) fuel first).bind fun t =>
      let remain := copyDmaReg p t.kern.dmac 0x134
      let d := t.kern.dmac.writeWord 0x130 6 p.idcAccepts
      if t.status.getLsbD 1 = false ∨ t.status.getLsbD 2 = true ∨ remain ≠ 0 then some (false, { t.kern with dmac := d })
      else ({ c with ram := t.kern.ram }.rest fuel bytes).map fun ram => (true, { ram := ram, dmac := d })

/-- `copy_dma`. -/
def copyDma (p : Platform) (fuel : Nat) (dst src len : Word) (k : Kern) : Option (Bool × Kern) :=
  let c : DmaCopier := { ram := k.ram, dst := dst, src := src, len := len }
  if p.ramBytes.toNat ≤ src.toNat ∨ p.ramBytes.toNat ≤ dst.toNat ∨ (p.ramBytes - src).toNat < len.toNat ∨
      (p.ramBytes - dst).toNat < len.toNat then some (false, k)
  else if (src.toNat < dst.toNat ∧ (dst - src).toNat < len.toNat) ∨ (dst.toNat < src.toNat ∧ (src - dst).toNat < len.toNat) then
    some (false, k)
  else if p.dmacId ≠ 0x444D4101 ∨ p.bmcControl.getLsbD 0 = false ∨ (copyDmaReg p k.dmac 0x004).getLsbD 0 = false ∨
      (copyDmaReg p k.dmac 0x130).getLsbD 0 = true then some (false, k)
  else if (dst ^^^ src).toNat % 4 = 0 then
    (whileLoop (fun c : DmaCopier => decide (c.len ≠ 0 ∧ c.src.toNat % 4 ≠ 0)) DmaCopier.byte fuel c).bind
      (DmaCopier.transfer p fuel 2 k.dmac)
  else c.transfer p fuel 0 k.dmac

/-- `kmem_copy`. -/
def kmemCopy (p : Platform) (fuel : Nat) (dst src len : Word) (k : Kern) : Option Kern :=
  if dst = src then some k
  else
    (if 256 ≤ len.toNat then copyDma p fuel dst src len k else some (false, k)).bind fun done =>
      if done.1 = true then some done.2
      else (kmemCopyCpu fuel dst src len done.2.ram).map fun ram => { done.2 with ram := ram }

/-!
## What copies by DMA leave

Each write beat of the channel takes the copy on by one element, so whenever the transfer
ends the copy of the first bytes is done; of all of them, if it ends as the driver wants.
-/

section Transfer

variable {p : Platform} {m : Memory} {dst src : Word} {len j w bytes n : Nat} {k : Kern}

/-- The part of two disjoint ranges of main RAM that goes by DMA. -/
structure Span (dst src : Word) (len j w bytes : Nat) : Prop where
  apart : Apart dst src len
  low : src.toNat + len ≤ 0x10000000
  lowToo : dst.toNat + len ≤ 0x10000000
  inside : j + bytes ≤ len
  wide : w = 1 ∨ w = 4
  whole : bytes % w = 0
  aligned : (src.toNat + j) % w = 0
  alignedToo : (dst.toNat + j) % w = 0

/-- The channel has moved `n` of the bytes. -/
structure Sending (m : Memory) (dst src : Word) (j w bytes n : Nat) (ch : Dmac.Channel) : Prop where
  status : ch.status = Dmac.statusBusy
  from_ : ch.src = src + ofNat 32 j
  to_ : ch.dst = dst + ofNat 32 j
  width : ch.width = some w
  moves : ch.control.getLsbD 2 = false ∧ ch.control.getLsbD 4 = false
  source : ch.srcCurrent = src + ofNat 32 (j + n)
  target : ch.dstCurrent = dst + ofNat 32 (j + n)
  remain : ch.remain.toNat = bytes - n
  less : n < bytes
  whole : n % w = 0
  buffer : ch.phase = .write -> ∀ i < w, Dmac.byteOf ch.buffer w i = m (src + ofNat 32 (j + n + i))

structure Going (m : Memory) (dst src : Word) (len j w bytes n : Nat) (k : Kern) : Prop where
  progress : Progress m dst src len (j + n) k.ram
  enabled : k.dmac.enabled = true
  channel : Sending m dst src j w bytes n (k.dmac.channels 1)

theorem Sending.busy {ch : Dmac.Channel} (sending : Sending m dst src j w bytes n ch) : ch.busy = true := by
  rw [Dmac.Channel.busy, sending.status]
  decide

/-- The transfer goes on, or is over with a prefix of the copy done: all of it if the
status says so and nothing remains. -/
inductive Moves (m : Memory) (dst src : Word) (len j w bytes : Nat) (k : Kern) : Prop where
  | going (n : Nat) (going : Going m dst src len j w bytes n k)
  | done (n : Nat) (idle : (k.dmac.channels 1).busy = false) (progress : Progress m dst src len n k.ram)
      (complete : (k.dmac.channels 1).status.getLsbD 2 = false -> n = j + bytes)

/-- The beats that are left. -/
def beatsLeft (k : Kern) : Nat :=
  if (k.dmac.channels 1).busy = true then
    2 * (k.dmac.channels 1).remain.toNat + if (k.dmac.channels 1).phase = .read then 1 else 0
  else 0

theorem fail_channel (d : Dmac) (index code : Nat) : (d.fail index code).channels index =
    (d.channels index).failed code := by
  unfold Dmac.fail Dmac.raiseIrq
  split <;> exact Dmac.setChannel_channels index _

/-- The bus refuses a beat. -/
theorem Going.broken (going : Going m dst src len j w bytes n k) {t : Kern} (ram : t.ram.memory = k.ram.memory)
    (words : ∀ a ∈ t.ram.words, Touches src len a) (dmac : t.dmac = k.dmac.fail 1 2) :
    Moves m dst src len j w bytes t ∧ beatsLeft t < beatsLeft k := by
  have remain := going.channel.remain
  have less := going.channel.less
  have status : (t.dmac.channels 1).status = 0x24 := by
    rw [dmac, fail_channel, Dmac.Channel.failed, going.channel.status]
    rfl
  have idle : (t.dmac.channels 1).busy = false := by
    rw [Dmac.Channel.busy, status]
    decide
  refine ⟨.done (j + n) idle ⟨going.progress.bound, ram.trans going.progress.memory, words⟩ ?_, ?_⟩
  · rw [status]
    exact fun no => absurd no (by decide)
  · unfold beatsLeft
    rw [idle, going.channel.busy, if_neg (by decide), if_pos rfl]
    omega

/-- A beat is read. -/
theorem Going.filled (going : Going m dst src len j w bytes n k) (phase : (k.dmac.channels 1).phase = .read)
    {t : Kern} {value : Word}
    {boundary : Bool} (ram : t.ram.memory = k.ram.memory) (words : ∀ a ∈ t.ram.words, Touches src len a)
    (dmac : t.dmac = k.dmac.completeOp 1 value boundary)
    (read : ∀ i < w, Dmac.byteOf value w i = m (src + ofNat 32 (j + n + i))) :
    Moves m dst src len j w bytes t ∧ beatsLeft t < beatsLeft k := by
  obtain ⟨progress, enabled, ⟨status, from_, to_, width, moves, source, target, remain, less, whole, buffer⟩⟩ := going
  rw [Dmac.completeOp, if_pos phase] at dmac
  have channel : t.dmac.channels 1 = { k.dmac.channels 1 with buffer := value, phase := .write } := by
    rw [dmac]
    exact Dmac.setChannel_channels 1 _
  refine ⟨.going n ⟨⟨progress.bound, ram.trans progress.memory, words⟩, by rw [dmac]; exact enabled, ?_⟩, ?_⟩
  · rw [channel]
    exact ⟨status, from_, to_, width, moves, source, target, remain, less, whole, fun _ => read⟩
  · have busy : (k.dmac.channels 1).busy = true := by
      rw [Dmac.Channel.busy, status]
      decide
    unfold beatsLeft
    rw [channel, if_pos busy, if_pos (show Dmac.Channel.busy { k.dmac.channels 1 with buffer := value, phase := .write } = true from busy),
      phase, if_pos rfl, if_neg (show ¬ Dmac.Phase.write = .read by decide)]
    dsimp only
    omega

/-- A beat is written. -/
theorem Going.wrote (going : Going m dst src len j w bytes n k) (span : Span dst src len j w bytes)
    (phase : (k.dmac.channels 1).phase = .write) (plain : (k.dmac.channels 1).usesIdc = false) {t : Kern}
    {value : Word} {boundary : Bool}
    (ram : t.ram.memory = Dmac.stored k.ram.memory (dst + ofNat 32 (j + n)) w (k.dmac.channels 1).buffer)
    (words : t.ram.words = k.ram.words) (dmac : t.dmac = k.dmac.completeOp 1 value boundary) :
    Moves m dst src len j w bytes t ∧ beatsLeft t < beatsLeft k := by
  obtain ⟨progress, enabled, sending⟩ := going
  have busy := sending.busy
  obtain ⟨status, from_, to_, width, moves, source, target, remain, less, whole, buffer⟩ := sending
  obtain ⟨apart, low, lowToo, inside, wide, even, -, -⟩ := span
  have fits : n + w ≤ bytes := by
    obtain rfl | rfl := wide <;> omega
  have positive : 0 < w := by omega
  have next : Progress m dst src len (j + (n + w)) t.ram := by
    rw [← Nat.add_assoc]
    refine progress.wrote apart (by omega) (fun b => ?_) words
    rw [ram, Dmac.stored]
    split
    · exact buffer phase _ ‹_›
    · rfl
  have step : (ofNat 32 ((k.dmac.channels 1).width.getD 1)).toNat = w := by
    rw [width, Option.getD_some, toNat_ofNat]
    omega
  have moved : (k.dmac.channels 1).advance = { k.dmac.channels 1 with
      srcCurrent := src + ofNat 32 (j + (n + w)), dstCurrent := dst + ofNat 32 (j + (n + w)),
      remain := (k.dmac.channels 1).remain - ofNat 32 w } := by
    unfold Dmac.Channel.advance
    dsimp only
    rw [if_pos moves.1, if_pos moves.2, if_neg (by omega), source, target, width, Option.getD_some, place_add, place_add, Nat.add_assoc]
  have left : ((k.dmac.channels 1).remain - ofNat 32 w).toNat = bytes - (n + w) := by
    rw [width, Option.getD_some] at step
    rw [BitVec.toNat_sub_of_le (by rw [BitVec.le_def]; omega), step]
    omega
  have still : (k.dmac.channels 1).advance.usesIdc = false := by
    rw [moved]
    exact plain
  rw [Dmac.completeOp, if_neg (by rw [phase]; decide)] at dmac
  dsimp only at dmac
  rw [if_neg (fun both => by rw [still] at both; exact absurd both.1 (by decide))] at dmac
  by_cases last : (k.dmac.channels 1).advance.remain = 0
  · rw [if_pos last] at dmac
    have all : n + w = bytes := by
      rw [moved] at last
      have zero := congrArg BitVec.toNat last
      dsimp only at zero
      rw [left, show (0 : Word).toNat = 0 from rfl] at zero
      omega
    have channel : (t.dmac.channels 1).status = Dmac.statusDone := by
      rw [dmac]
      unfold Dmac.raiseIrq
      split
      all_goals
        rw [Dmac.setChannel_channels]
        dsimp only
        rw [show (k.dmac.channels 1).advance.status = Dmac.statusBusy from status]
        decide
    have idle : (t.dmac.channels 1).busy = false := by
      rw [Dmac.Channel.busy, channel]
      decide
    refine ⟨.done (j + (n + w)) idle next fun _ => by rw [all], ?_⟩
    unfold beatsLeft
    rw [idle, busy, if_neg (by decide), if_pos rfl]
    omega
  · rw [if_neg last, moved] at dmac
    have channel : t.dmac.channels 1 = _ := (congrArg (fun d => d.channels 1) dmac).trans (Dmac.setChannel_channels 1 _)
    have more : n + w < bytes := by
      refine Nat.lt_of_le_of_ne fits fun all => last (BitVec.eq_of_toNat_eq ?_)
      rw [moved]
      exact left.trans (by rw [all, Nat.sub_self]; rfl)
    have multiple : (n + w) % w = 0 := by
      rw [Nat.add_mod_right]
      exact whole
    refine ⟨.going (n + w) ⟨next, by rw [dmac]; exact enabled, ?_⟩, ?_⟩
    · rw [channel]
      exact ⟨status, from_, to_, width, moves, rfl, rfl, left, more, multiple, fun no => by cases no⟩
    · have goes : (t.dmac.channels 1).busy = true := by
        rw [channel]
        exact busy
      have fewer : (t.dmac.channels 1).remain.toNat = bytes - (n + w) := by
        rw [channel]
        exact left
      unfold beatsLeft
      rw [goes, busy, if_pos rfl, if_pos rfl, fewer, channel, phase, if_pos rfl, if_neg (by decide)]
      omega

theorem Going.grant (going : Going m dst src len j w bytes n k) (span : Span dst src len j w bytes) (g : Grant) :
    Moves m dst src len j w bytes (k.grant p g) ∧ beatsLeft (k.grant p g) < beatsLeft k := by
  have busy := going.channel.busy
  obtain ⟨status, toSrc, toDst, width, moves, source, target, remain, less, whole, buffer⟩ := going.channel
  have even := span.whole
  have wide := span.wide
  have inside := span.inside
  have aligned := span.aligned
  have low := span.low
  have lowToo := span.lowToo
  have fits : n + w ≤ bytes := by
    obtain rfl | rfl := wide <;> omega
  have memory (a : Word) (i : Nat) (bound : a.toNat + len ≤ 0x10000000) (le : i ≤ len) :
      (a + ofNat 32 i).toNat = a.toNat + i := by
    rw [toNat_add, toNat_ofNat]
    omega
  have data (a : Word) (bound : a.toNat + len ≤ 0x10000000) : a + ofNat 32 j ≠ Dmac.idcDataAddress := by
    intro same
    have place := memory a j bound (by omega)
    rw [same, Dmac.idcDataAddress, toNat_ofNat] at place
    omega
  have plain : (k.dmac.channels 1).usesIdc = false := by
    rw [Dmac.Channel.usesIdc, toSrc, toDst]
    simp [data src span.low, data dst span.lowToo]
  have asks : k.dmac.requests g.idcReady 1 = true := by
    simp [Dmac.requests, going.enabled, busy, plain]
  have from_ := memory src (j + n) span.low (by omega)
  have to_ := memory dst (j + n) span.lowToo (by omega)
  unfold Kern.grant
  rw [if_pos asks]
  dsimp only
  unfold Dmac.service
  cases phase : (k.dmac.channels 1).phase with
  | read =>
    have next : (k.dmac.channels 1).nextOp = some
      { address := src + ofNat 32 (j + n), width := w, write := false, value := 0 } := by
      simp [Dmac.Channel.nextOp, busy, width, phase, source]
    have words : ∀ a ∈ wordRead (k.dmac.channels 1) ++ k.ram.words, Touches src len a := by
      intro a member
      rw [wordRead, next] at member
      obtain here | there := List.mem_append.mp member
      · dsimp only at here
        split at here
        · rename_i four
          obtain rfl := List.mem_singleton.mp here
          refine ⟨?_, j + n, by omega, rfl⟩
          rw [from_]
          have size : w = 4 := four.2
          rw [size] at aligned whole
          omega
        · cases here
      · exact going.progress.words a there
    dsimp only
    rw [next]
    dsimp only
    obtain refused | ⟨value, done, read⟩ := Dmac.executeDmaOp_ram p.space k.ram.memory
      { address := src + ofNat 32 (j + n), width := w, write := false, value := 0 } g.answer wide (by dsimp only; omega)
    · rw [refused]
      exact going.broken rfl words rfl
    · rw [done]
      refine going.filled phase rfl words rfl fun i small => ?_
      rw [if_neg (by decide), read rfl i small, Dmac.byteAddress, place_add]
      exact going.progress.source span.apart (by omega)
  | write =>
    have next : (k.dmac.channels 1).nextOp = some
        { address := dst + ofNat 32 (j + n), width := w, write := true, value := (k.dmac.channels 1).buffer } := by
      simp [Dmac.Channel.nextOp, busy, width, phase, target]
    have words : wordRead (k.dmac.channels 1) ++ k.ram.words = k.ram.words := by
      rw [wordRead, next]
      rfl
    dsimp only
    rw [next, words]
    dsimp only
    obtain refused | ⟨value, done, -⟩ := Dmac.executeDmaOp_ram p.space k.ram.memory
      { address := dst + ofNat 32 (j + n), width := w, write := true, value := (k.dmac.channels 1).buffer } g.answer
      wide (by dsimp only; omega)
    · rw [refused]
      exact going.broken rfl going.progress.words rfl
    · rw [done]
      exact going.wrote span phase plain rfl rfl rfl

/-! ## The polling loop -/

theorem Moves.grant (moves : Moves m dst src len j w bytes k) (span : Span dst src len j w bytes) (g : Grant) :
    Moves m dst src len j w bytes (k.grant p g) ∧ beatsLeft (k.grant p g) ≤ beatsLeft k ∧
      ((k.dmac.channels 1).busy = true -> beatsLeft (k.grant p g) < beatsLeft k) := by
  cases moves with
  | going n going =>
    obtain ⟨next, less⟩ := going.grant (p := p) span g
    exact ⟨next, Nat.le_of_lt less, fun _ => less⟩
  | done n idle progress complete =>
    have rests : k.grant p g = k := by
      rw [Kern.grant, if_neg]
      simp [Dmac.requests, idle]
    rw [rests, idle]
    exact ⟨.done n idle progress complete, Nat.le_refl _, fun no => by cases no⟩

theorem Moves.grants (span : Span dst src len j w bytes) (l : List Grant) (moves : Moves m dst src len j w bytes k) :
    Moves m dst src len j w bytes (l.foldl (Kern.grant p) k) ∧ beatsLeft (l.foldl (Kern.grant p) k) ≤ beatsLeft k ∧
      (l ≠ [] -> (k.dmac.channels 1).busy = true -> beatsLeft (l.foldl (Kern.grant p) k) < beatsLeft k) := by
  induction l generalizing k with
  | nil => exact ⟨moves, Nat.le_refl _, fun no => absurd rfl no⟩
  | cons g l ih =>
    obtain ⟨next, le, less⟩ := moves.grant (p := p) span g
    obtain ⟨all, leAll, -⟩ := ih next
    exact ⟨all, Nat.le_trans leAll le, fun _ busy => Nat.lt_of_le_of_lt leAll (less busy)⟩

theorem Moves.beats (moves : Moves m dst src len j w bytes k) : beatsLeft k ≤ 2 * bytes + 1 := by
  unfold beatsLeft
  cases moves with
  | going n going =>
    have remain := going.channel.remain
    split
    · split <;> omega
    · omega
  | done n idle progress complete =>
    rw [idle, if_neg (by decide)]
    exact Nat.zero_le _

/-- Grants come before every poll, and there are polls and rounds enough. -/
def Fair (p : Platform) (len fuel : Nat) : Prop := (∀ i, p.grants i ≠ []) ∧ 2 * len + 1 ≤ fuel

variable {fuel : Nat} {c : DmaCopier} {d : Dmac} {width : Word}

theorem polling_ends (span : Span dst src len j w bytes) (moves : Moves m dst src len j w bytes k) (i : Nat) :
    Ends (whileLoop (fun t => t.status.getLsbD 0) (Polling.poll p) fuel (Polling.poll p { kern := k, polls := i, status := 0 }))
      (Fair p len fuel) fun t => ∃ n, Progress m dst src len n t.kern.ram ∧
        (t.status.getLsbD 2 = false -> n = j + bytes) := by
  have polled (t : Polling) (moves : Moves m dst src len j w bytes t.kern) :=
    moves.grants (p := p) span (p.grants t.polls)
  refine (whileLoop_ends (fun t => Moves m dst src len j w bytes t.kern ∧ t.status = (t.kern.dmac.channels 1).status)
    (fun t => beatsLeft t.kern) ⟨(polled _ moves).1, rfl⟩ ?_ ?_).imp ?_
  · rintro t ⟨moves, status⟩ goes
    obtain ⟨next, -, less⟩ := polled t moves
    rw [status] at goes
    exact ⟨⟨next, rfl⟩, fun fair => less (fair.1 t.polls) goes⟩
  · intro fair
    have beats := moves.beats
    have first := (polled { kern := k, polls := i, status := 0 } moves).2.1
    have inside := span.inside
    have enough := fair.2
    exact Nat.le_trans first (by dsimp only; omega)
  · rintro t ⟨⟨moves, status⟩, stops⟩
    rw [status] at stops ⊢
    cases moves with
    | going n going => exact absurd going.channel.busy (by rw [Dmac.Channel.busy, stops]; decide)
    | done n idle progress complete => exact ⟨n, progress, complete⟩

/-! ## The driver -/

/-- Where a part of the copy begins. -/
structure DmaCopier.At (m : Memory) (dst src : Word) (len j : Nat) (c : DmaCopier) : Prop where
  progress : Progress m dst src len j c.ram
  dst : c.dst = dst + ofNat 32 j
  src : c.src = src + ofNat 32 j
  len : c.len.toNat = len - j

/-- A byte of the head. -/
theorem DmaCopier.At.byte (begins : c.At m dst src len j) (apart : Apart dst src len) (more : c.len ≠ 0) :
    c.byte.At m dst src len (j + 1) ∧ c.byte.len.toNat < c.len.toNat := by
  have count := begins.len
  have positive : 0 < c.len.toNat := Nat.pos_of_ne_zero fun none => more (BitVec.eq_of_toNat_eq none)
  have fewer : (c.len - 1).toNat = c.len.toNat - 1 :=
    BitVec.toNat_sub_of_le (show (1 : Word).toNat ≤ c.len.toNat from positive)
  have copied := begins.progress.byte apart (by omega)
  rw [← begins.dst, ← begins.src] at copied
  refine ⟨⟨copied, ?_, ?_, ?_⟩, ?_⟩
  · rw [DmaCopier.byte, begins.dst]
    exact place_add dst j 1
  · rw [DmaCopier.byte, begins.src]
    exact place_add src j 1
  · rw [show c.byte.len = c.len - 1 from rfl, fewer]
    omega
  · rw [show c.byte.len = c.len - 1 from rfl, fewer]
    omega

/-- The loop over the last bytes. -/
theorem DmaCopier.At.rest_ends (begins : c.At m dst src len j) (apart : Apart dst src len) {i : Word} {ram : Ram}
    (inside : j + i.toNat ≤ len) (progress : Progress m dst src len (j + i.toNat) ram) :
    Ends (DmaCopier.rest fuel { c with ram := ram } i) (Fair p len fuel) (Progress m dst src len len) := by
  have short := apart.short
  have count := begins.len
  unfold DmaCopier.rest
  rw [Option.map_eq_bind]
  refine (whileLoop_ends (fun t : Ram × Word => j + t.2.toNat ≤ len ∧ Progress m dst src len (j + t.2.toNat) t.1)
    (fun t => len - (j + t.2.toNat)) ⟨inside, progress⟩ ?_ ?_).bind fun t ends => Ends.pure ?_
  · rintro ⟨ram, i⟩ ⟨inside, progress⟩ goes
    have more : i.toNat < c.len.toNat := of_decide_eq_true goes
    have next : (i + 1).toNat = i.toNat + 1 := by
      rw [toNat_add, show (1 : Word).toNat = 1 from rfl]
      omega
    dsimp only at inside progress
    have copied := progress.byte apart (by omega)
    dsimp only
    rw [← place_add, ← place_add, ← begins.dst, ← begins.src, ← place_at, ← place_at] at copied
    rw [next, ← Nat.add_assoc]
    exact ⟨⟨by omega, copied⟩, fun _ => by omega⟩
  · intro fair
    have enough := fair.2
    omega
  · obtain ⟨⟨inside, progress⟩, stops⟩ := ends
    have stop : ¬ t.2.toNat < c.len.toNat := of_decide_eq_false stops
    rw [show j + t.2.toNat = len by omega] at progress
    exact progress

/-- The channel is started on the words or bytes that it moves. -/
theorem DmaCopier.At.moves (begins : c.At m dst src len j) (span : Span dst src len j w bytes) {n : Word}
    (size : n.toNat = bytes)
    (some_ : n ≠ 0) (kind : width = 0 ∧ w = 1 ∨ width = 2 ∧ w = 4) (enabled : d.enabled = true)
    (idle : (d.channels 1).busy = false) :
    Moves m dst src len j w bytes { ram := c.ram, dmac := programChannel p c.src c.dst n width d } := by
  have short := span.apart.short
  have inside := span.inside
  have place (a : Word) (bound : a.toNat + len ≤ 0x10000000) : (a + ofNat 32 j).toNat = a.toNat + j := by
    rw [toNat_add, toNat_ofNat]
    omega
  have from_ := place src span.low
  have to_ := place dst span.lowToo
  rw [← begins.src] at from_
  rw [← begins.dst] at to_
  have low := span.low
  have lowToo := span.lowToo
  have memory (a : Word) (low : a.toNat ≤ 0x10000000) : Dmac.isIdcAddress a = false := by
    unfold Dmac.isIdcAddress Dmac.idcBase
    exact decide_eq_false fun both => by omega
  have wide (ch : Dmac.Channel) (control : ch.control = 0x100 ||| width) :
    ch.width = some w ∧ ch.control.toNat / 4 % 4 = 0 ∧
      ch.control.toNat / 16 % 4 = 0 ∧ ch.control.getLsbD 2 = false ∧ ch.control.getLsbD 4 = false := by
    unfold Dmac.Channel.width
    rw [control]
    obtain ⟨rfl, rfl⟩ | ⟨rfl, rfl⟩ := kind <;> decide
  obtain ⟨ch, own, own', own'', control, started⟩ := Dmac.started_of_program (a := p.idcAccepts)
    (d := { d with channelEnable := (d.channelEnable.setWidth 32 ||| 2).setWidth 8 &&& 0x3F#8,
                   irqEnable := (d.irqEnable.setWidth 32 &&& ~~~2#32).setWidth 8 &&& 0x3F#8, irqStatus := d.irqStatus &&& ~~~2#8 })
    c.src c.dst n width idle enabled (by simp) (kind.imp And.left And.left) (by
      intro ch own own' own'' control
      obtain ⟨width, still, still', -⟩ := wide ch control
      refine ⟨?_, w, width, ?_⟩
      · rw [Dmac.Channel.endpoint, own, own', memory c.src (by omega), memory c.dst (by omega)]
        rfl
      · have aligned := span.aligned
        have alignedToo := span.alignedToo
        have whole := span.whole
        simp only [Dmac.Channel.legal, own, own', own'', still, still', from_, to_, size, aligned, alignedToo, whole]
        simp only [ne_eq, not_true_eq_false, gt_iff_lt, Nat.not_lt_zero, or_false, or_self, decide_eq_true_eq]
        exact some_)
  obtain ⟨wider, -, -, moves⟩ := wide ch control
  have program : programChannel p c.src c.dst n width d = _ := started
  rw [program]
  refine .going 0 ⟨begins.progress, enabled, ?_⟩
  dsimp only
  rw [Dmac.setChannel_channels]
  refine ⟨rfl, own.trans begins.src, own'.trans begins.dst, wider, moves, own.trans begins.src, own'.trans begins.dst, ?_, ?_,
    Nat.zero_mod w, fun no => by cases no⟩
  · exact (congrArg BitVec.toNat own'').trans size
  · rw [← size]
    exact Nat.pos_of_ne_zero fun none => some_ (BitVec.eq_of_toNat_eq none)

/-- A prefix of the copy is done, and all of it if the driver says so. -/
def Copied (m : Memory) (dst src : Word) (len : Nat) (out : Bool × Kern) : Prop :=
  ∃ n, Progress m dst src len n out.2.ram ∧ (out.1 = true -> n = len)

theorem DmaCopier.At.transfer_ends (begins : c.At m dst src len j) (apart : Apart dst src len)
    (low : src.toNat + len ≤ 0x10000000)
    (lowToo : dst.toNat + len ≤ 0x10000000) (enabled : d.enabled = true) (idle : (d.channels 1).busy = false)
    (kind : width = 0 ∨ width = 2 ∧ (c.len ≠ 0 -> (src.toNat + j) % 4 = 0 ∧ (dst.toNat + j) % 4 = 0)) :
    Ends (c.transfer p fuel width d) (Fair p len fuel) (Copied m dst src len) := by
  have count := begins.len
  have bound := begins.progress.bound
  unfold DmaCopier.transfer
  dsimp only
  generalize size : (if width ≠ 0 then c.len &&& ~~~3#32 else c.len) = n
  have least : n.toNat ≤ c.len.toNat ∧ (width = 2 -> n.toNat % 4 = 0) := by
    rw [← size]
    split
    · have low : (c.len &&& 3#32).toNat = c.len.toNat % 4 := Word.and_low _ 2
      have split := Word.and_not_add_and c.len 3#32
      omega
    · rename_i zero
      refine ⟨Nat.le_refl _, ?_⟩
      rintro rfl
      exact absurd (show (2 : Word) ≠ 0 by decide) zero
  split
  · rw [Option.map_eq_bind]
    exact (begins.rest_ends (i := 0) apart bound begins.progress).bind fun ram done => Ends.pure ⟨len, done, fun _ => rfl⟩
  · rename_i some_
    obtain ⟨w, kinds, span⟩ : ∃ w, (width = 0 ∧ w = 1 ∨ width = 2 ∧ w = 4) ∧ Span dst src len j w n.toNat := by
      obtain zero | ⟨two, aligned⟩ := kind
      · exact ⟨1, .inl ⟨zero, rfl⟩, apart, low, lowToo, by omega, .inl rfl, Nat.mod_one _, Nat.mod_one _, Nat.mod_one _⟩
      · have more : c.len ≠ 0 := by
          rintro none
          rw [none] at least
          exact some_ (BitVec.eq_of_toNat_eq (Nat.le_zero.mp least.1))
        exact ⟨4, .inr ⟨two, rfl⟩, apart, low, lowToo, by omega, .inr rfl, least.2 two, (aligned more).1, (aligned more).2⟩
    refine (polling_ends span (begins.moves (p := p) span rfl some_ kinds enabled idle) 0).bind fun t ends => ?_
    obtain ⟨moved, progress, complete⟩ := ends
    split
    · exact Ends.pure ⟨moved, progress, fun no => by cases no⟩
    · rename_i fine
      rw [not_or, not_or] at fine
      obtain rfl := complete (Bool.eq_false_of_not_eq_true fine.2.1)
      rw [Option.map_eq_bind]
      exact (begins.rest_ends apart (by omega) progress).bind fun ram done => Ends.pure ⟨len, done, fun _ => rfl⟩

/-- `copy_dma` copies a prefix, and all if it returns 1. -/
theorem copyDma_ends {len : Word} (apart : Apart dst src len.toNat) (progress : Progress m dst src len.toNat 0 k.ram) :
    Ends (copyDma p fuel dst src len k) (Fair p len.toNat fuel) (Copied m dst src len.toNat) := by
  have nothing : Copied m dst src len.toNat (false, k) := ⟨0, progress, fun no => by cases no⟩
  unfold copyDma
  dsimp only
  split
  · exact Ends.pure nothing
  · rename_i fits
    split
    · exact Ends.pure nothing
    · split
      · exact Ends.pure nothing
      · rename_i ready
        simp only [not_or] at fits ready
        have low : src.toNat + len.toNat ≤ 0x10000000 ∧ dst.toNat + len.toNat ≤ 0x10000000 := by
          obtain ⟨src, dst, size, sizeToo⟩ := fits
          have window := p.window
          rw [BitVec.toNat_sub_of_le (by rw [BitVec.le_def]; omega)] at size sizeToo
          omega
        have enabled : k.dmac.enabled = true := by
          have on := ready.2.2.1
          rw [show copyDmaReg p k.dmac 0x004 = if k.dmac.enabled = true then 1 else 0 from rfl] at on
          by_contra off
          rw [if_neg off] at on
          exact on (by decide)
        have idle : (k.dmac.channels 1).busy = false := Bool.eq_false_of_not_eq_true ready.2.2.2
        have start : ({ ram := k.ram, dst := dst, src := src, len := len } : DmaCopier).At m dst src len.toNat 0 :=
          ⟨progress, (BitVec.add_zero dst).symm, (BitVec.add_zero src).symm, rfl⟩
        split
        · rename_i same
          refine (whileLoop_ends (fun c : DmaCopier => ∃ j, c.At m dst src len.toNat j) (fun c => c.len.toNat) ⟨0, start⟩ ?_ ?_).bind
            fun c ends => ?_
          · rintro c ⟨j, begins⟩ goes
            have more : c.len ≠ 0 := (of_decide_eq_true goes).1
            obtain ⟨next, less⟩ := begins.byte apart more
            exact ⟨⟨j + 1, next⟩, fun _ => less⟩
          · intro fair
            have enough := fair.2
            dsimp only
            omega
          · obtain ⟨⟨j, begins⟩, stops⟩ := ends
            refine begins.transfer_ends apart low.1 low.2 enabled idle (.inr ⟨rfl, fun more => ?_⟩)
            have stop : ¬ (c.len ≠ 0 ∧ c.src.toNat % 4 ≠ 0) := of_decide_eq_false stops
            have aligned : c.src.toNat % 4 = 0 := by
              by_contra odd
              exact stop ⟨more, odd⟩
            have bound := begins.progress.bound
            rw [begins.src, toNat_add, toNat_ofNat] at aligned
            have alike := (xor_aligned dst src).mp same
            omega
        · exact start.transfer_ends apart low.1 low.2 enabled idle (.inl rfl)

/-- `kmem_copy` copies, by DMA or on the CPU. -/
theorem kmemCopy_ends {len : Word} (apart : Apart dst src len.toNat) (progress : Progress m dst src len.toNat 0 k.ram) :
    Ends (kmemCopy p fuel dst src len k)
      (Fair p len.toNat fuel) fun t => Progress m dst src len.toNat len.toNat t.ram := by
  unfold kmemCopy
  split
  · rename_i same
    have none : len.toNat = 0 := by
      by_contra some_
      exact apart 0 0 (by omega) (by omega) (by rw [same])
    rw [none] at progress ⊢
    exact Ends.pure progress
  · have tried : Ends (if 256 ≤ len.toNat then copyDma p fuel dst src len k else some (false, k)) (Fair p len.toNat fuel)
        (Copied m dst src len.toNat) := by
      split
      · exact copyDma_ends apart progress
      · exact Ends.pure ⟨0, progress, fun no => by cases no⟩
    refine tried.bind fun done copied => ?_
    obtain ⟨n, progress, complete⟩ := copied
    split
    · rename_i success
      obtain rfl := complete success
      exact Ends.pure progress
    · rw [Option.map_eq_bind]
      refine (kmemCopyCpu_ends apart progress fun fair => ?_).bind fun ram done => Ends.pure done
      have enough := fair.2
      omega

/-- The destination is what the source was, and no other byte changed. -/
structure ByteCopy (m : Memory) (dst src : Word) (len : Nat) (after : Memory) : Prop where
  inside : ∀ i < len, after (dst + ofNat 32 i) = m (src + ofNat 32 i)
  outside : ∀ a, (∀ i < len, a ≠ dst + ofNat 32 i) -> after a = m a

theorem ByteCopy.of_progress (apart : Apart dst src len) {r : Ram} (progress : Progress m dst src len len r) :
    ByteCopy m dst src len r.memory := by
  have short := apart.short
  rw [progress.memory]
  constructor
  · intro i less
    have place : dst + ofNat 32 i - dst = ofNat 32 i := by rw [BitVec.add_comm, BitVec.add_sub_cancel]
    rw [copied, place, toNat_ofNat, if_pos (by omega)]
  · intro a other
    refine if_neg fun inside => other _ inside ?_
    rw [BitVec.ofNat_toNat, BitVec.setWidth_eq, BitVec.add_comm, BitVec.sub_add_cancel]

/-- Whatever the addresses, the alignments and the length of two disjoint ranges, `kmem_copy`,
by DMA or without it or after a transfer that failed, and `fs_copy` copy the bytes, and a
word that they read has a byte of the source in it. -/
theorem copies_by_words (dst src len : Word) (m : Memory) (apart : Apart dst src len.toNat) :
    (∀ (p : Platform) (d : Dmac) (fuel : Nat),
      (∀ k, kmemCopy p fuel dst src len { ram := { memory := m, words := [] }, dmac := d } = some k ->
        ByteCopy m dst src len.toNat k.ram.memory ∧ ∀ a ∈ k.ram.words, Touches src len.toNat a) ∧
      (Fair p len.toNat fuel -> ∃ k, kmemCopy p fuel dst src len { ram := { memory := m, words := [] }, dmac := d } = some k)) ∧
    ∀ (little : Bool) (fuel : Nat),
      (∀ r, Fs.fsCopy little fuel dst src len { memory := m, words := [] } = some r ->
        ByteCopy m dst src len.toNat r.memory ∧ ∀ a ∈ r.words, Touches src len.toNat a) ∧
      (len.toNat ≤ fuel -> ∃ r, Fs.fsCopy little fuel dst src len { memory := m, words := [] } = some r) := by
  have start : Progress m dst src len.toNat 0 { memory := m, words := [] } := Progress.start (by simp)
  refine ⟨fun p d fuel => ?_, fun little fuel => ?_⟩
  · obtain ⟨sound, returns⟩ := kmemCopy_ends (p := p)
      (k := { ram := { memory := m, words := [] }, dmac := d }) apart start
    exact ⟨fun k same => ⟨.of_progress apart (sound k same), (sound k same).words⟩, returns⟩
  · obtain ⟨sound, returns⟩ := Fs.fsCopy_ends apart m
    exact ⟨fun r same => ⟨.of_progress apart (sound r same), (sound r same).words⟩, returns⟩

theorem copies_by_words_twenty : ∃ r, Fs.fsCopy false 20 0x101 0x203 20
    { memory := fun a => a.setWidth 8, words := [] } = some r ∧
    r.memory 0x101 = 0x03 ∧ r.memory 0x114 = 0x16 := by
  have apart : Apart 0x101 0x203 20 := by
    intro i j first second same
    have places := congrArg BitVec.toNat same
    rw [toNat_add, toNat_add, toNat_ofNat, toNat_ofNat, show (0x101 : Word).toNat = 0x101 from rfl,
      show (0x203 : Word).toNat = 0x203 from rfl] at places
    omega
  obtain ⟨copies, returns⟩ := (copies_by_words 0x101 0x203 20 (fun a => a.setWidth 8) apart).2 false 20
  obtain ⟨r, same⟩ := returns (by decide)
  have moved := (copies r same).1.inside
  exact ⟨r, same, moved 0 (by decide), moved 19 (by decide)⟩

end Transfer

end Src32.Kernel.Copy
