import Src32.Devices.Dmac
import Src32.Machine.Bytes
import Mathlib.Tactic.IntervalCases

namespace Src32.Devices

/-!
# Beats in main RAM

A beat of one or four bytes at an aligned address lies in one word of the memory,
so the bus carries it out as a whole or leaves the memory alone.
-/

namespace Dmac

variable {space : Space} {m : Memory} {op : DmaOp} {answer : Option Word}

/-- The memory with the bytes of a value stored. -/
def stored (m : Memory) (address : Word) (width : Nat) (value : Word) : Memory := fun b =>
  if (b - address).toNat < width then byteOf value width (b - address).toNat else m b

/-! ## Bytes -/

theorem eq_byteAddress {a b : Word} {k : Nat} (bound : k < 2 ^ 32) : b = byteAddress a k ↔ (b - a).toNat = k := by
  constructor
  · rintro rfl
    rw [byteAddress, BitVec.add_comm, BitVec.add_sub_cancel, BitVec.toNat_ofNat, Nat.mod_eq_of_lt bound]
  · rintro rfl
    rw [byteAddress, BitVec.ofNat_toNat, BitVec.setWidth_eq, BitVec.add_comm, BitVec.sub_add_cancel]

/-- The bytes of an aligned beat have one word. -/
theorem mapped_beat {a : Word} {width k : Nat} (wide : width = 1 ∨ width = 4) (aligned : a.toNat % width = 0)
    (ends : a.toNat + width < 2 ^ 32) (byte : k < width) : space.mapped (byteAddress a k) = space.mapped a := by
  have place : (byteAddress a k).toNat = a.toNat + k := by
    rw [byteAddress, BitVec.toNat_add, BitVec.toNat_ofNat]
    omega
  apply space.whole
  rw [place]
  obtain rfl | rfl := wide <;> omega

theorem writeBytes_mapped (l : List Nat) (bound : ∀ k ∈ l, k < 2 ^ 32)
    (mapped : ∀ k ∈ l, space.mapped (byteAddress op.address k) = true) (m : Memory) :
    writeBytes space op l m = (some op.value, fun b =>
      if (b - op.address).toNat ∈ l then byteOf op.value op.width (b - op.address).toNat else m b) := by
  induction l generalizing m with
  | nil => simp [writeBytes]
  | cons k rest ih =>
    rw [writeBytes, if_pos (mapped k List.mem_cons_self),
      ih (fun l member => bound l (List.mem_cons_of_mem _ member)) (fun l member => mapped l (List.mem_cons_of_mem _ member))]
    refine Prod.ext rfl (funext fun b => ?_)
    have own := eq_byteAddress (a := op.address) (b := b) (bound k List.mem_cons_self)
    by_cases later : (b - op.address).toNat ∈ rest
    · simp only [later, if_true, List.mem_cons, or_true]
    · by_cases here : (b - op.address).toNat = k
      · simp only [List.mem_cons, here, true_or, if_true]
        rw [if_neg (here ▸ later), own.mpr here, Function.update_self]
      · simp only [later, if_false, List.mem_cons, here, or_false]
        exact Function.update_of_ne (fun same => here (own.mp same)) _ _

theorem ofBytes_snoc (a b c d e : Byte) : Word.ofBytes a b c d <<< 8 ||| e.setWidth 32 = Word.ofBytes b c d e := by
  rw [Word.ofBytes_shift]
  simp only [Word.ofBytes, BitVec.zeroExtend_eq_setWidth]
  simp

/-- The value of a read beat has the bytes of the memory. -/
theorem readBytes_mapped {a : Word} {width : Nat} (wide : width = 1 ∨ width = 4)
    (mapped : ∀ k < width, space.mapped (byteAddress a k) = true) (m : Memory) :
    ∃ value, readBytes space m a (List.range width) 0 = some value ∧ ∀ k < width, byteOf value width k = m (byteAddress a k) := by
  have first (b : Byte) : (0 : Word) <<< 8 ||| b.setWidth 32 = Word.ofBytes 0 0 0 b := by
    rw [← Word.ofBytes_zero, ofBytes_snoc]
  obtain rfl | rfl := wide
  · refine ⟨Word.ofBytes 0 0 0 (m (byteAddress a 0)), ?_, ?_⟩
    · rw [show List.range 1 = [0] by decide, readBytes, if_pos (mapped 0 (by decide)), readBytes, first]
    · intro k byte
      obtain rfl : k = 0 := by omega
      exact (Word.byte_ofBytes _ _ _ _).2.2.2
  · refine ⟨Word.ofBytes (m (byteAddress a 0)) (m (byteAddress a 1)) (m (byteAddress a 2)) (m (byteAddress a 3)), ?_, ?_⟩
    · rw [show List.range 4 = [0, 1, 2, 3] by decide, readBytes, if_pos (mapped 0 (by decide)), readBytes,
        if_pos (mapped 1 (by decide)), readBytes, if_pos (mapped 2 (by decide)), readBytes,
        if_pos (mapped 3 (by decide)), readBytes, first, ofBytes_snoc, ofBytes_snoc, ofBytes_snoc]
    · intro k byte
      obtain rfl | rfl | rfl | rfl : k = 0 ∨ k = 1 ∨ k = 2 ∨ k = 3 := by omega
      · exact (Word.byte_ofBytes _ _ _ _).1
      · exact (Word.byte_ofBytes _ _ _ _).2.1
      · exact (Word.byte_ofBytes _ _ _ _).2.2.1
      · exact (Word.byte_ofBytes _ _ _ _).2.2.2

/-! ## Beats on the bus -/

/-- A beat below the other windows is one of main RAM, or is refused. -/
theorem executeDmaOp_ram (space : Space) (m : Memory) (op : DmaOp) (answer : Option Word)
    (wide : op.width = 1 ∨ op.width = 4) (low : op.address.toNat + op.width ≤ 0x10000000) :
    executeDmaOp space m op answer = (none, m) ∨ ∃ value,
      executeDmaOp space m op answer = (some value, if op.write = true then stored m op.address op.width op.value else m) ∧
        (op.write = false -> ∀ k < op.width, byteOf value op.width k = m (byteAddress op.address k)) := by
  have memory : op.address ≠ idcDataAddress := by
    intro data
    rw [data, idcDataAddress, BitVec.toNat_ofNat] at low
    omega
  have card : ¬ (expansionSlotForBeat op.address op.width).isSome = true := by
    rw [expansionSlotForBeat, if_neg (by omega)]
    exact Bool.false_ne_true
  unfold executeDmaOp
  rw [if_neg memory, if_neg (by omega)]
  split
  · exact .inl rfl
  · rename_i allowed
    obtain ⟨place, aligned⟩ := not_or.mp allowed
    rw [not_not] at place aligned
    have inside : inWindow op.address op.width = true := by
      obtain inside | ⟨-, -, port⟩ | slot := place
      · exact inside
      · rw [port, BitVec.toNat_ofNat] at low
        omega
      · exact absurd slot card
    have bytes (k : Nat) (byte : k < op.width) : space.mapped (byteAddress op.address k) = space.mapped op.address :=
      mapped_beat wide aligned (by omega) byte
    rw [if_neg (by rw [inside]; decide)]
    cases mapped : space.mapped op.address with
    | true =>
      have all : ∀ k < op.width, space.mapped (byteAddress op.address k) = true :=
        fun k byte => (bytes k byte).trans mapped
      right
      by_cases write : op.write = true
      · refine ⟨op.value, ?_, fun read => absurd read (by rw [write]; decide)⟩
        rw [if_pos write, if_pos write, writeBytes_mapped]
        · refine Prod.ext rfl (funext fun b => ?_)
          simp only [stored, List.mem_range]
        · intro k byte
          have bound := List.mem_range.mp byte
          omega
        · exact fun k byte => all k (List.mem_range.mp byte)
      · obtain ⟨value, read, same⟩ := readBytes_mapped wide all m
        refine ⟨value, ?_, fun _ => same⟩
        rw [if_neg write, if_neg write, read]
    | false =>
      have unmapped : ¬ space.mapped (byteAddress op.address 0) = true := by
        rw [bytes 0 (by omega), mapped]
        decide
      have first : ∃ rest, List.range op.width = 0 :: rest := by
        obtain one | four := wide
        · exact ⟨[], by rw [one]; decide⟩
        · exact ⟨[1, 2, 3], by rw [four]; decide⟩
      obtain ⟨rest, range⟩ := first
      left
      rw [range]
      split
      · rw [writeBytes, if_neg unmapped]
      · rw [readBytes, if_neg unmapped]

end Dmac

/-!
## The start of a transfer

What the words that a driver writes to an idle channel leave in it, up to the start.
-/

namespace Dmac

section Registers

variable {d : Dmac} {v : Word} {a : Bool}

@[simp] theorem setChannel_channels (index : Nat) (ch : Channel) : (d.setChannel index ch).channels index = ch :=
  Function.update_self ..

@[simp] theorem setChannel_setChannel (index : Nat) (ch next : Channel) :
    (d.setChannel index ch).setChannel index next = d.setChannel index next := by
  rw [setChannel, setChannel, Function.update_idem]
  rfl

theorem setChannel_self (index : Nat) : d.setChannel index (d.channels index) = d := by
  rw [setChannel, Function.update_eq_self]

theorem merge_word (old v : Word) : merge (merge (merge (merge old 0 ((v >>> 24).setWidth 8)) 1 ((v >>> 16).setWidth 8)) 2
    ((v >>> 8).setWidth 8)) 3 (v.setWidth 8) = v := by
  apply BitVec.eq_of_getLsbD_eq
  intro i bound
  interval_cases i <;> simp [merge]

/-- A byte of a register of channel 1. -/
theorem writeByte_channel {field lane : Nat} (inside : field < 0x20) (aligned : field % 4 = 0) (small : lane < 4)
    (d : Dmac) (b : Byte) (a : Bool) :
    d.writeByte (0x120 + field + lane) b a = d.writeChannel 1 field lane b a := by
  have reg : (0x120 + field + lane) / 4 * 4 = 0x120 + field := by omega
  have place : (0x120 + field + lane) % 4 = lane := by omega
  have index : (0x120 + field - 0x100) / 0x20 = 1 := by omega
  have offset : (0x120 + field - 0x100) % 0x20 = field := by omega
  unfold writeByte
  simp only [reg, place, channelBase, channelStride, channelCount, index, offset]
  iterate 5 rw [if_neg (fun both => by omega)]
  rw [if_pos (by omega), if_neg (by decide)]

/-- A register whose bytes go into an idle channel. -/
theorem writeWord_idle {field : Nat} (inside : field < 0x20) (aligned : field % 4 = 0)
    (f : Channel -> Nat -> Byte -> Channel)
    (keeps : ∀ ch lane b, (f ch lane b).busy = ch.busy)
    (steps : ∀ (d : Dmac) (lane : Nat) (b : Byte), (d.channels 1).busy = false ->
      d.writeChannel 1 field lane b a = d.setChannel 1 (f (d.channels 1) lane b)) (idle : (d.channels 1).busy = false) :
    d.writeWord (0x120 + field) v a = d.setChannel 1 (f (f (f (f (d.channels 1) 0 ((v >>> 24).setWidth 8)) 1
      ((v >>> 16).setWidth 8)) 2 ((v >>> 8).setWidth 8)) 3 (v.setWidth 8)) := by
  have byte {lane : Nat} (small : lane < 4) (d : Dmac) (b : Byte) := writeByte_channel inside aligned small d b a
  have first := byte (show 0 < 4 by decide) d ((v >>> 24).setWidth 8)
  rw [Nat.add_zero] at first
  rw [writeWord, first, byte (by decide), byte (by decide), byte (by decide), steps d 0 _ idle, steps _ 1, steps _ 2, steps _ 3]
  · simp only [setChannel_channels, setChannel_setChannel]
  all_goals simp only [setChannel_channels, setChannel_setChannel, keeps, idle]

theorem statusCleared_busy (ch : Channel) (lane : Nat) (value : Byte) : (ch.statusCleared lane value).busy = ch.busy := by
  unfold Channel.statusCleared Channel.busy
  dsimp only
  split <;> simp [statusDone, statusError]

/-- The start of an idle channel whose registers are legal. -/
theorem start_legal {ch : Channel} {w : Nat} (enabled : d.enabled = true) (channel : d.channelEnable.getLsbD 1 = true)
    (own : d.channels 1 = ch) (idle : ch.busy = false) (width : ch.width = some w) (legal : ch.legal w = true)
    (memory : ch.endpoint = false) : d.start 1 a = d.setChannel 1 ch.started := by
  unfold start
  simp [enabled, channel, own, idle, width, legal, memory]

/-- The control register of an idle channel. -/
theorem writeWord_control (width : Word) (idle : (d.channels 1).busy = false) (kind : width = 0 ∨ width = 2) :
    ∃ ch : Channel, ch.control = 0x100 ||| width ∧ ch.busy = false ∧ ch.src = (d.channels 1).src ∧ ch.dst = (d.channels 1).dst ∧
      ch.count = (d.channels 1).count ∧ d.writeWord 0x12C (0x100 ||| width) a = (d.setChannel 1 ch).start 1 a := by
  have byte {lane : Nat} (small : lane < 4) (d : Dmac) (b : Byte) :=
    writeByte_channel (show 0x0C < 0x20 by decide) (by decide) small d b a
  have control (d : Dmac) (lane : Nat) (b : Byte) (idle : (d.channels 1).busy = false) :
      d.writeChannel 1 0x0C lane b a = d.writeControl 1 lane b a := by
    simp [writeChannel, idle]
  have lanes (d : Dmac) (lane : Nat) (small : lane < 3) (b : Byte) (idle : (d.channels 1).busy = false) :
      d.writeChannel 1 0x0C lane b a = d.setChannel 1 ((d.channels 1).controlWritten lane b) := by
    rw [control d lane b idle, writeControl, if_neg (fun both => by omega)]
  have keeps (ch : Channel) (lane : Nat) (b : Byte) : (ch.controlWritten lane b).busy = ch.busy := by
    unfold Channel.controlWritten
    split <;> rfl
  have low : ((0x100 ||| width : Word) >>> 8).setWidth 8 &&& 3#8 = (1 : Byte) := by
    obtain rfl | rfl := kind <;> decide
  let v : Word := 0x100 ||| width
  let ch := (((d.channels 1).controlWritten 0 ((v >>> 24).setWidth 8)).controlWritten 1 ((v >>> 16).setWidth 8)).controlWritten 2
    ((v >>> 8).setWidth 8)
  have pending : ch.pendingCommand = 1 := low
  refine ⟨{ ch.controlWritten 3 (v.setWidth 8) with pendingCommand := 0 }, merge_word (d.channels 1).control v, idle, rfl, rfl, rfl, ?_⟩
  have first := byte (show 0 < 4 by decide) d ((v >>> 24).setWidth 8)
  rw [Nat.add_zero] at first
  rw [writeWord, show 0x12C = 0x120 + 0x0C by decide, first, byte (by decide), byte (by decide), byte (by decide),
    lanes d 0 (by decide) _ idle, lanes _ 1 (by decide), lanes _ 2 (by decide), control _ 3, writeControl, if_pos, command, if_pos]
  · simp only [setChannel_channels, setChannel_setChannel]
    rfl
  all_goals simp only [setChannel_channels, setChannel_setChannel, keeps, idle]
  · rw [show (ch.controlWritten 3 (v.setWidth 8)).pendingCommand = ch.pendingCommand from rfl, pending]
    rfl
  · rw [show (ch.controlWritten 3 (v.setWidth 8)).pendingCommand = ch.pendingCommand from rfl, pending]
    exact ⟨trivial, by decide⟩

/-- Whatever the registers hold, the writes of `copy_dma` start an idle channel. -/
theorem started_of_program (src dst bytes width : Word) (idle : (d.channels 1).busy = false)
    (enabled : d.enabled = true) (channel : d.channelEnable.getLsbD 1 = true) (kind : width = 0 ∨ width = 2)
    (legal : ∀ ch : Channel, ch.src = src -> ch.dst = dst -> ch.count = bytes -> ch.control = 0x100 ||| width ->
      ch.endpoint = false ∧ ∃ w, ch.width = some w ∧ ch.legal w = true) :
    ∃ ch : Channel, ch.src = src ∧ ch.dst = dst ∧ ch.count = bytes ∧ ch.control = 0x100 ||| width ∧
      (((((d.writeWord 0x130 6 a).writeWord 0x138 0 a).writeWord 0x120 src a).writeWord 0x124 dst a).writeWord
        0x128 bytes a).writeWord 0x12C (0x100 ||| width) a = d.setChannel 1 ch.started := by
  -- The flags, the priority and the registers of the transfer leave the channel idle.
  have flags := writeWord_idle (v := 6) (a := a) (show 0x10 < 0x20 by decide) (by decide) Channel.statusCleared
    statusCleared_busy (fun d lane b _ => by simp [writeChannel]) idle
  have rank (d : Dmac) (idle : (d.channels 1).busy = false) :=
    writeWord_idle (v := 0) (a := a) (show 0x18 < 0x20 by decide)
    (by decide) (fun ch _ _ => ch) (fun _ _ _ => rfl)
    (fun d lane b idle => by simp [writeChannel, idle, setChannel_self]) idle
  have from_ (d : Dmac) (idle : (d.channels 1).busy = false) :=
    writeWord_idle (v := src) (a := a) (show 0x00 < 0x20 by decide)
    (by decide) (fun ch lane b => { ch with src := merge ch.src lane b }) (fun _ _ _ => rfl)
    (fun d lane b idle => by simp [writeChannel, idle]) idle
  have to_ (d : Dmac) (idle : (d.channels 1).busy = false) :=
    writeWord_idle (v := dst) (a := a) (show 0x04 < 0x20 by decide)
    (by decide) (fun ch lane b => { ch with dst := merge ch.dst lane b }) (fun _ _ _ => rfl)
    (fun d lane b idle => by simp [writeChannel, idle]) idle
  have many (d : Dmac) (idle : (d.channels 1).busy = false) :=
    writeWord_idle (v := bytes) (a := a) (show 0x08 < 0x20 by decide)
    (by decide) (fun ch lane b => { ch with count := merge ch.count lane b, remain := merge ch.count lane b })
    (fun _ _ _ => rfl)
    (fun d lane b idle => by simp [writeChannel, idle]) idle
  simp only [Nat.add_zero, Nat.reduceAdd, merge_word] at flags rank from_ to_ many
  let c := ((((d.channels 1).statusCleared 0 0).statusCleared 1 0).statusCleared 2 0).statusCleared 3 6
  have cleared : c.busy = false := by
    simp only [c, statusCleared_busy, idle]
  have written : ((((d.writeWord 0x130 6 a).writeWord 0x138 0 a).writeWord 0x120 src a).writeWord 0x124 dst a).writeWord 0x128 bytes a =
      d.setChannel 1 { c with src := src, dst := dst, count := bytes, remain := bytes } := by
    rw [flags, rank, from_, to_, many]
    · simp only [setChannel_channels, setChannel_setChannel]
      rfl
    all_goals
      simp only [setChannel_channels, setChannel_setChannel]
      exact cleared
  rw [written]
  obtain ⟨ch, control, rests, own, own', own'', set⟩ := writeWord_control width (a := a)
    (d := d.setChannel 1 { c with src := src, dst := dst, count := bytes, remain := bytes })
    (by rw [setChannel_channels]; exact cleared) kind
  rw [setChannel_channels] at own own' own''
  obtain ⟨memory, w, wide, fits⟩ := legal ch own own' own'' control
  refine ⟨ch, own, own', own'', control, ?_⟩
  rw [set, setChannel_setChannel]
  exact (start_legal (d := d.setChannel 1 ch) enabled channel (setChannel_channels 1 ch) rests wide fits memory).trans
    (setChannel_setChannel 1 ch ch.started)

end Registers
end Dmac

end Src32.Devices
