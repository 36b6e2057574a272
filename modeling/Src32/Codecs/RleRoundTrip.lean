import Src32.Codecs.Rle
import Src32.Machine.Bytes

namespace Src32.Codecs

open BitVec (ofNat toNat_ofNat)
open List (length_append)

/-!
# The RLE codec round trip

Compression writes packets that stand for the source, in no more than the bound,
and decompression accepts sequences of packets and nothing else.
-/

/-! ## Words and loops of words -/

section Words

variable (order : ByteOrder) (src : List Byte)

theorem store_load (i : Nat) :
    store order (load order src i) = [byteAt src i, byteAt src (i + 1), byteAt src (i + 2), byteAt src (i + 3)] := by
  cases order with
  | big =>
    obtain ⟨first, second, third, fourth⟩ :=
      Word.byte_ofBytes (byteAt src i) (byteAt src (i + 1)) (byteAt src (i + 2)) (byteAt src (i + 3))
    unfold store load
    dsimp only
    rw [first, second, third, fourth]
  | little =>
    obtain ⟨first, second, third, fourth⟩ :=
      Word.byte_ofBytes (byteAt src (i + 3)) (byteAt src (i + 2)) (byteAt src (i + 1)) (byteAt src i)
    unfold store load
    dsimp only
    rw [first, second, third, fourth]

theorem store_spread (b : Byte) : store order (spread b) = [b, b, b, b] := by
  obtain ⟨first, second, third, fourth⟩ := Word.byte_ofBytes b b b b
  unfold spread
  rw [Word.ofBytes_spread]
  cases order with
  | big | little =>
    unfold store
    dsimp only
    rw [first, second, third, fourth]

/-- Four equal bytes make the spread word, and nothing else does. -/
theorem load_eq_spread {i : Nat} {b : Byte} (same : load order src i = spread b) :
    ∀ k < 4, byteAt src (i + k) = b := by
  have bytes := congrArg (store order) same
  rw [store_load, store_spread] at bytes
  simp only [List.cons.injEq, and_true] at bytes
  obtain ⟨first, second, third, fourth⟩ := bytes
  intro k small
  rcases (by omega : k = 0 ∨ k = 1 ∨ k = 2 ∨ k = 3) with rfl | rfl | rfl | rfl
  · exact first
  · exact second
  · exact third
  · exact fourth

/-- The bytes that `copy` writes are those of the source. -/
theorem copy_eq (i n : Nat) : copy order src i n = (List.range n).map fun k => byteAt src (i + k) := by
  fun_induction copy order src i n with
  | case1 i n more ih =>
    rw [ih, store_load]
    obtain ⟨m, rfl⟩ := Nat.exists_eq_add_of_le more
    rw [Nat.add_sub_cancel_left, List.range_add, List.map_append, List.map_map]
    congr 1
    refine List.map_congr_left fun k _ => ?_
    simp only [Function.comp]
    rw [Nat.add_assoc]
  | case2 i n less => rfl

theorem copy_slice {i n : Nat} (inside : i + n ≤ src.length) : copy order src i n = (src.drop i).take n := by
  rw [copy_eq]
  apply List.ext_getElem?
  intro k
  rw [List.getElem?_map, List.getElem?_take]
  by_cases small : k < n
  · rw [List.getElem?_range small, if_pos small, List.getElem?_drop]
    unfold byteAt
    rw [List.getElem?_eq_getElem (by omega), Option.map_some, List.getElem?_eq_getElem (by omega)]
    rfl
  · rw [if_neg small, List.getElem?_eq_none (by rw [List.length_range]; omega)]
    rfl

theorem fill_eq (b : Byte) (n : Nat) : fill order b n = List.replicate n b := by
  fun_induction fill order b n with
  | case1 n more ih =>
    rw [ih, store_spread]
    obtain ⟨m, rfl⟩ := Nat.exists_eq_add_of_le more
    rw [Nat.add_sub_cancel_left, List.replicate_add]
    rfl
  | case2 n less => rfl

/-! ## Runs -/

/-- Up to where the loops go, the bytes are the same. -/
theorem wordRun_spec (b : Byte) (limit j : Nat) (inside : j ≤ limit) :
    wordRun order src (spread b) limit j ≤ limit ∧
      ∀ t, j ≤ t -> t < wordRun order src (spread b) limit j -> byteAt src t = b := by
  fun_induction wordRun order src (spread b) limit j with
  | case1 j more ih =>
    obtain ⟨below, equal⟩ := ih more.1
    refine ⟨below, fun t above under => ?_⟩
    by_cases early : t < j + 4
    · have same := load_eq_spread order src more.2 (t - j) (by omega)
      rwa [Nat.add_sub_cancel' above] at same
    · exact equal t (by omega) under
  | case2 j stop => exact ⟨inside, fun t above under => absurd above (by omega)⟩

theorem byteRun_spec (b : Byte) (limit j : Nat) (inside : j ≤ limit) :
    byteRun src b limit j ≤ limit ∧ (∀ t, j ≤ t -> t < byteRun src b limit j -> byteAt src t = b) ∧
      (byteRun src b limit j < limit -> byteAt src (byteRun src b limit j) ≠ b) := by
  fun_induction byteRun src b limit j with
  | case1 j more ih =>
    obtain ⟨below, equal, stops⟩ := ih more.1
    refine ⟨below, fun t above under => ?_, stops⟩
    by_cases here : t = j
    · rw [here, more.2]
    · exact equal t (by omega) under
  | case2 j stop => exact ⟨inside, fun t above under => absurd above (by omega), fun less same => stop ⟨less, same⟩⟩

/-- `run_length` is the length of the run, cut at the limit. -/
theorem runLength_spec {i n : Nat} (inside : i < n) :
    i + runLength order src i n ≤ packetLimit i n ∧ (∀ t < runLength order src i n, byteAt src (i + t) = byteAt src i) ∧
      (i + runLength order src i n < packetLimit i n -> byteAt src (i + runLength order src i n) ≠ byteAt src i) := by
  have limit := (packetLimit_bounds inside).1
  obtain ⟨wordBelow, wordEqual⟩ := wordRun_spec order src (byteAt src i) (packetLimit i n) (i + 1) limit
  obtain ⟨below, equal, stops⟩ := byteRun_spec src (byteAt src i) (packetLimit i n)
    (wordRun order src (spread (byteAt src i)) (packetLimit i n) (i + 1)) wordBelow
  have words := wordRun_le order src (spread (byteAt src i)) (packetLimit i n) (i + 1)
  have bytes := byteRun_le src (byteAt src i) (packetLimit i n)
    (wordRun order src (spread (byteAt src i)) (packetLimit i n) (i + 1))
  have ends : i + runLength order src i n = byteRun src (byteAt src i) (packetLimit i n)
      (wordRun order src (spread (byteAt src i)) (packetLimit i n) (i + 1)) := by
    unfold runLength
    dsimp only
    omega
  rw [ends]
  refine ⟨below, fun t under => ?_, stops⟩
  by_cases zero : t = 0
  · rw [zero]
    rfl
  by_cases early : i + t < wordRun order src (spread (byteAt src i)) (packetLimit i n) (i + 1)
  · exact wordEqual (i + t) (by omega) early
  · exact equal (i + t) (by omega) (by omega)

/-- Where the equal bytes go on, so does the run. -/
theorem lt_runLength {i n t : Nat} (inside : i < n) (limit : i + t < packetLimit i n)
    (equal : ∀ u ≤ t, byteAt src (i + u) = byteAt src i) : t < runLength order src i n := by
  obtain ⟨below, _, stops⟩ := runLength_spec order src inside
  by_contra short
  exact stops (by omega) (equal (runLength order src i n) (by omega))

theorem runAt0_iff (i : Nat) : (load order src i ^^^ (load order src i <<< 8)) &&& runAt0 order = 0 ↔
    byteAt src i = byteAt src (i + 1) ∧ byteAt src (i + 1) = byteAt src (i + 2) := by
  rw [← Word.ofBytes_zero]
  cases order with
  | big =>
    unfold load runAt0
    dsimp only
    rw [Word.ofBytes_shift, Word.ofBytes_xor, Word.ofBytes_high, Word.ofBytes_inj, Word.xor_same,
      Word.xor_same]
    simp only [and_true]
  | little =>
    unfold load runAt0
    dsimp only
    rw [Word.ofBytes_shift, Word.ofBytes_xor, Word.ofBytes_middle, Word.ofBytes_inj, Word.xor_same,
      Word.xor_same]
    simp only [and_true, true_and]
    exact ⟨fun both => ⟨both.2.symm, both.1.symm⟩, fun both => ⟨both.2.symm, both.1.symm⟩⟩

theorem runAt1_iff (i : Nat) : (load order src i ^^^ (load order src i <<< 8)) &&& runAt1 order = 0 ↔
    byteAt src (i + 1) = byteAt src (i + 2) ∧ byteAt src (i + 2) = byteAt src (i + 3) := by
  rw [← Word.ofBytes_zero]
  cases order with
  | big =>
    unfold load runAt1
    dsimp only
    rw [Word.ofBytes_shift, Word.ofBytes_xor, Word.ofBytes_middle, Word.ofBytes_inj, Word.xor_same,
      Word.xor_same]
    simp only [and_true, true_and]
  | little =>
    unfold load runAt1
    dsimp only
    rw [Word.ofBytes_shift, Word.ofBytes_xor, Word.ofBytes_high, Word.ofBytes_inj, Word.xor_same,
      Word.xor_same]
    simp only [and_true]
    exact ⟨fun both => ⟨both.2.symm, both.1.symm⟩, fun both => ⟨both.2.symm, both.1.symm⟩⟩

/-- Three equal bytes. -/
def Triple (i : Nat) : Prop := i + 2 < src.length ∧ byteAt src (i + 1) = byteAt src i ∧ byteAt src (i + 2) = byteAt src i

/-- A literal ends at its limit, or where three equal bytes begin. -/
theorem literalScan_spec (limit k : Nat) :
    literalScan order src limit src.length k = limit ∨
      literalScan order src limit src.length k < limit ∧ Triple src (literalScan order src limit src.length k) := by
  fun_induction literalScan order src limit src.length k with
  | case1 k below room w d first =>
    obtain ⟨one, two⟩ := (runAt0_iff order src k).mp first
    exact .inr ⟨below, by omega, one.symm, two.symm.trans one.symm⟩
  | case2 k below room w d first second =>
    obtain ⟨one, two⟩ := (runAt1_iff order src k).mp second
    by_cases last : k + 1 = limit
    · exact .inl last
    · exact .inr ⟨by omega, by omega, one.symm, two.symm.trans one.symm⟩
  | case3 k below room w d first second ih => exact ih
  | case4 k below room triple =>
    obtain ⟨inside, one, two⟩ := triple
    exact .inr ⟨below, inside, one.symm, two.symm⟩
  | case5 k below room other ih => exact ih
  | case6 k stop => exact .inl rfl

end Words

/-! ## Packets -/

section Packets

variable (order : ByteOrder) (src : List Byte)

/-- The packets that compression writes from `i` on, whatever the capacity. -/
def packets (i : Nat) : List Packet :=
  if i < src.length then
    if startsRun src i then
      .repeated (runLength order src i src.length) (byteAt src i) :: packets (i + runLength order src i src.length)
    else
      .literal ((src.drop i).take (literalEnd order src i (packetLimit i src.length) src.length - i)) ::
        packets (literalEnd order src i (packetLimit i src.length) src.length)
  else []
termination_by src.length - i
decreasing_by
  · have run := runLength_pos order src i src.length
    omega
  · have ends := lt_literalEnd order src src.length (packetLimit_bounds ‹_›).1
    omega

/-- Where the literal at `i` ends. -/
theorem literalEnd_bounds {i : Nat} (inside : i < src.length) :
    i < literalEnd order src i (packetLimit i src.length) src.length ∧
      literalEnd order src i (packetLimit i src.length) src.length ≤ packetLimit i src.length := by
  refine ⟨lt_literalEnd order src src.length (packetLimit_bounds inside).1, ?_⟩
  rcases literalScan_spec order src (packetLimit i src.length) (i + 1) with ends | ⟨less, _⟩
  · exact le_of_eq ends
  · exact le_of_lt less

theorem literal_length {i : Nat} (inside : i < src.length) :
    ((src.drop i).take (literalEnd order src i (packetLimit i src.length) src.length - i)).length =
      literalEnd order src i (packetLimit i src.length) src.length - i := by
  have bounds := literalEnd_bounds order src inside
  have limit := packetLimit_bounds inside
  rw [List.length_take, List.length_drop]
  omega

/-- A run that compression starts has two bytes at least. -/
theorem two_le_runLength {i : Nat} (starts : startsRun src i) : 2 ≤ runLength order src i src.length := by
  obtain ⟨inside, same, _⟩ := starts
  have limit := packetLimit_bounds (show i < src.length by omega)
  refine lt_runLength order src (by omega) (t := 1) (by omega) fun u small => ?_
  rcases (by omega : u = 0 ∨ u = 1) with rfl | rfl
  · rfl
  · exact same

theorem packets_valid (i : Nat) : ∀ p ∈ packets order src i, p.Valid := by
  fun_induction packets order src i with
  | case1 i inside starts ih =>
    intro p member
    rcases List.mem_cons.mp member with rfl | later
    · have limit := packetLimit_bounds inside
      have below := (runLength_spec order src inside).1
      exact ⟨two_le_runLength order src starts, by omega⟩
    · exact ih p later
  | case2 i inside other ih =>
    intro p member
    rcases List.mem_cons.mp member with rfl | later
    · have limit := packetLimit_bounds inside
      have bounds := literalEnd_bounds order src inside
      change 1 ≤ List.length _ ∧ List.length _ ≤ 128
      rw [literal_length order src inside]
      omega
    · exact ih p later
  | case3 i stop =>
    intro p member
    exact absurd member List.not_mem_nil

/-- Equal bytes are their own repetition. -/
theorem replicate_run {i n : Nat} (inside : i + n ≤ src.length) (same : ∀ t < n, byteAt src (i + t) = byteAt src i) :
    List.replicate n (byteAt src i) = (src.drop i).take n := by
  apply List.ext_getElem?
  intro k
  rw [List.getElem?_take]
  by_cases small : k < n
  · have here := same k small
    unfold byteAt at here
    rw [if_pos small, List.getElem?_replicate_of_lt small, List.getElem?_drop, List.getElem?_eq_getElem (by omega)]
    rw [List.getElem?_eq_getElem (by omega)] at here
    exact congrArg some here.symm
  · rw [if_neg small, List.getElem?_eq_none (by rw [List.length_replicate]; omega)]

/-- The packets stand for what is left of the source. -/
theorem packets_expand (i : Nat) : Packets.expand (packets order src i) = src.drop i := by
  fun_induction packets order src i with
  | case1 i inside starts ih =>
    obtain ⟨below, same, _⟩ := runLength_spec order src inside
    have limit := packetLimit_bounds inside
    rw [Packets.expand_cons, ih]
    change List.replicate _ _ ++ _ = _
    rw [replicate_run src (by omega) same, ← List.drop_drop, List.take_append_drop]
  | case2 i inside other ih =>
    have bounds := literalEnd_bounds order src inside
    rw [Packets.expand_cons, ih]
    change List.take _ _ ++ _ = _
    have joined : literalEnd order src i (packetLimit i src.length) src.length =
        i + (literalEnd order src i (packetLimit i src.length) src.length - i) := by omega
    rw [show src.drop (literalEnd order src i (packetLimit i src.length) src.length) =
      (src.drop i).drop (literalEnd order src i (packetLimit i src.length) src.length - i) by rw [List.drop_drop, ← joined]]
    exact List.take_append_drop ..
  | case3 i stop => rw [Packets.expand_nil, List.drop_eq_nil_of_le (by omega)]

/-- Compression writes the packets, if they fit. -/
theorem compressLoop_eq (capacity i : Nat) (out : List Byte) (room : out.length ≤ capacity) :
    (out.length + (Packets.encode (packets order src i)).length ≤ capacity ->
      compressLoop order src capacity i out = (.ok, out ++ Packets.encode (packets order src i))) ∧
    (capacity < out.length + (Packets.encode (packets order src i)).length ->
      (compressLoop order src capacity i out).1 = .outputEof ∧ (compressLoop order src capacity i out).2.length ≤ capacity) := by
  fun_induction packets order src i generalizing out with
  | case1 i inside starts ih =>
    have two := two_le_runLength order src starts
    rw [Packets.encode_cons, length_append, show (Packet.encode (.repeated _ _)).length = 2 from rfl]
    have step : compressLoop order src capacity i out = if capacity - out.length < 2 then (.outputEof, out)
        else compressLoop order src capacity (i + runLength order src i src.length)
          (out ++ [ofNat 8 (257 - runLength order src i src.length), byteAt src i]) := by
      rw [compressLoop, if_pos inside, if_pos starts]
    rw [step]
    by_cases full : capacity - out.length < 2
    · rw [if_pos full]
      exact ⟨fun fits => absurd full (by omega), fun _ => ⟨rfl, room⟩⟩
    · rw [if_neg full]
      have further := ih (out ++ [ofNat 8 (257 - runLength order src i src.length), byteAt src i])
        (by rw [length_append]; change out.length + 2 ≤ capacity; omega)
      rw [length_append, show [ofNat 8 (257 - runLength order src i src.length), byteAt src i].length = 2 from rfl,
        Nat.add_assoc] at further
      refine ⟨fun fits => ?_, further.2⟩
      rw [further.1 fits, List.append_assoc]
      rfl
  | case2 i inside other ih =>
    have bounds := literalEnd_bounds order src inside
    have limit := packetLimit_bounds inside
    have length := literal_length order src inside
    generalize ends : literalEnd order src i (packetLimit i src.length) src.length = stop at bounds length ih ⊢
    have joined : i + (stop - i) = stop := by omega
    have encoded : Packet.encode (.literal ((src.drop i).take (stop - i))) =
        ofNat 8 (stop - i - 1) :: (src.drop i).take (stop - i) := by
      change ofNat 8 (List.length _ - 1) :: _ = _
      rw [length]
    have written : (Packet.encode (.literal ((src.drop i).take (stop - i)))).length = stop - i + 1 := by
      rw [encoded, List.length_cons, length]
    rw [Packets.encode_cons, length_append, written]
    have step : compressLoop order src capacity i out = if capacity - out.length < stop - i + 1 then (.outputEof, out)
        else compressLoop order src capacity stop (out ++ Packet.encode (.literal ((src.drop i).take (stop - i)))) := by
      rw [compressLoop, if_pos inside, if_neg other]
      dsimp only
      rw [ends, joined, copy_slice order src (by omega), encoded]
    rw [step]
    by_cases full : capacity - out.length < stop - i + 1
    · rw [if_pos full]
      exact ⟨fun fits => absurd full (by omega), fun _ => ⟨rfl, room⟩⟩
    · rw [if_neg full]
      have further := ih (out ++ Packet.encode (.literal ((src.drop i).take (stop - i))))
        (by rw [length_append, written]; omega)
      rw [length_append, written, Nat.add_assoc] at further
      refine ⟨fun fits => ?_, further.2⟩
      rw [further.1 fits, List.append_assoc]
  | case3 i stop =>
    rw [compressLoop, if_neg stop, Packets.encode_nil, List.length_nil, List.append_nil]
    exact ⟨fun _ => rfl, fun excess => absurd excess (by omega)⟩

/-! ## The bound -/

/-- What compression writes from `i` on; where three equal bytes begin it is a run
ahead. -/
theorem packets_length (i : Nat) : (Packets.encode (packets order src i)).length ≤ packedBound (src.length - i) ∧
    (Triple src i -> ∃ run, 3 ≤ run ∧ i + run ≤ src.length ∧
      (Packets.encode (packets order src i)).length ≤ 2 + packedBound (src.length - (i + run))) := by
  fun_induction packets order src i with
  | case1 i inside starts ih =>
    have two := two_le_runLength order src starts
    have limit := packetLimit_bounds inside
    have below := (runLength_spec order src inside).1
    rw [Packets.encode_cons, length_append, show (Packet.encode (.repeated _ _)).length = 2 from rfl]
    constructor
    · have pays := packedBound_repeated two (show runLength order src i src.length ≤ src.length - i by omega)
      rw [Nat.sub_sub] at pays
      exact (Nat.add_le_add_left ih.1 2).trans pays
    · rintro ⟨room, one, other⟩
      refine ⟨runLength order src i src.length, ?_, by omega, Nat.add_le_add_left ih.1 2⟩
      refine lt_runLength order src inside (t := 2) (by omega) fun u small => ?_
      rcases (by omega : u = 0 ∨ u = 1 ∨ u = 2) with rfl | rfl | rfl
      · rfl
      · exact one
      · exact other
  | case2 i inside other ih =>
    have bounds := literalEnd_bounds order src inside
    have limit := packetLimit_bounds inside
    have length := literal_length order src inside
    constructor
    · have scan := literalScan_spec order src (packetLimit i src.length) (i + 1)
      change literalEnd order src i (packetLimit i src.length) src.length = _ ∨
        literalEnd order src i (packetLimit i src.length) src.length < _ ∧
          Triple src (literalEnd order src i (packetLimit i src.length) src.length) at scan
      generalize literalEnd order src i (packetLimit i src.length) src.length = stop at bounds length ih scan ⊢
      have written : (Packet.encode (.literal ((src.drop i).take (stop - i)))).length = stop - i + 1 := by
        change List.length ((src.drop i).take (stop - i)) + 1 = _
        rw [length]
      rw [Packets.encode_cons, length_append, written]
      rcases scan with ends | ⟨_, triple⟩
      · rcases limit.2.2.2 with last | full
        · have behind := ih.1
          have none : src.length - stop = 0 := by omega
          rw [none, show packedBound 0 = 0 from rfl] at behind
          have pays := packedBound_last (show 0 < src.length - i by omega)
          omega
        · have pays := packedBound_full (show 128 ≤ src.length - i by omega)
          have behind := ih.1
          rw [show src.length - stop = src.length - i - 128 by omega] at behind
          omega
      · obtain ⟨run, least, room, ahead⟩ := ih.2 triple
        have pays := @packedBound_run (src.length - i) (stop - i) run least (by omega)
        rw [show src.length - i - (stop - i) - run = src.length - (stop + run) by omega] at pays
        omega
    · rintro ⟨room, one, two⟩
      exact absurd ⟨by omega, one, .inl ⟨room, two⟩⟩ other
  | case3 i stop =>
    refine ⟨Nat.zero_le _, ?_⟩
    rintro ⟨room, _⟩
    exact absurd room (by omega)

/-- Where no byte is followed by itself there is nothing to gain. -/
theorem packets_alternating (changes : ∀ i, i + 1 < src.length -> byteAt src (i + 1) ≠ byteAt src i) (i : Nat) :
    (Packets.encode (packets order src i)).length = packedBound (src.length - i) := by
  fun_induction packets order src i with
  | case1 i inside starts ih => exact absurd starts.2.1 (changes i starts.1)
  | case2 i inside other ih =>
    have limit := packetLimit_bounds inside
    have length := literal_length order src inside
    have ends : literalEnd order src i (packetLimit i src.length) src.length = packetLimit i src.length := by
      rcases literalScan_spec order src (packetLimit i src.length) (i + 1) with ends | ⟨_, room, one, _⟩
      · exact ends
      · exact absurd one (changes _ (by omega))
    rw [ends] at ih length ⊢
    have written : (Packet.encode (.literal ((src.drop i).take (packetLimit i src.length - i)))).length =
        packetLimit i src.length - i + 1 := by
      change List.length ((src.drop i).take (packetLimit i src.length - i)) + 1 = _
      rw [length]
    rw [Packets.encode_cons, length_append, written, ih]
    unfold packedBound
    unfold packetLimit
    split_ifs <;> omega
  | case3 i stop =>
    rw [show src.length - i = 0 by omega]
    rfl

end Packets

/-! ## Decompression -/

section Decompression

variable (order : ByteOrder)

/-- The literal packet that a control byte below 128 announces. -/
theorem encode_taken {c : Byte} {rest : List Byte} (enough : c.toNat + 1 ≤ rest.length) :
    (Packet.literal (rest.take (c.toNat + 1))).encode = c :: rest.take (c.toNat + 1) := by
  change ofNat 8 (List.length _ - 1) :: _ = _
  rw [List.length_take, Nat.min_eq_left enough, Nat.add_sub_cancel, BitVec.ofNat_toNat, BitVec.setWidth_eq]

/-- The repetition that one above 128 announces. -/
theorem encode_repeated {c : Byte} (b : Byte) : (Packet.repeated (257 - c.toNat) b).encode = [c, b] := by
  have small := c.isLt
  change [ofNat 8 (257 - (257 - c.toNat)), b] = _
  rw [show 257 - (257 - c.toNat) = c.toNat by omega, BitVec.ofNat_toNat, BitVec.setWidth_eq]

theorem copy_front {rest : List Byte} {n : Nat} (enough : n ≤ rest.length) : copy order rest 0 n = rest.take n := by
  rw [copy_slice order rest (by omega), List.drop_zero]

/-- Decompression stays inside the capacity, and where it ends well it has read
packets. -/
theorem decompressLoop_sound (capacity : Nat) (out src : List Byte) (room : out.length ≤ capacity) :
    (decompressLoop order capacity out src).2.length ≤ capacity ∧
      ((decompressLoop order capacity out src).1 = .ok ->
        ∃ unpacked, Packets.Parses src unpacked ∧ (decompressLoop order capacity out src).2 = out ++ unpacked) := by
  fun_induction decompressLoop order capacity out src with
  | case1 out => exact ⟨room, fun _ => ⟨[], ⟨[], fun _ none => absurd none List.not_mem_nil, rfl, rfl⟩, (List.append_nil out).symm⟩⟩
  | case2 out c rest control short | case3 out c rest control enough full =>
    exact ⟨room, fun wrong => Status.noConfusion wrong⟩
  | case4 out c rest control enough fits ih =>
    have taken := copy_front order (Nat.le_of_not_lt enough)
    have length : (copy order rest 0 (c.toNat + 1)).length = c.toNat + 1 := by
      rw [taken, List.length_take]
      omega
    obtain ⟨inside, parses⟩ := ih (by rw [length_append, length]; omega)
    refine ⟨inside, fun good => ?_⟩
    obtain ⟨unpacked, ⟨ps, valid, packed, expands⟩, written⟩ := parses good
    refine ⟨rest.take (c.toNat + 1) ++ unpacked, ⟨.literal (rest.take (c.toNat + 1)) :: ps, ?_, ?_, ?_⟩, ?_⟩
    · intro p member
      rcases List.mem_cons.mp member with rfl | later
      · change 1 ≤ List.length _ ∧ List.length _ ≤ 128
        rw [List.length_take]
        omega
      · exact valid p later
    · rw [Packets.encode_cons, encode_taken (Nat.le_of_not_lt enough), packed, List.cons_append, List.take_append_drop]
    · rw [Packets.expand_cons, expands]
      rfl
    · rw [written, taken, List.append_assoc]
  | case5 out c rest control reserved | case6 out c control reserved | case7 out c control reserved b rest full =>
    exact ⟨room, fun wrong => Status.noConfusion wrong⟩
  | case8 out c control reserved b rest fits ih =>
    have small := c.isLt
    rw [fill_eq] at ih ⊢
    obtain ⟨inside, parses⟩ := ih (by rw [length_append, List.length_replicate]; omega)
    refine ⟨inside, fun good => ?_⟩
    obtain ⟨unpacked, ⟨ps, valid, packed, expands⟩, written⟩ := parses good
    refine ⟨List.replicate (257 - c.toNat) b ++ unpacked, ⟨.repeated (257 - c.toNat) b :: ps, ?_, ?_, ?_⟩, ?_⟩
    · intro p member
      rcases List.mem_cons.mp member with rfl | later
      · change 2 ≤ 257 - c.toNat ∧ 257 - c.toNat ≤ 128
        omega
      · exact valid p later
    · rw [Packets.encode_cons, encode_repeated, packed]
      rfl
    · rw [Packets.expand_cons, expands]
      rfl
    · rw [written, List.append_assoc]

/-- It accepts every sequence of packets that fits. -/
theorem decompressLoop_complete (capacity : Nat) (ps : List Packet) (valid : ∀ p ∈ ps, p.Valid) (out : List Byte)
    (fits : out.length + (Packets.expand ps).length ≤ capacity) :
    decompressLoop order capacity out (Packets.encode ps) = (.ok, out ++ Packets.expand ps) := by
  induction ps generalizing out with
  | nil => rw [Packets.encode_nil, Packets.expand_nil, List.append_nil, decompressLoop]
  | cons p ps ih =>
    have later : ∀ q ∈ ps, q.Valid := fun q member => valid q (List.mem_cons_of_mem p member)
    rw [Packets.expand_cons, length_append] at fits
    rw [Packets.encode_cons, Packets.expand_cons, ← List.append_assoc]
    cases p with
    | literal bytes =>
      obtain ⟨some_, most⟩ : 1 ≤ bytes.length ∧ bytes.length ≤ 128 := valid _ List.mem_cons_self
      change out.length + (bytes.length + _) ≤ capacity at fits
      have control : (ofNat 8 (bytes.length - 1)).toNat = bytes.length - 1 := by
        rw [toNat_ofNat]
        omega
      have count : bytes.length - 1 + 1 = bytes.length := by omega
      change decompressLoop order capacity out (ofNat 8 (bytes.length - 1) :: (bytes ++ Packets.encode ps)) = _
      rw [decompressLoop.eq_def]
      dsimp only
      rw [control, count, if_pos (by omega), if_neg (by rw [length_append]; omega), if_neg (by omega), copy_front order (by rw [length_append]; omega), List.take_left, List.drop_left]
      exact ih later (out ++ bytes) (by rw [length_append]; omega)
    | repeated n b =>
      obtain ⟨least, most⟩ : 2 ≤ n ∧ n ≤ 128 := valid _ List.mem_cons_self
      change out.length + ((List.replicate n b).length + _) ≤ capacity at fits
      rw [List.length_replicate] at fits
      have control : (ofNat 8 (257 - n)).toNat = 257 - n := by
        rw [toNat_ofNat]
        omega
      have count : 257 - (257 - n) = n := by omega
      change decompressLoop order capacity out (ofNat 8 (257 - n) :: b :: Packets.encode ps) = _
      rw [decompressLoop.eq_def]
      dsimp only
      rw [control, if_neg (by omega), if_neg (by omega), count, if_neg (by omega), fill_eq]
      exact ih later (out ++ List.replicate n b) (by rw [length_append, List.length_replicate]; omega)

end Decompression

/-! ## The codec -/

theorem cptRleCompressBound_eq {size : Nat} (small : size ≤ 0xFE000000) :
    (cptRleCompressBound (ofNat 32 size)).toNat = packedBound size := by
  have own : (ofNat 32 size).toNat = size := by
    rw [toNat_ofNat]
    omega
  have rounded : (ofNat 32 size + 127).toNat = size + 127 := by
    rw [BitVec.toNat_add, own]
    change (size + 127) % 2 ^ 32 = _
    omega
  unfold cptRleCompressBound
  rw [if_neg (by rw [BitVec.lt_def, own]; change ¬ 0xFE000000 < size; omega), BitVec.toNat_add, BitVec.toNat_udiv, own, rounded]
  change (size + (size + 127) / 128) % 2 ^ 32 = packedBound size
  unfold packedBound
  omega

theorem cptRleCompressBound_small {size : Nat} (fits : size < 2 ^ 32)
    (bound : (cptRleCompressBound (ofNat 32 size)).toNat < 0xFFFFFFFF) : size ≤ 0xFE000000 := by
  by_contra large
  have saturated : cptRleCompressBound (ofNat 32 size) = 0xFFFFFFFF := by
    unfold cptRleCompressBound
    rw [if_pos]
    rw [BitVec.lt_def, toNat_ofNat, Nat.mod_eq_of_lt fits]
    exact Nat.lt_of_not_le large
  rw [saturated] at bound
  exact absurd bound (by decide)

theorem cptRleCompress_eq (order : ByteOrder) (x : Source) (capacity : Nat) {level : Nat} (known : level ≤ 9) :
    cptRleCompress order x false false (some capacity) level 0 = outcome (compressLoop order x.bytes capacity 0 []) := by
  unfold cptRleCompress
  dsimp only
  rw [if_neg]
  simp only [Bool.false_eq_true, and_false, false_or, ne_eq, not_true_eq_false, or_false, not_lt]
  exact known

theorem cptRleDecompress_eq (order : ByteOrder) (y : List Byte) (capacity : Nat) :
    cptRleDecompress order y false false (some capacity) = outcome (decompressLoop order capacity [] y) := by
  unfold cptRleDecompress
  dsimp only
  rw [if_neg]
  simp only [Bool.false_eq_true, and_false, false_or, not_false_eq_true]

theorem outcome_size (ended : Status × List Byte) (bad : (outcome ended).status ≠ .ok) : (outcome ended).size = 0 := if_neg bad

/-- Decompression reports no bytes with an error. -/
theorem cptRleDecompress_size (order : ByteOrder) (y : List Byte) (srcNull dstNull : Bool) (capacity : Option Nat)
    (bad : (cptRleDecompress order y srcNull dstNull capacity).status ≠ .ok) :
    (cptRleDecompress order y srcNull dstNull capacity).size = 0 := by
  unfold cptRleDecompress at bad ⊢
  cases capacity with
  | none => rfl
  | some capacity =>
    dsimp only at bad ⊢
    split_ifs at bad ⊢ with wrong
    · rfl
    · exact outcome_size _ bad

/-- Compression gives the full result or reports that it does not fit, the bound is
enough when it is not saturated, and decompression gives the source back; what
decompression accepts are the sequences of complete packets that fit. -/
theorem rle_codec (order : ByteOrder) :
    (∀ (x : Source) (level : Nat), level ≤ 9 -> ∃ full : List Byte,
      (∀ capacity, full.length ≤ capacity ->
        cptRleCompress order x false false (some capacity) level 0 = ⟨.ok, full.length, full⟩) ∧
      (∀ capacity, capacity < full.length ->
        (cptRleCompress order x false false (some capacity) level 0).status = .outputEof ∧
        (cptRleCompress order x false false (some capacity) level 0).size = 0 ∧
        (cptRleCompress order x false false (some capacity) level 0).written.length ≤ capacity) ∧
      ((cptRleCompressBound (ofNat 32 x.bytes.length)).toNat < 0xFFFFFFFF ->
        full.length ≤ (cptRleCompressBound (ofNat 32 x.bytes.length)).toNat) ∧
      ∀ capacity, x.bytes.length ≤ capacity ->
        cptRleDecompress order full false false (some capacity) = ⟨.ok, x.bytes.length, x.bytes⟩) ∧
    (∀ (y : List Byte) (capacity : Nat),
      (cptRleDecompress order y false false (some capacity)).written.length ≤ capacity ∧
      ((cptRleDecompress order y false false (some capacity)).status = .ok ↔
        ∃ unpacked, Packets.Parses y unpacked ∧ unpacked.length ≤ capacity) ∧
      ∀ unpacked, Packets.Parses y unpacked -> unpacked.length ≤ capacity ->
        cptRleDecompress order y false false (some capacity) = ⟨.ok, unpacked.length, unpacked⟩) ∧
    ∀ (y : List Byte) (srcNull dstNull : Bool) (capacity : Option Nat),
      (cptRleDecompress order y srcNull dstNull capacity).status ≠ .ok ->
        (cptRleDecompress order y srcNull dstNull capacity).size = 0 := by
  have accepts : ∀ (y : List Byte) (capacity : Nat) (unpacked : List Byte), Packets.Parses y unpacked ->
      unpacked.length ≤ capacity -> cptRleDecompress order y false false (some capacity) = ⟨.ok, unpacked.length, unpacked⟩ := by
    rintro y capacity unpacked ⟨ps, valid, rfl, rfl⟩ fits
    rw [cptRleDecompress_eq, decompressLoop_complete order capacity ps valid [] (by rw [List.length_nil]; omega)]
    rfl
  refine ⟨fun x level known => ⟨Packets.encode (packets order x.bytes 0), fun capacity fits => ?_, fun capacity excess => ?_,
    fun bound => ?_, fun capacity fits => ?_⟩, fun y capacity => ⟨?_, ⟨fun good => ?_, ?_⟩, accepts y capacity⟩,
    cptRleDecompress_size order⟩
  · have written := (compressLoop_eq order x.bytes capacity 0 [] (Nat.zero_le _)).1 (by rw [List.length_nil]; omega)
    rw [cptRleCompress_eq order x capacity known, written]
    rfl
  · obtain ⟨status, inside⟩ :=
      (compressLoop_eq order x.bytes capacity 0 [] (Nat.zero_le _)).2 (by rw [List.length_nil]; omega)
    rw [cptRleCompress_eq order x capacity known]
    refine ⟨status, outcome_size _ ?_, inside⟩
    change (compressLoop order x.bytes capacity 0 []).1 ≠ .ok
    rw [status]
    exact Status.noConfusion
  · have fits := x.fits
    rw [cptRleCompressBound_eq (cptRleCompressBound_small (by omega) bound)]
    exact (packets_length order x.bytes 0).1
  · refine accepts _ capacity x.bytes ⟨packets order x.bytes 0, packets_valid order x.bytes 0, rfl, ?_⟩ fits
    exact packets_expand order x.bytes 0
  · rw [cptRleDecompress_eq]
    exact (decompressLoop_sound order capacity [] y (Nat.zero_le _)).1
  · rw [cptRleDecompress_eq] at good
    obtain ⟨inside, parses⟩ := decompressLoop_sound order capacity [] y (Nat.zero_le _)
    obtain ⟨unpacked, parsed, written⟩ := parses good
    rw [written] at inside
    exact ⟨unpacked, parsed, inside⟩
  · rintro ⟨unpacked, parsed, fits⟩
    rw [accepts y capacity unpacked parsed fits]

/-! ### A source that the saturated bound is too small for -/

/-- Zero and one in turn. -/
def alternating (n : Nat) : List Byte := (List.range n).map fun k => ofNat 8 (k % 2)

theorem alternating_length (n : Nat) : (alternating n).length = n := by
  unfold alternating
  rw [List.length_map, List.length_range]

theorem alternating_changes (n i : Nat) (inside : i + 1 < (alternating n).length) :
    byteAt (alternating n) (i + 1) ≠ byteAt (alternating n) i := by
  rw [alternating_length] at inside
  have byte : ∀ k < n, byteAt (alternating n) k = ofNat 8 (k % 2) := by
    intro k small
    unfold byteAt alternating
    rw [List.getElem?_map, List.getElem?_range small]
    rfl
  rw [byte _ inside, byte i (by omega)]
  rcases (by omega : i % 2 = 0 ∧ (i + 1) % 2 = 1 ∨ i % 2 = 1 ∧ (i + 1) % 2 = 0) with ⟨even, odd⟩ | ⟨odd, even⟩
  · rw [even, odd]
    decide
  · rw [even, odd]
    decide

/-- Such a source needs the whole bound. -/
theorem compress_alternating (order : ByteOrder) (x : Source)
    (changes : ∀ i, i + 1 < x.bytes.length -> byteAt x.bytes (i + 1) ≠ byteAt x.bytes i) {capacity level : Nat}
    (known : level ≤ 9) (excess : capacity < packedBound x.bytes.length) :
    (cptRleCompress order x false false (some capacity) level 0).status = .outputEof := by
  rw [cptRleCompress_eq order x capacity known]
  refine ((compressLoop_eq order x.bytes capacity 0 [] (Nat.zero_le _)).2 ?_).1
  rw [packets_alternating order x.bytes changes, List.length_nil, Nat.sub_zero, Nat.zero_add]
  exact excess

/-- There is one of every length. -/
theorem exists_alternating {n : Nat} (fits : n + 4 < 2 ^ 32) : ∃ x : Source, x.bytes.length = n ∧
    ∀ i, i + 1 < x.bytes.length -> byteAt x.bytes (i + 1) ≠ byteAt x.bytes i := by
  refine ⟨⟨alternating n, ?_⟩, alternating_length n, alternating_changes n⟩
  rw [alternating_length]
  exact fits

theorem rle_bound_saturates : ¬ ∀ (order : ByteOrder) (x : Source) (capacity : Nat), capacity < 2 ^ 32 ->
    (cptRleCompressBound (ofNat 32 x.bytes.length)).toNat ≤ capacity ->
    (cptRleCompress order x false false (some capacity) 0 0).status = .ok := by
  intro enough
  obtain ⟨x, length, changes⟩ := exists_alternating (show 0xFF000000 + 4 < 2 ^ 32 by omega)
  have excess : 0xFFFFFFFF < packedBound x.bytes.length := by
    rw [length]
    unfold packedBound
    omega
  have full := compress_alternating .big x changes (Nat.zero_le 9) excess
  rw [enough .big x 0xFFFFFFFF (by omega) (Nat.le_of_lt_succ (BitVec.isLt _))] at full
  exact Status.noConfusion full

end Src32.Codecs
