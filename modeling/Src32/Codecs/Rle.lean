import Src32.Codecs.Conde

namespace Src32.Codecs

/-!
# PackBits

A PackBits string is a sequence of packets: a literal packet of up to 128 bytes
behind their number, or one byte to be repeated.  What the packets stand for is
their expansion.
-/

inductive Packet where
  | literal (bytes : List Byte)
  | repeated (count : Nat) (b : Byte)

namespace Packet

/-- The packets that a control byte can announce. -/
def Valid : Packet -> Prop
  | literal bytes => 1 ≤ bytes.length ∧ bytes.length ≤ 128
  | repeated count _ => 2 ≤ count ∧ count ≤ 128

def encode : Packet -> List Byte
  | literal bytes => BitVec.ofNat 8 (bytes.length - 1) :: bytes
  | repeated count b => [BitVec.ofNat 8 (257 - count), b]

def expand : Packet -> List Byte
  | literal bytes => bytes
  | repeated count b => List.replicate count b

end Packet

namespace Packets

def encode (ps : List Packet) : List Byte := ps.flatMap Packet.encode

def expand (ps : List Packet) : List Byte := ps.flatMap Packet.expand

@[simp]
theorem encode_nil : encode [] = [] := rfl

@[simp]
theorem expand_nil : expand [] = [] := rfl

@[simp]
theorem encode_cons (p : Packet) (ps : List Packet) : encode (p :: ps) = p.encode ++ encode ps := List.flatMap_cons ..

@[simp]
theorem expand_cons (p : Packet) (ps : List Packet) : expand (p :: ps) = p.expand ++ expand ps := List.flatMap_cons ..

/-- The string is a sequence of complete packets, and the other what they stand
for. -/
def Parses (packed unpacked : List Byte) : Prop :=
  ∃ ps : List Packet, (∀ p ∈ ps, p.Valid) ∧ encode ps = packed ∧ expand ps = unpacked

end Packets

/-- The length that is always enough for `size` bytes: a literal packet of 128
bytes costs one byte more. -/
def packedBound (size : Nat) : Nat := size + (size + 127) / 128

/-- A literal packet of 128 bytes pays for itself. -/
theorem packedBound_full {size : Nat} (enough : 128 ≤ size) : 129 + packedBound (size - 128) = packedBound size := by
  unfold packedBound
  omega

/-- A run of three or more pays for the literal packet in front of it. -/
theorem packedBound_run {size before run : Nat} (least : 3 ≤ run) (inside : before + run ≤ size) :
    1 + before + (2 + packedBound (size - before - run)) ≤ packedBound size := by
  unfold packedBound
  omega

theorem packedBound_repeated {size run : Nat} (least : 2 ≤ run) (inside : run ≤ size) :
    2 + packedBound (size - run) ≤ packedBound size := by
  unfold packedBound
  omega

theorem packedBound_last {size : Nat} (positive : 0 < size) : 1 + size ≤ packedBound size := by
  unfold packedBound
  omega

/-!
## The RLE codec

`rle.c`, with its loads and stores of whole words.  A buffer that is written from
front to back is the list of the bytes written.
-/

inductive ByteOrder where
  | big
  | little

/-- A source that C can index with 32 bits and look four bytes ahead in. -/
structure Source where
  bytes : List Byte
  fits : bytes.length + 4 < 2 ^ 32

/-! ## Words -/

def load (order : ByteOrder) (src : List Byte) (i : Nat) : Word :=
  match order with
  | .big => Word.ofBytes (byteAt src i) (byteAt src (i + 1)) (byteAt src (i + 2)) (byteAt src (i + 3))
  | .little => Word.ofBytes (byteAt src (i + 3)) (byteAt src (i + 2)) (byteAt src (i + 1)) (byteAt src i)

def store (order : ByteOrder) (w : Word) : List Byte :=
  match order with
  | .big => [(w >>> 24).setWidth 8, (w >>> 16).setWidth 8, (w >>> 8).setWidth 8, w.setWidth 8]
  | .little => [w.setWidth 8, (w >>> 8).setWidth 8, (w >>> 16).setWidth 8, (w >>> 24).setWidth 8]

/-- Differences of neighbours: the first three bytes of the word are equal. -/
def runAt0 : ByteOrder -> Word
  | .big => 0xFFFF0000
  | .little => 0x00FFFF00

/-- The last three are. -/
def runAt1 : ByteOrder -> Word
  | .big => 0x00FFFF00
  | .little => 0xFFFF0000

/-- The word of four equal bytes. -/
def spread (b : Byte) : Word := b.setWidth 32 * 0x01010101

/-- `copy`: `n` bytes from `src[i]` on. -/
def copy (order : ByteOrder) (src : List Byte) (i n : Nat) : List Byte :=
  if 4 ≤ n then store order (load order src i) ++ copy order src (i + 4) (n - 4)
  else (List.range n).map fun k => byteAt src (i + k)
termination_by n

/-- `fill`. -/
def fill (order : ByteOrder) (b : Byte) (n : Nat) : List Byte :=
  if 4 ≤ n then store order (spread b) ++ fill order b (n - 4) else List.replicate n b
termination_by n

/-! ## Runs -/

/-- The loop over words of `run_length`. -/
def wordRun (order : ByteOrder) (src : List Byte) (word : Word) (limit j : Nat) : Nat :=
  if j + 4 ≤ limit ∧ load order src j = word then wordRun order src word limit (j + 4) else j
termination_by limit - j

/-- The loop over bytes behind it. -/
def byteRun (src : List Byte) (b : Byte) (limit j : Nat) : Nat :=
  if j < limit ∧ byteAt src j = b then byteRun src b limit (j + 1) else j
termination_by limit - j

/-- `limit` of a packet at `i`. -/
def packetLimit (i n : Nat) : Nat := if n - i < 128 then n else i + 128

/-- `run_length`. -/
def runLength (order : ByteOrder) (src : List Byte) (i n : Nat) : Nat :=
  let b := byteAt src i
  let limit := packetLimit i n
  byteRun src b limit (wordRun order src (spread b) limit (i + 1)) - i

/-- The loop of `literal_end`. -/
def literalScan (order : ByteOrder) (src : List Byte) (limit n k : Nat) : Nat :=
  if k < limit then
    if k + 4 ≤ n then
      let w := load order src k
      let d := w ^^^ (w <<< 8)
      if d &&& runAt0 order = 0 then k
      else if d &&& runAt1 order = 0 then k + 1
      else literalScan order src limit n (k + 2)
    else if k + 2 < n ∧ byteAt src k = byteAt src (k + 1) ∧ byteAt src k = byteAt src (k + 2) then k
    else literalScan order src limit n (k + 1)
  else limit
termination_by limit - k

/-- `literal_end`. -/
def literalEnd (order : ByteOrder) (src : List Byte) (s limit n : Nat) : Nat := literalScan order src limit n (s + 1)

/-! ## Compression -/

/-- Three equal bytes, or the rest of a run that was cut at 128. -/
def startsRun (src : List Byte) (i : Nat) : Prop :=
  i + 1 < src.length ∧ byteAt src (i + 1) = byteAt src i ∧
    (i + 2 < src.length ∧ byteAt src (i + 2) = byteAt src i ∨ i ≠ 0 ∧ byteAt src (i - 1) = byteAt src i)

instance (src : List Byte) (i : Nat) : Decidable (startsRun src i) := inferInstanceAs (Decidable (_ ∧ _))

theorem byteRun_le (src : List Byte) (b : Byte) (limit j : Nat) : j ≤ byteRun src b limit j := by
  fun_induction byteRun src b limit j with
  | case1 j more ih => omega
  | case2 j stop => exact le_rfl

theorem wordRun_le (order : ByteOrder) (src : List Byte) (word : Word) (limit j : Nat) :
    j ≤ wordRun order src word limit j := by
  fun_induction wordRun order src word limit j with
  | case1 j more ih => omega
  | case2 j stop => exact le_rfl

theorem runLength_pos (order : ByteOrder) (src : List Byte) (i n : Nat) : 0 < runLength order src i n := by
  have words := wordRun_le order src (spread (byteAt src i)) (packetLimit i n) (i + 1)
  have bytes := byteRun_le src (byteAt src i) (packetLimit i n)
    (wordRun order src (spread (byteAt src i)) (packetLimit i n) (i + 1))
  unfold runLength
  dsimp only
  omega

theorem literalScan_le (order : ByteOrder) (src : List Byte) (limit n k : Nat) :
    min k limit ≤ literalScan order src limit n k := by
  fun_induction literalScan order src limit n k with
  | case1 => exact min_le_left ..
  | case2 => omega
  | case3 k below room w d first second ih => omega
  | case4 => exact min_le_left ..
  | case5 k below room other ih => omega
  | case6 => exact min_le_right ..

theorem lt_literalEnd (order : ByteOrder) (src : List Byte) {s limit : Nat} (n : Nat) (inside : s < limit) :
    s < literalEnd order src s limit n := by
  have reached := literalScan_le order src limit n (s + 1)
  unfold literalEnd
  omega

theorem packetLimit_bounds {i n : Nat} (inside : i < n) :
    i < packetLimit i n ∧ packetLimit i n ≤ n ∧ packetLimit i n ≤ i + 128 ∧
      (packetLimit i n = n ∨ packetLimit i n = i + 128) := by
  unfold packetLimit
  split_ifs <;> omega

/-- The loop of `cpt_rle_compress`. -/
def compressLoop (order : ByteOrder) (src : List Byte) (capacity i : Nat) (out : List Byte) : Status × List Byte :=
  if i < src.length then
    if startsRun src i then
      let run := runLength order src i src.length
      if capacity - out.length < 2 then (.outputEof, out)
      else compressLoop order src capacity (i + run) (out ++ [BitVec.ofNat 8 (257 - run), byteAt src i])
    else
      let n := literalEnd order src i (packetLimit i src.length) src.length - i
      if capacity - out.length < n + 1 then (.outputEof, out)
      else compressLoop order src capacity (i + n) (out ++ BitVec.ofNat 8 (n - 1) :: copy order src i n)
  else (.ok, out)
termination_by src.length - i
decreasing_by
  · have run := runLength_pos order src i src.length
    omega
  · have ends := lt_literalEnd order src src.length (packetLimit_bounds ‹_›).1
    omega

/-- What the caller gets of a loop. -/
def outcome (ended : Status × List Byte) : Outcome :=
  ⟨ended.1, if ended.1 = .ok then ended.2.length else 0, ended.2⟩

/-- `cpt_rle_compress`; `capacity` is `*dst_size`. -/
def cptRleCompress (order : ByteOrder) (src : Source) (srcNull dstNull : Bool) (capacity : Option Nat) (level param : Nat) :
    Outcome :=
  match capacity with
  | none => ⟨.parameter, 0, []⟩
  | some capacity =>
    if (src.bytes.length ≠ 0 ∧ srcNull) ∨ (capacity ≠ 0 ∧ dstNull) ∨ 9 < level ∨ param ≠ 0 then ⟨.parameter, 0, []⟩
    else outcome (compressLoop order src.bytes capacity 0 [])

/-- `cpt_rle_compress_bound`. -/
def cptRleCompressBound (srcSize : Word) : Word :=
  if 0xFE000000 < srcSize then 0xFFFFFFFF else srcSize + (srcSize + 127) / 128

/-! ## Decompression -/

theorem drop_shorter (c : Byte) (rest : List Byte) (n : Nat) : (rest.drop n).length < (c :: rest).length := by
  rw [List.length_drop, List.length_cons]
  omega

theorem behind_shorter (c b : Byte) (rest : List Byte) : rest.length < (c :: b :: rest).length := by
  rw [List.length_cons, List.length_cons]
  omega

/-- The loop of `cpt_rle_decompress` on what is left of the source. -/
def decompressLoop (order : ByteOrder) (capacity : Nat) (out : List Byte) : List Byte -> Status × List Byte
  | [] => (.ok, out)
  | c :: rest =>
    if c.toNat < 128 then
      if rest.length < c.toNat + 1 then (.inputEof, out)
      else if capacity - out.length < c.toNat + 1 then (.outputEof, out)
      else decompressLoop order capacity (out ++ copy order rest 0 (c.toNat + 1)) (rest.drop (c.toNat + 1))
    else if c.toNat = 128 then (.data, out)
    else
      match rest with
      | [] => (.inputEof, out)
      | b :: rest =>
        if capacity - out.length < 257 - c.toNat then (.outputEof, out)
        else decompressLoop order capacity (out ++ fill order b (257 - c.toNat)) rest
termination_by src => src.length
decreasing_by
  · exact drop_shorter c rest _
  · exact behind_shorter c b rest

/-- `cpt_rle_decompress`. -/
def cptRleDecompress (order : ByteOrder) (src : List Byte) (srcNull dstNull : Bool) (capacity : Option Nat) : Outcome :=
  match capacity with
  | none => ⟨.parameter, 0, []⟩
  | some capacity =>
    if (src.length ≠ 0 ∧ srcNull) ∨ (capacity ≠ 0 ∧ dstNull) then ⟨.parameter, 0, []⟩
    else outcome (decompressLoop order capacity [] src)

end Src32.Codecs
