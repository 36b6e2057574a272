import Src32.Lib.Fallible
import Src32.Wax.Tools

namespace Src32.Wax

open Fallible Interval

/-!
# What the readers of the tools accept

The conditions under which a reader reports a PROTECTED executable, and what it
reports.  They are the same for both readers.
-/

variable {α : Type}

theorem refuse_ok {bad : Prop} [Decidable bad] {text : String} {done : Unit} : refuse bad text = .ok done ↔ ¬ bad := by
  unfold refuse
  by_cases holds : bad
  · rw [if_pos holds]
    constructor
    · intro ok
      cases ok
    · intro fine
      exact absurd holds fine
  · rw [if_neg holds]
    exact ⟨fun _ => holds, fun _ => rfl⟩

theorem refuse_bind {bad : Prop} [Decidable bad] {text : String} {next : Unit -> Except String α} {result : α} :
    (refuse bad text >>= next) = .ok result ↔ ¬ bad ∧ next () = .ok result := by
  constructor
  · intro done
    obtain ⟨_, passed, rest⟩ := bind_ok done
    exact ⟨refuse_ok.mp passed, rest⟩
  · rintro ⟨fine, rest⟩
    rw [show refuse bad text = .ok () from refuse_ok.mpr fine]
    exact rest

/-! ## The block table -/

/-- The table entry of a block of a PROTECTED image. -/
def tableBlock (d : List Byte) (table : ToolTable) (index : Nat) : Block :=
  let record := table.offset.toNat + index * table.entrySize.toNat
  { address := be32 d record
    fileOffset := be32 d (record + 4)
    fileSize := be32 d (record + 8)
    memorySize := be32 d (record + 8)
    perm := be32 d (record + 12)
    align := 1 }

/-- The end of a block in memory. -/
def Block.stop (b : Block) : Nat := b.address.toNat + b.fileSize.toNat

/-- The payload of a block in the file. -/
def Block.payload (b : Block) : Interval := ⟨b.fileOffset.toNat, b.fileOffset.toNat + b.fileSize.toNat⟩

/-- The block that a tool reports. -/
def Block.tool (d : List Byte) (b : Block) : ToolBlock := ⟨b.address, sliceOf d b.payload.start b.payload.stop, b.perm⟩

/-- A permission of a block. -/
def Block.PermOk (b : Block) : Prop := b.perm ≠ 0 ∧ b.perm &&& ~~~7 = 0

/-- A block of the table that the loops accept by itself. -/
structure RowOk (table : ToolTable) (b : Block) : Prop where
  some_ : b.fileSize ≠ 0
  whole : b.stop ≤ 2 ^ 32
  aligned : b.fileOffset.toNat % 4 = 0
  inside : b.payload.Within ⟨table.stop, table.fileSize⟩

/-- The rows of a table behind a block that ends at `previous`. -/
def Rows (table : ToolTable) (perms : Prop) (previous : Option Nat) : List Block -> Prop
  | [] => True
  | b :: rest => RowOk table b ∧ (perms -> b.PermOk) ∧ (∀ stop ∈ previous, stop ≤ b.address.toNat) ∧
      Rows table perms (some b.stop) rest

variable {d : List Byte} {table : ToolTable}

variable {previous : Option Nat} {permInLoop : Bool} {perms : Prop} {blocks : List Block} {im : ToolImage}

theorem toolBlocks_cons (isProtected : table.isProtected = true) (index : Nat) (rest : List Nat)
    {result : List ToolBlock × List Interval} :
    toolBlocks permInLoop d table previous (index :: rest) = .ok result ↔
      RowOk table (tableBlock d table index) ∧ (permInLoop = true -> (tableBlock d table index).PermOk) ∧
        (∀ stop ∈ previous, stop ≤ (tableBlock d table index).address.toNat) ∧
        ∃ more, toolBlocks permInLoop d table (some (tableBlock d table index).stop) rest = .ok more ∧
          result = ((tableBlock d table index).tool d :: more.1, (tableBlock d table index).payload :: more.2) := by
  rw [toolBlocks, isProtected, if_pos rfl]
  simp only [refuse_bind]
  rw [bind_ok_iff]
  constructor
  · rintro ⟨some_, perm, whole, order, aligned, place, more, ran, done⟩
    cases done
    refine ⟨⟨some_, Nat.le_of_not_lt whole, ?_, ?_, ?_⟩, ?_, ?_, more, ran, rfl⟩
    · exact not_not.mp aligned
    · exact Nat.le_of_not_lt fun below => place (Or.inl below)
    · exact Nat.le_of_not_lt fun above => place (Or.inr above)
    · intro inLoop
      constructor
      · exact fun zero => perm ⟨inLoop, trivial, Or.inl zero⟩
      · exact not_not.mp fun other => perm ⟨inLoop, trivial, Or.inr other⟩
    · intro stop member
      exact Nat.le_of_not_lt fun below => order ⟨stop, member, below⟩
  · rintro ⟨row, perm, order, more, ran, rfl⟩
    refine ⟨row.some_, ?_, Nat.not_lt.mpr row.whole, ?_, not_not.mpr row.aligned, ?_, more, ran, rfl⟩
    · rintro ⟨inLoop, _, zero | other⟩
      · exact (perm inLoop).1 zero
      · exact other (perm inLoop).2
    · rintro ⟨stop, member, below⟩
      exact Nat.not_lt.mpr (order stop member) below
    · rintro (below | above)
      · exact Nat.not_lt.mpr row.inside.1 below
      · exact Nat.not_lt.mpr row.inside.2 above

theorem toolBlocks_iff (isProtected : table.isProtected = true) (rows : List Nat)
    {result : List ToolBlock × List Interval} : toolBlocks permInLoop d table previous rows = .ok result ↔
      Rows table (permInLoop = true) previous (rows.map (tableBlock d table)) ∧
        result = ((rows.map (tableBlock d table)).map (Block.tool d), (rows.map (tableBlock d table)).map Block.payload) := by
  induction rows generalizing previous result with
  | nil =>
    constructor
    · intro done
      cases done
      exact ⟨trivial, rfl⟩
    · rintro ⟨_, rfl⟩
      rfl
  | cons index rest ih =>
    rw [toolBlocks_cons isProtected]
    constructor
    · rintro ⟨row, perm, order, more, ran, rfl⟩
      obtain ⟨others, rfl⟩ := ih.mp ran
      exact ⟨⟨row, perm, order, others⟩, rfl⟩
    · rintro ⟨⟨row, perm, order, others⟩, rfl⟩
      exact ⟨row, perm, order, _, ih.mpr ⟨others, rfl⟩, rfl⟩

theorem Rows.ok (rows : Rows table perms previous blocks) :
    ∀ b ∈ blocks, RowOk table b := by
  induction blocks generalizing previous with
  | nil =>
    intro b member
    cases member
  | cons first rest ih =>
    obtain ⟨row, _, _, others⟩ := rows
    intro b member
    rcases List.mem_cons.mp member with rfl | later
    · exact row
    · exact ih others b later

/-- Every block of a table starts behind the blocks before it. -/
theorem Rows.ascend (rows : Rows table perms previous blocks) :
    (∀ stop ∈ previous, ∀ b ∈ blocks, stop ≤ b.address.toNat) ∧
      blocks.Pairwise fun b c => b.stop ≤ c.address.toNat := by
  induction blocks generalizing previous with
  | nil =>
    refine ⟨fun stop _ b member => ?_, List.Pairwise.nil⟩
    cases member
  | cons first rest ih =>
    obtain ⟨row, _, order, others⟩ := rows
    obtain ⟨behind, apart⟩ := ih others
    have next : ∀ b ∈ rest, first.stop ≤ b.address.toNat := behind first.stop rfl
    refine ⟨fun stop member b listed => ?_, List.pairwise_cons.mpr ⟨next, apart⟩⟩
    have starts := order stop member
    rcases List.mem_cons.mp listed with rfl | later
    · exact starts
    · exact Nat.le_trans starts (Nat.le_trans (Nat.le_add_right _ _) (next b later))

/-- The permissions can be tested apart from the rows. -/
theorem rows_perms :
    Rows table True previous blocks ↔ Rows table perms previous blocks ∧ ∀ b ∈ blocks, b.PermOk := by
  induction blocks generalizing previous with
  | nil =>
    refine ⟨fun _ => ⟨trivial, fun b member => ?_⟩, fun _ => trivial⟩
    cases member
  | cons first rest ih =>
    constructor
    · rintro ⟨row, perm, order, others⟩
      obtain ⟨kept, all⟩ := ih.mp others
      exact ⟨⟨row, fun _ => perm trivial, order, kept⟩, List.forall_mem_cons.mpr ⟨perm trivial, all⟩⟩
    · rintro ⟨⟨row, _, order, others⟩, all⟩
      obtain ⟨perm, later⟩ := List.forall_mem_cons.mp all
      exact ⟨row, fun _ => perm, order, ih.mpr ⟨others, later⟩⟩

/-! ## The rest of a file -/

/-- The block table of a file, as a reader of PROTECTED images takes it. -/
def tableOf (d : List Byte) : ToolTable where
  offset := be32 d 24
  entrySize := be32 d 32
  stop := (be32 d 24).toNat + (be32 d 28).toNat * (be32 d 32).toNat
  fileSize := (be32 d 44).toNat
  isProtected := true

/-- The blocks of a file. -/
def rowsOf (d : List Byte) : List Block := (List.range (be32 d 28).toNat).map (tableBlock d (tableOf d))

/-- The debug data of a file. -/
def debugSpan (d : List Byte) : List Interval :=
  if be32 d 40 = 0 then [] else [⟨(be32 d 36).toNat, (be32 d 36).toNat + (be32 d 40).toNat⟩]

/-- Debug data that both readers of the tools accept. -/
structure DebugOk (d : List Byte) : Prop where
  flagged : be32 d 40 ≠ 0 ↔ be16 d 10 &&& flagDebug ≠ 0
  absent : be32 d 40 = 0 -> be32 d 36 = 0
  placed : ∀ span ∈ debugSpan d, span.start % 4 = 0 ∧ span.Within ⟨(tableOf d).stop, (be32 d 44).toNat⟩

/-- The file parts that a reader compares. -/
def partsOf (d : List Byte) : List Interval :=
  ⟨(be32 d 24).toNat, (tableOf d).stop⟩ :: (rowsOf d).map Block.payload ++ debugSpan d

/-- What the tools report. -/
def toolImage (d : List Byte) : ToolImage where
  isLib := false
  base := be32 d 16
  entry := (be32 d 16).toNat + (be32 d 20).toNat
  blocks := (rowsOf d).map (Block.tool d)
  debug := (debugSpan d).flatMap fun span => sliceOf d span.start span.stop
  protection := some (be32 d 48, be32 d 52)

/-- The header and the block table, as every reader checks them. -/
structure Headed (d : List Byte) : Prop where
  long : 64 ≤ d.length
  magic_ : d.take 4 = magic
  version : be16 d 4 = 2
  kind : be16 d 6 = typeWax
  arch : be16 d 8 = 1
  headerSize : be32 d 12 = headerV2
  flags : be16 d 10 &&& ~~~3 = 0
  isProtected : be16 d 10 &&& flagProtected ≠ 0
  reserved : ∀ b ∈ sliceOf d 56 64, b = 0
  size : (be32 d 44).toNat = d.length
  some_ : be32 d 28 ≠ 0
  entrySize : be32 d 32 = 16
  few : be32 d 28 ≤ 7
  tablePlace : (be32 d 24).toNat % 4 = 0 ∧ headerV2 ≤ be32 d 24
  tableEnd : (tableOf d).stop ≤ (be32 d 44).toNat

/-- What a reader of the tools checks before it validates the protection. -/
structure Framed (d : List Byte) (perms : Prop) : Prop extends Headed d where
  rows : Rows (tableOf d) perms none (rowsOf d)
  debug : DebugOk d
  apart : inOrder ((partsOf d).insertionSort Before) = true
  base : ∀ b ∈ (toolImage d).blocks.head?, be32 d 16 = b.loadAddress
  entryWhole : (toolImage d).entry ≤ 0xFFFFFFFF
  entry : ∃ b ∈ (toolImage d).blocks, b.loadAddress.toNat ≤ (toolImage d).entry ∧ (toolImage d).entry < b.stop

theorem toolDebug_iff {result : List Byte × List Interval} :
    toolDebug d (tableOf d).stop (be32 d 44).toNat (be16 d 10) (be32 d 36) (be32 d 40) = .ok result ↔
      DebugOk d ∧ result = ((toolImage d).debug, debugSpan d) := by
  unfold toolDebug
  rw [refuse_bind, not_not]
  by_cases absent : be32 d 40 = 0
  · have none_ : debugSpan d = [] := if_pos absent
    rw [if_pos absent, refuse_bind, not_not]
    constructor
    · rintro ⟨flagged, offset, done⟩
      cases done
      refine ⟨⟨flagged, fun _ => offset, ?_⟩, ?_⟩
      · rw [none_]
        intro span member
        cases member
      · unfold toolImage
        rw [none_]
        rfl
    · rintro ⟨ok, rfl⟩
      refine ⟨ok.flagged, ok.absent absent, ?_⟩
      unfold toolImage
      rw [none_]
      rfl
  · have one : debugSpan d = [⟨(be32 d 36).toNat, (be32 d 36).toNat + (be32 d 40).toNat⟩] := if_neg absent
    have bytes : (toolImage d).debug = sliceOf d (be32 d 36).toNat ((be32 d 36).toNat + (be32 d 40).toNat) := by
      unfold toolImage
      rw [one]
      exact List.append_nil _
    rw [if_neg absent, refuse_bind, refuse_bind, bytes, one]
    constructor
    · rintro ⟨flagged, place, fits, done⟩
      cases done
      refine ⟨⟨flagged, fun zero => absurd zero absent, ?_⟩, rfl⟩
      rw [one]
      intro span member
      rw [List.mem_singleton.mp member]
      refine ⟨?_, ?_, Nat.le_of_not_lt fits⟩
      · exact not_not.mp fun other => place (Or.inl other)
      · exact Nat.le_of_not_lt fun below => place (Or.inr below)
    · rintro ⟨ok, rfl⟩
      have placed := ok.placed
      rw [one] at placed
      obtain ⟨aligned, inside⟩ := placed _ (List.mem_singleton_self _)
      refine ⟨ok.flagged, ?_, Nat.not_lt.mpr inside.2, rfl⟩
      rintro (other | below)
      · exact other aligned
      · exact Nat.not_lt.mpr inside.1 below

/-- A reader that reports an unprotected image has no stack to report. -/
theorem unprotected {validate : Word -> Word -> List ToolBlock -> Nat -> Except String Unit}
    (off : be16 d 10 &&& flagProtected = 0) (done : toolParse permInLoop validate d = .ok im) :
    im.protection = none := by
  unfold toolParse at done
  dsimp only at done
  simp only [decide_eq_false (not_not.mpr off), refuse_bind] at done
  obtain ⟨_, _, _, _, _, _, _, _, _, _, _, _, _, _, _, done⟩ := done
  obtain ⟨_, _, done⟩ := bind_ok done
  obtain ⟨_, _, done⟩ := bind_ok done
  simp only [refuse_bind] at done
  obtain ⟨_, _, _, _, _, done⟩ := done
  cases done
  rfl

theorem toolParse_iff {validate : Word -> Word -> List ToolBlock -> Nat -> Except String Unit} :
    toolParse permInLoop validate d = .ok im ∧ im.protection.isSome = true ↔
      Framed d (permInLoop = true) ∧
        validate (be32 d 48) (be32 d 52) (toolImage d).blocks (toolImage d).entry = .ok () ∧ im = toolImage d := by
  by_cases off : be16 d 10 &&& flagProtected = 0
  · constructor
    · rintro ⟨done, some_⟩
      rw [unprotected off done] at some_
      cases some_
    · rintro ⟨framed, _⟩
      exact absurd off framed.isProtected
  · unfold toolParse
    dsimp only
    simp only [decide_eq_true off, if_true, refuse_bind]
    constructor
    · rintro ⟨⟨long, magic_, version, _, arch, headerSize, flags, onlyWax, reserved, size, some_, entrySize, few, place,
        tableEnd, done⟩, _⟩
      have kind : be16 d 6 = typeWax := not_not.mp fun other => onlyWax ⟨trivial, other⟩
      have exe : decide (be16 d 6 = typeWal) = false := by
        rw [kind]
        decide
      obtain ⟨pair, ranBlocks, done⟩ := bind_ok done
      obtain ⟨debug, ranDebug, done⟩ := bind_ok done
      obtain ⟨rows, rfl⟩ := (toolBlocks_iff rfl _).mp ranBlocks
      obtain ⟨debugOk, rfl⟩ := toolDebug_iff.mp ranDebug
      simp only [refuse_bind] at done
      obtain ⟨apart, _, base, whole, entry, done⟩ := done
      obtain ⟨_, valid, done⟩ := bind_ok done
      rw [exe] at done base entry
      cases done
      refine ⟨⟨⟨Nat.le_of_not_lt long, not_not.mp magic_, not_not.mp version, kind, not_not.mp arch, not_not.mp headerSize,
        not_not.mp flags, off, ?_, not_not.mp size, some_, not_not.mp entrySize, ?_, ⟨?_, ?_⟩, Nat.le_of_not_lt tableEnd⟩,
        rows, debugOk, ?_, ?_, Nat.le_of_not_lt whole, ?_⟩, valid, rfl⟩
      · intro b member
        exact not_not.mp fun other => reserved ⟨b, member, other⟩
      · exact Nat.le_of_not_lt fun more => few ⟨trivial, more⟩
      · exact not_not.mp fun other => place (Or.inl other)
      · exact Nat.le_of_not_lt fun below => place (Or.inr below)
      · exact eq_true_of_ne_false apart
      · intro b member
        exact not_not.mp fun other => base ⟨rfl, b, member, other⟩
      · exact not_not.mp fun outside => entry ⟨rfl, outside⟩
    · rintro ⟨framed, valid, rfl⟩
      have exe : decide (be16 d 6 = typeWal) = false := by
        rw [framed.kind]
        decide
      refine ⟨⟨Nat.not_lt.mpr framed.long, not_not.mpr framed.magic_, not_not.mpr framed.version, ?_,
        not_not.mpr framed.arch, not_not.mpr framed.headerSize, not_not.mpr framed.flags, ?_, ?_, not_not.mpr framed.size,
        framed.some_, not_not.mpr framed.entrySize, ?_, ?_, Nat.not_lt.mpr framed.tableEnd, ?_⟩, rfl⟩
      · exact fun other => other.1 framed.kind
      · exact fun other => other.2 framed.kind
      · rintro ⟨b, member, other⟩
        exact other (framed.reserved b member)
      · exact fun more => Nat.not_lt.mpr framed.few more.2
      · rintro (other | below)
        · exact other framed.tablePlace.1
        · exact Nat.not_lt.mpr framed.tablePlace.2 below
      · refine bind_ok_iff.mpr ⟨_, (toolBlocks_iff rfl _).mpr ⟨framed.rows, rfl⟩, ?_⟩
        refine bind_ok_iff.mpr ⟨_, toolDebug_iff.mpr ⟨framed.debug, rfl⟩, ?_⟩
        simp only [refuse_bind]
        rw [exe]
        refine ⟨ne_false_of_eq_true framed.apart, ?_, ?_, Nat.not_lt.mpr framed.entryWhole, ?_,
          bind_ok_iff.mpr ⟨(), valid, rfl⟩⟩
        · rintro ⟨wal, _⟩
          cases wal
        · rintro ⟨_, b, member, other⟩
          exact other (framed.base b member)
        · exact fun outside => outside.2 framed.entry

/-! ## Protection -/

/-- A protection that both validators accept for blocks with good permissions. -/
structure Guarded (stackTop stackSize : Word) (blocks : List ToolBlock) (entry : Nat) : Prop where
  shape : stackSize ≠ 0 ∧ stackSize.toNat % 4 = 0 ∧ stackTop.toNat % 4 = 0
  place : stackTop ≤ cpuReserved ∧ stackSize ≤ stackTop
  clear : ∀ b ∈ blocks, ¬ (stackTop.toNat - stackSize.toNat < b.stop ∧ b.loadAddress.toNat < stackTop.toNat)
  below : ∀ b ∈ blocks, b.stop ≤ cpuReserved.toNat
  entry : ∃ b ∈ blocks, b.loadAddress.toNat ≤ entry ∧ entry < b.stop ∧ b.perm &&& 4 ≠ 0

variable {stackTop stackSize : Word} {blocks : List ToolBlock} {entry : Nat}

theorem pyValidate_iff : pyValidateProtection stackTop stackSize blocks entry = .ok () ↔
    (∀ b ∈ blocks, b.perm ≠ 0 ∧ b.perm &&& ~~~7 = 0) ∧ Guarded stackTop stackSize blocks entry := by
  unfold pyValidateProtection
  simp only [refuse_bind]
  rw [bind_ok_iff]
  constructor
  · rintro ⟨shape, place, _, all, inside⟩
    have each : ∀ b ∈ blocks, pyValidateBlock (stackTop.toNat - stackSize.toNat) stackTop.toNat b = .ok () := forM_ok all
    unfold pyValidateBlock at each
    simp only [refuse_bind, refuse_ok] at each
    simp only [not_or, not_not] at shape place
    refine ⟨fun b member => ?_, ⟨shape, ⟨?_, ?_⟩, fun b member => (each b member).2.1, fun b member => ?_, ?_⟩⟩
    · have perm := (each b member).1
      rw [not_or, not_not] at perm
      exact perm
    · exact Nat.le_of_not_lt place.1
    · exact Nat.le_of_not_lt place.2
    · exact Nat.le_of_not_lt (each b member).2.2
    · exact not_not.mp (refuse_ok.mp inside)
  · rintro ⟨perms, guarded⟩
    refine ⟨?_, ?_, (), forM_ok_iff.mpr fun b member => ?_, refuse_ok.mpr (not_not.mpr guarded.entry)⟩
    · simp only [not_or, not_not]
      exact guarded.shape
    · rw [not_or]
      exact ⟨Nat.not_lt.mpr guarded.place.1, Nat.not_lt.mpr guarded.place.2⟩
    · unfold pyValidateBlock
      simp only [refuse_bind, refuse_ok]
      refine ⟨?_, guarded.clear b member, Nat.not_lt.mpr (guarded.below b member)⟩
      rw [not_or, not_not]
      exact perms b member

/-- In a table whose blocks follow one another, the block that holds an address
is the first one found. -/
theorem find_containing (apart : blocks.Pairwise fun b c => b.stop ≤ c.loadAddress.toNat) :
    (∃ b ∈ blocks.find? fun b => b.loadAddress.toNat ≤ entry && entry < b.stop, b.perm &&& 4 ≠ 0) ↔
      ∃ b ∈ blocks, b.loadAddress.toNat ≤ entry ∧ entry < b.stop ∧ b.perm &&& 4 ≠ 0 := by
  induction blocks with
  | nil =>
    constructor
    · rintro ⟨b, found, _⟩
      cases found
    · rintro ⟨b, member, _⟩
      cases member
  | cons first rest ih =>
    obtain ⟨next, others⟩ := List.pairwise_cons.mp apart
    rw [List.find?_cons, List.exists_mem_cons_iff]
    by_cases here : first.loadAddress.toNat ≤ entry ∧ entry < first.stop
    · have taken : (decide (first.loadAddress.toNat ≤ entry) && decide (entry < first.stop)) = true := by
        rw [decide_eq_true here.1, decide_eq_true here.2]
        rfl
      rw [taken]
      constructor
      · rintro ⟨b, found, perm⟩
        cases found
        exact Or.inl ⟨here.1, here.2, perm⟩
      · rintro (⟨_, _, perm⟩ | ⟨b, member, above, _⟩)
        · exact ⟨first, rfl, perm⟩
        · exact absurd (Nat.lt_of_lt_of_le here.2 (next b member)) (Nat.not_lt.mpr above)
    · have passed : (decide (first.loadAddress.toNat ≤ entry) && decide (entry < first.stop)) = false := by
        rw [← Bool.not_eq_true, Bool.and_eq_true, decide_eq_true_iff, decide_eq_true_iff]
        exact here
      rw [passed]
      dsimp only
      rw [ih others]
      constructor
      · exact Or.inr
      · rintro (⟨above, below, _⟩ | later)
        · exact absurd ⟨above, below⟩ here
        · exact later

theorem rustValidate_iff (apart : blocks.Pairwise fun b c => b.stop ≤ c.loadAddress.toNat) :
    rustValidateProtection stackTop stackSize blocks entry = .ok () ↔ Guarded stackTop stackSize blocks entry := by
  unfold rustValidateProtection
  simp only [refuse_bind, refuse_ok, not_not]
  rw [find_containing apart]
  have start : stackSize ≤ stackTop -> (stackTop - stackSize).toNat = stackTop.toNat - stackSize.toNat := by
    intro fits
    bv_omega
  constructor
  · rintro ⟨shape, place, clear, below, inside⟩
    simp only [not_or, not_not] at shape place
    have fits : stackSize ≤ stackTop := Nat.le_of_not_lt place.2
    rw [start fits] at clear
    refine ⟨shape, ⟨Nat.le_of_not_lt place.1, fits⟩, ?_, ?_, inside⟩
    · exact fun b member reaches => clear ⟨b, member, reaches⟩
    · exact fun b member => Nat.le_of_not_lt fun above => below ⟨b, member, above⟩
  · intro guarded
    rw [start guarded.place.2]
    refine ⟨?_, ?_, ?_, ?_, guarded.entry⟩
    · simp only [not_or, not_not]
      exact guarded.shape
    · rw [not_or]
      exact ⟨Nat.not_lt.mpr guarded.place.1, Nat.not_lt.mpr guarded.place.2⟩
    · rintro ⟨b, member, reaches⟩
      exact guarded.clear b member reaches
    · rintro ⟨b, member, above⟩
      exact Nat.not_lt.mpr (guarded.below b member) above

/-! ## Both readers -/

/-- A PROTECTED image that the tools accept. -/
structure ToolAccepts (d : List Byte) : Prop where
  framed : Framed d True
  guarded : Guarded (be32 d 48) (be32 d 52) (toolImage d).blocks (toolImage d).entry

theorem Framed.of_perms : Framed d True ↔ Framed d perms ∧ ∀ b ∈ rowsOf d, b.PermOk := by
  constructor
  · intro framed
    obtain ⟨rows, all⟩ : Rows (tableOf d) perms none (rowsOf d) ∧ ∀ b ∈ rowsOf d, b.PermOk := rows_perms.mp framed.rows
    exact ⟨{ framed with rows := rows }, all⟩
  · rintro ⟨framed, all⟩
    exact { framed with rows := rows_perms.mpr ⟨framed.rows, all⟩ }

theorem length_sliceOf (start : Nat) {stop : Nat} (fits : stop ≤ d.length) : (sliceOf d start stop).length = stop - start := by
  unfold sliceOf
  rw [List.length_take, List.length_drop]
  omega

/-- A reported block is as long as its payload. -/
theorem stop_tool (head : Headed d) {b : Block} (row : RowOk (tableOf d) b) : (b.tool d).stop = b.stop := by
  have inside := row.inside.2
  have fits : b.fileOffset.toNat + b.fileSize.toNat ≤ d.length := by
    rw [← head.size]
    exact inside
  have length := length_sliceOf b.fileOffset.toNat fits
  rw [Nat.add_sub_cancel_left] at length
  change b.address.toNat + (sliceOf d b.fileOffset.toNat (b.fileOffset.toNat + b.fileSize.toNat)).length = _
  rw [length]
  rfl

theorem Framed.ascend (framed : Framed d perms) :
    (toolImage d).blocks.Pairwise fun b c => b.stop ≤ c.loadAddress.toNat := by
  have apart : (rowsOf d).Pairwise fun b c => (b.tool d).stop ≤ (c.tool d).loadAddress.toNat := by
    refine framed.rows.ascend.2.imp_of_mem ?_
    intro b c member _ order
    rw [stop_tool framed.toHeaded (framed.rows.ok b member)]
    exact order
  exact List.pairwise_map.mpr apart

theorem perms_of_tool : (∀ b ∈ (toolImage d).blocks, b.perm ≠ 0 ∧ b.perm &&& ~~~7 = 0) ↔ ∀ b ∈ rowsOf d, b.PermOk :=
  List.forall_mem_map

theorem pyParse_iff :
    pyParse d = .ok im ∧ im.protection.isSome = true ↔ ToolAccepts d ∧ im = toolImage d := by
  unfold pyParse
  rw [toolParse_iff, pyValidate_iff, perms_of_tool]
  constructor
  · rintro ⟨framed, ⟨perms, guarded⟩, same⟩
    exact ⟨⟨Framed.of_perms.mpr ⟨framed, perms⟩, guarded⟩, same⟩
  · rintro ⟨⟨framed, guarded⟩, same⟩
    obtain ⟨kept, perms⟩ := Framed.of_perms.mp framed
    exact ⟨kept, ⟨perms, guarded⟩, same⟩

theorem rustParse_iff :
    rustParse d = .ok im ∧ im.protection.isSome = true ↔ ToolAccepts d ∧ im = toolImage d := by
  unfold rustParse
  rw [toolParse_iff, eq_self, and_comm (a := rustValidateProtection _ _ _ _ = .ok ()), ← and_assoc, and_right_comm]
  refine and_congr_left fun _ => ?_
  constructor
  · rintro ⟨framed, valid⟩
    exact ⟨framed, (rustValidate_iff framed.ascend).mp valid⟩
  · rintro ⟨framed, guarded⟩
    exact ⟨framed, (rustValidate_iff framed.ascend).mpr guarded⟩

end Src32.Wax
