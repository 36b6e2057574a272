import Src32.Fs.DirIndex
import Src32.Lib.ByteFields

namespace Src32.Fs

open Libfnd ByteFields

/-!
# Directory listings

`dir_peek` and `dir_op` of `server.c`, and `fs2_dir_next` of `fs2.c`.  An open
directory has a phase and a cursor: phase 0 is the directory itself, phase 1 the
reserved names of the root.
-/

/-- `vfs_node`. -/
structure Node where
  mnt : Nat
  ino : Nat

def vfsRoot : Nat := 0

def vfsDev : Nat := 1

def vfsDd : Nat := 2

def vfsOs : Nat := 3

def vfsTmp : Nat := 4

def vfsDd0 : Nat := 5

def vfsDirIno : Nat := 1

/-- `VFS_KIND_*`. -/
inductive Kind where
  | fs2
  | virtual
  | dev
  | dsfs

/-- `vfs_mount`: the directories of its volume, by inode, or the directory table. -/
structure Mount where
  present : Bool
  kind : Kind
  vol : Nat -> Option (List Dirent)
  dsfs : List Byte

/-- `dir_item`. -/
structure DirItem where
  node : Node
  name : List Byte
  nameChars : Nat

/-! ## Names -/

def ascii (text : String) : List Byte := text.toList.map fun c => BitVec.ofNat 8 c.toNat

/-- `root_reserved` and `root_reserved_mnt`. -/
def rootReserved : List (List Byte × Nat) :=
  [(ascii "dev", vfsDev), (ascii "dd", vfsDd), (ascii "os", vfsOs), (ascii "tmp", vfsTmp)]

/-- The names of `vfs_devnodes`. -/
def vfsDevnodes : List (List Byte) :=
  [ascii "con", ascii "null", ascii "fb0", ascii "sgu", ascii "sgc", ascii "trng", ascii "prng", ascii "uart0"]

/-- The root directory of the root mount. -/
def Node.isRoot (node : Node) : Bool := node.mnt = vfsRoot && node.ino = vfsDirIno

/-- `vfs_reserved`. -/
def vfsReserved (t : Casefold) (dir : Node) (name : List Byte) : Bool :=
  dir.isRoot && rootReserved.any fun r => t.nameKeyEqual r.1 name

/-- `name_chars`, which stays 0 when the check fails. -/
def nameChars (name : List Byte) : Nat :=
  match nameCheck name with
  | .ok n => n
  | _ => 0

/-! ## Slots -/

/-- `DSFS_ENTRIES`. -/
def dsfsEntries : Nat := 256

/-- `dsfs_entry_get`: the name of an entry in use. -/
def dsfsEntryGet (dir : List Byte) (index : Nat) : Option (List Byte) :=
  let e := fun k => dir.getD (index * 32 + k) 0
  if e 0 ≠ 1 then none
  else
    some (((List.range 8).map fun i => e (1 + i)).takeWhile (fun c => c ≠ 0x20) ++
      if e 9 ≠ 0x20 then 0x2E :: ((List.range 3).map fun i => e (9 + i)).takeWhile (fun c => c ≠ 0x20) else [])

/-- A loop over slots, so many from the cursor on, up to one that has an item. -/
def scanFrom (slot : Nat -> Option DirItem) : Nat -> Nat -> Option (DirItem × Nat)
  | 0, _ => none
  | n + 1, cursor =>
    match slot cursor with
    | some item => some (item, cursor + 1)
    | none => scanFrom slot n (cursor + 1)

/-- The loop over a DSFS volume. -/
def dsfsSlot (dir : List Byte) (mnt cursor : Nat) : Option DirItem :=
  (dsfsEntryGet dir cursor).map fun name => ⟨⟨mnt, 1 + (cursor + 1)⟩, name, name.length⟩

/-- The loop over the IDC slots. -/
def ddSlot (mounts : Nat -> Mount) (cursor : Nat) : Option DirItem :=
  if (mounts (vfsDd0 + cursor)).present then some ⟨⟨vfsDd0 + cursor, vfsDirIno⟩, [BitVec.ofNat 8 (0x30 + cursor)], 1⟩ else none

/-- The nodes of `/dev`. -/
def devSlot (cursor : Nat) : Option DirItem :=
  vfsDevnodes[cursor]?.map fun name => ⟨⟨vfsDev, 2 + cursor⟩, name, name.length⟩

/-- The loop over the reserved names. -/
def reservedSlot (mounts : Nat -> Mount) (cursor : Nat) : Option DirItem :=
  match rootReserved[cursor]? with
  | none => none
  | some (name, mnt) => if (mounts mnt).present then some ⟨⟨mnt, vfsDirIno⟩, name, name.length⟩ else none

/-! ## Entries of a volume -/

inductive FsError where
  | io
  | notDir

inductive DirNext where
  | entry (slot : Nat) (d : Dirent)
  | finished
  | failed (error : FsError)

/-- The loop of `fs2_dir_next`. -/
def dirNextFrom (slots : List Dirent) (fails : Nat -> Bool) : Nat -> Nat -> DirNext
  | 0, _ => .finished
  | n + 1, s =>
    match direntRead slots fails s with
    | none => .failed .io
    | some d => if d.ino ≠ 0 then .entry (s + 1) d else dirNextFrom slots fails n (s + 1)

/-- `fs2_dir_next`. -/
def fs2DirNext (vol : Nat -> Option (List Dirent)) (fails : Failures) (dir cursor : Nat) : DirNext :=
  if fails.inode then .failed .io
  else
    match vol dir with
    | none => .failed .notDir
    | some slots => dirNextFrom slots fails.entry (slots.length - cursor) cursor

/-! ## The next entry -/

/-- `phase` and `cursor` of an open directory. -/
structure Position where
  phase : Nat
  cursor : Nat

inductive Peek where
  | item (item : DirItem) (next : Position)
  | finished
  | failed (error : FsError)

section Server

variable (t : Casefold) (mounts : Nat -> Mount) (node : Node)

/-- `dir_peek` in an FS2 directory, so many rounds at most. -/
def peekFs2 (fails : Nat -> Failures) : Nat -> Nat -> Option Peek
  | 0, _ => none
  | n + 1, cursor =>
    match fs2DirNext (mounts node.mnt).vol (fails n) node.ino cursor with
    | .finished => some .finished
    | .failed error => some (.failed error)
    | .entry next d =>
      if (node.isRoot && vfsReserved t node d.name) = true then peekFs2 fails n next
      else some (.item ⟨⟨node.mnt, d.ino⟩, d.name, nameChars d.name⟩ ⟨0, next⟩)

def peekOf : Option (DirItem × Nat) -> Peek
  | none => .finished
  | some (item, next) => .item item ⟨0, next⟩

/-- The loop of `dir_peek` in phase 0. -/
def peekDisk (fails : Nat -> Failures) (cursor : Nat) : Option Peek :=
  match (mounts node.mnt).kind with
  | .fs2 => peekFs2 t mounts node fails ((((mounts node.mnt).vol node.ino).getD []).length + 1 - cursor + 1) cursor
  | .dsfs => some (peekOf (scanFrom (dsfsSlot (mounts node.mnt).dsfs node.mnt) (dsfsEntries - cursor) cursor))
  | kind =>
    if node.mnt = vfsDd then some (peekOf (scanFrom (ddSlot mounts) (4 - cursor) cursor))
    else
      match kind with
      | .dev =>
        if cursor < vfsDevnodes.length then
          match devSlot cursor with
          | some item => some (.item item ⟨0, cursor + 1⟩)
          | none => some .finished
        else some .finished
      | _ => some .finished

/-- The end of `dir_peek`. -/
def peekReserved (cursor : Nat) : Peek :=
  if node.isRoot = true then
    match scanFrom (reservedSlot mounts) (4 - cursor) cursor with
    | some (item, next) => .item item ⟨1, next⟩
    | none => .finished
  else .finished

/-- `dir_peek`; the phase is 0 or 1. -/
def dirPeek (fails : Nat -> Failures) (p : Position) : Option Peek :=
  if p.phase = 0 then
    match peekDisk t mounts node fails p.cursor with
    | some .finished => some (peekReserved mounts node 0)
    | other => other
  else some (peekReserved mounts node p.cursor)

/-! ## Requests -/

inductive Op where
  | next
  | rewind
  | other

/-- `fs_req`, and the capacity of the reply. -/
structure Request where
  op : Op
  a0 : Word
  a1 : Word
  a2 : Word
  a3 : Word
  len : Nat
  cap : Nat

inductive ReplyStatus where
  | ok
  | unsupported
  | badArg
  | limit
  | failed (error : FsError)

/-- `fs_rep`. -/
structure Reply where
  op : ReplyStatus
  a0 : Nat
  data : List Byte

/-- `FS_IPC_MAX`. -/
def fsIpcMax : Nat := 4096

/-- `FND_DIRENT_HEAD`. -/
def direntHead : Nat := 72

/-- `rec`. -/
def recordSize (item : DirItem) : Nat := (direntHead + item.name.length + 3) / 4 * 4

variable (stat : Node -> {bytes : List Byte // bytes.length = 64})

/-- A record of a reply. -/
def record (item : DirItem) : List Byte :=
  (leBytes 4 (recordSize item)).reverse ++ (stat item.node).val ++ (leBytes 2 item.name.length).reverse ++
    (leBytes 2 item.nameChars).reverse ++ item.name ++ List.replicate (recordSize item - direntHead - item.name.length) 0

/-- The loop of `dir_op`, so many rounds at most. -/
def fill (fails : Nat -> Nat -> Failures) (cap : Nat) : Nat -> Position -> List Byte -> Nat -> Option (Position × Reply)
  | 0, _, _, _ => none
  | n + 1, p, used, count =>
    match dirPeek t mounts node (fails n) p with
    | none => none
    | some .finished => some (p, ⟨.ok, count, used⟩)
    | some (.failed error) => if count = 0 then some (p, ⟨.failed error, 0, []⟩) else some (p, ⟨.ok, count, used⟩)
    | some (.item item next) =>
      if used.length + recordSize item > cap then
        if count = 0 then some (p, ⟨.limit, 0, []⟩) else some (p, ⟨.ok, count, used⟩)
      else fill fails cap n next (used ++ record stat item) (count + 1)

/-- `dir_op`. -/
def dirOp (fails : Nat -> Nat -> Failures) (p : Position) (q : Request) : Option (Position × Reply) :=
  match q.op with
  | .other => some (p, ⟨.unsupported, 0, []⟩)
  | .rewind =>
    if q.a0 ≠ 0 ∨ q.a1 ≠ 0 ∨ q.a2 ≠ 0 ∨ q.a3 ≠ 0 ∨ q.len ≠ 0 then some (p, ⟨.badArg, 0, []⟩)
    else some (⟨0, 0⟩, ⟨.ok, 0, []⟩)
  | .next =>
    if q.a0 ≠ 0 ∨ q.a1 ≠ 0 ∨ q.a2 ≠ 0 ∨ q.a3 ≠ 0 ∨ q.len ≠ 0 then some (p, ⟨.badArg, 0, []⟩)
    else fill t mounts node stat fails (min q.cap fsIpcMax) (fsIpcMax + 1) p [] 0

/-- A request, and what fails in the call: by the rounds that are left of its loops. -/
structure Call where
  request : Request
  fails : Nat -> Nat -> Failures

/-- Calls in a row on an open directory. -/
def dirOps : List Call -> Position -> Option (Position × List Reply)
  | [], p => some (p, [])
  | c :: rest, p =>
    match dirOp t mounts node stat c.fails p c.request with
    | none => none
    | some (next, reply) => (dirOps rest next).map fun x => (x.1, reply :: x.2)

end Server

end Src32.Fs
