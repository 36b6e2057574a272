import Src32.Startup.Layout

namespace Src32.Startup

open Fallible
open BitVec (ofNat toNat_ofNat)

/-!
# The round trip of a startup block

A request that fits is laid out, and its child reads it back if its heap has room
for the block and it has at most `ARGS_MAX` arguments.  The writer lets more
arguments pass than the reader takes.
-/

/-- The roles of a child: the streams, the file system, and the console if its
parent has one. -/
def roleCount (console : Bool) : Word := if console then 5 else 4

variable {ex : Exec} {argv0 cwd : CString} {console room : Bool} {heap : Buffer}

/-- Bytes of the header and the tables. -/
def Exec.tables (ex : Exec) (console : Bool) : Nat :=
  40 + 4 * ex.childArgc.toNat + 8 * (roleCount console).toNat + 4 * ex.env.length

theorem Exec.tables_eq (ex : Exec) (console : Bool) : ex.tables console =
    40 + 4 * ex.childArgc.toNat + 8 * (roleCount console).toNat + 4 * ex.env.length := rfl

/-- The request keeps the limits of the writer. -/
def Exec.Fits (ex : Exec) (argv0 cwd : CString) (console : Bool) : Prop :=
  ex.childArgc.toNat ≤ 1024 ∧ ex.env.length ≤ 128 ∧
    ex.tables console + space (ex.args argv0) + space ex.env + (cwd.bytes.length + 1) ≤ 4096

/-- What a laid out block holds. -/
structure Laid (ex : Exec) (argv0 cwd : CString) (console : Bool) (block : Buffer) (size : Word) : Prop where
  small : size.toNat ≤ 4096
  behind : ex.tables console + space (ex.args argv0) + space ex.env + (cwd.bytes.length + 1) ≤ size.toNat
  header : ∀ (m : Nat) value, [startupMagic, startupVersion, size, ex.childArgc, headerSize,
      ofNat 32 (ex.tables console + space (ex.args argv0) + space ex.env), roleCount console,
      ofNat 32 (40 + 4 * ex.childArgc.toNat), ofNat 32 ex.env.length,
      ofNat 32 (40 + 4 * ex.childArgc.toNat + 8 * (roleCount console).toNat)][m]? = some value ->
    Holds block (4 * m) (wordBytes value)
  args : Stored block 40 0 (ex.tables console) (ex.args argv0)
  env : Stored block (40 + 4 * ex.childArgc.toNat + 8 * (roleCount console).toNat) 0
    (ex.tables console + space (ex.args argv0)) ex.env
  cwd : Holds block (ex.tables console + space (ex.args argv0) + space ex.env) cwd.stored
  roles : ∀ m, m < (roleCount console).toNat ->
    Holds block (40 + 4 * ex.childArgc.toNat + 8 * m) (wordBytes (ofNat 32 (m + 1))) ∧
      Holds block (40 + 4 * ex.childArgc.toNat + 8 * m + 4) (wordBytes (ofNat 32 (m + 1)))

theorem roleCount_bounds (console : Bool) : 4 ≤ (roleCount console).toNat ∧ (roleCount console).toNat ≤ 5 := by
  cases console <;> decide

theorem length_args (ex : Exec) (argv0 : CString) : (ex.args argv0).length = ex.childArgc.toNat := by
  unfold Exec.args
  rw [List.length_map, List.length_range]

theorem env_length (ex : Exec) : 4 * (ex.env.length + 1) < 2 ^ 32 := by
  unfold Exec.env
  cases present : ex.envp with
  | none => decide
  | some list => exact ex.pointers list present

/-- Rounding up to 8 within the buffer. -/
theorem round_up {off n : Word} (fits : off.toNat + n.toNat ≤ 4096) : off.toNat + n.toNat ≤ ((off + n + 7) &&& ~~~7).toNat ∧
    ((off + n + 7) &&& ~~~7).toNat ≤ 4096 := by
  have sum : (off + n + 7).toNat = off.toNat + n.toNat + 7 := by bv_omega
  have whole := Word.and_not_add_and (off + n + 7) 7
  have below : ((off + n + 7) &&& 7).toNat = (off + n + 7).toNat % 8 := by
    rw [BitVec.toNat_and]
    exact Nat.and_two_pow_sub_one_eq_mod _ 3
  omega

/-- The offsets of the tables do not wrap within the limits. -/
theorem offsets (few : ex.childArgc.toNat ≤ 1024) (fewToo : ex.env.length ≤ 128) :
    (headerSize + 4 * ex.childArgc).toNat = 40 + 4 * ex.childArgc.toNat ∧
      (headerSize + 4 * ex.childArgc + 8 * roleCount console).toNat =
        40 + 4 * ex.childArgc.toNat + 8 * (roleCount console).toNat ∧
      (headerSize + 4 * ex.childArgc + 8 * roleCount console + 4 * ofNat 32 ex.env.length).toNat =
        ex.tables console := by
  have roles := roleCount_bounds console
  have header : headerSize.toNat = 40 := rfl
  have envc : (ofNat 32 ex.env.length).toNat = ex.env.length := by
    rw [toNat_ofNat]
    omega
  unfold Exec.tables
  generalize ex.env.length = count at fewToo envc ⊢
  generalize ofNat 32 count = words at envc ⊢
  generalize ex.childArgc = argc at few ⊢
  generalize roleCount console = named at roles ⊢
  generalize headerSize = start at header ⊢
  have first : (start + 4 * argc).toNat = 40 + 4 * argc.toNat := by bv_omega
  have second : (start + 4 * argc + 8 * named).toNat = 40 + 4 * argc.toNat + 8 * named.toNat := by bv_omega
  refine ⟨first, second, ?_⟩
  bv_omega

/-- A request that fits is laid out, and another one is refused. -/
theorem buildStartup_cases (heap : Buffer) (ex : Exec) (argv0 cwd : CString) (console : Bool) :
    (¬ ex.Fits argv0 cwd console ∧ buildStartup heap ex argv0 cwd (roleCount console) = .error .limit) ∨
      (ex.Fits argv0 cwd console ∧ ∃ block size, buildStartup heap ex argv0 cwd (roleCount console) = .ok (block, size) ∧
        Laid ex argv0 cwd console block size) := by
  have roles := roleCount_bounds console
  have pointers := env_length ex
  have envc : (ofNat 32 ex.env.length).toNat = ex.env.length := by
    rw [toNat_ofNat]
    omega
  have args := length_args ex argv0
  unfold buildStartup
  dsimp only
  by_cases many : ex.childArgc > spawnMaxHandles * 64 ∨ ofNat 32 ex.env.length > 128 ∨
      headerSize + 4 * ex.childArgc + 8 * roleCount console + 4 * ofNat 32 ex.env.length > startupMax
  · rw [if_pos many]
    refine Or.inl ⟨fun fits => ?_, rfl⟩
    obtain ⟨few, fewToo, total⟩ := fits
    obtain ⟨_, _, ends⟩ := @offsets ex console few fewToo
    rcases many with more | more | more
    · have bound : 1024 < ex.childArgc.toNat := more
      omega
    · have bound : 128 < (ofNat 32 ex.env.length).toNat := more
      omega
    · have bound : 4096 < (headerSize + 4 * ex.childArgc + 8 * roleCount console + 4 * ofNat 32 ex.env.length).toNat :=
        more
      omega
  · rw [if_neg many]
    rw [not_or, not_or] at many
    have few : ex.childArgc.toNat ≤ 1024 := Nat.le_of_not_lt many.1
    have fewToo : ex.env.length ≤ 128 := by
      rw [← envc]
      exact Nat.le_of_not_lt many.2.1
    obtain ⟨rolesOff, envOff, ends⟩ := @offsets ex console few fewToo
    have inside : ex.tables console ≤ 4096 := by
      rw [← ends]
      exact Nat.le_of_not_lt many.2.2
    have header : headerSize.toNat = 40 := rfl
    have tables := ex.tables_eq console
    generalize headerSize + 4 * ex.childArgc + 8 * roleCount console + 4 * ofNat 32 ex.env.length = off at ends ⊢
    generalize rolesAt : headerSize + 4 * ex.childArgc = rolesTable at rolesOff envOff ⊢
    generalize envAt : rolesTable + 8 * roleCount console = envTable at envOff ⊢
    rcases @putStrings_cases heap 0 (ex.args argv0) headerSize off (by omega) (by omega) (by omega) with
      ⟨excess, failed⟩ | ⟨fits, first, afterArgs, done, last, stored, frame⟩
    · rw [failed]
      exact Or.inl ⟨fun fits => by have total := fits.2.2; omega, rfl⟩
    · rw [done, ok_bind]
      dsimp only
      rcases @putStrings_cases first 0 ex.env envTable afterArgs (by omega) (by omega) (by omega) with
        ⟨excess, failed⟩ | ⟨fitsToo, second, afterEnv, doneToo, lastToo, storedToo, frameToo⟩
      · rw [failed]
        exact Or.inl ⟨fun fits => by have total := fits.2.2; omega, rfl⟩
      · rw [doneToo, ok_bind]
        dsimp only
        have cwdLength := strLen_succ cwd
        by_cases long : strLen cwd + 1 > startupMax - afterEnv
        · rw [if_pos long]
          have more : (startupMax - afterEnv).toNat < (strLen cwd + 1).toNat := long
          have room : (startupMax - afterEnv).toNat = 4096 - afterEnv.toNat := by
            have max := max_toNat
            bv_omega
          exact Or.inl ⟨fun fits => by have total := fits.2.2; omega, rfl⟩
        · rw [if_neg long]
          have short : ¬ (startupMax - afterEnv).toNat < (strLen cwd + 1).toNat := long
          have room : (startupMax - afterEnv).toNat = 4096 - afterEnv.toNat := by
            have max := max_toNat
            bv_omega
          rw [max_toNat, storeBytes_ok (by rw [length_stored]; omega), ok_bind]
          obtain ⟨above, below⟩ := @round_up afterEnv (strLen cwd + 1) (by omega)
          generalize (afterEnv + (strLen cwd + 1) + 7) &&& ~~~7 = size at above below ⊢
          have small : ¬ size > startupMax := Nat.not_lt_of_le below
          rw [if_neg small]
          -- The roles and the header are written in front of the strings.
          obtain ⟨fourth, doneRoles, pairs, frameRoles⟩ := @putRoles_ok (second.patch afterEnv.toNat cwd.stored) 0
            rolesTable (by omega) (roleCount console).toNat (by omega)
          rw [doneRoles, ok_bind]
          have ten : ∀ values : List Word, values.length = 10 -> 4 * (0 + values.length) ≤ 4096 := by omega
          obtain ⟨fifth, doneHeader, words, frameHeader⟩ := @putHeader_ok fourth
            [startupMagic, startupVersion, size, ex.childArgc, headerSize, afterEnv, roleCount console, rolesTable,
              ofNat 32 ex.env.length, envTable] 0 (ten _ rfl)
          rw [doneHeader, ok_bind]
          have early : ∀ k, 40 ≤ k -> k < afterEnv.toNat ->
              (k < rolesTable.toNat ∨ rolesTable.toNat + 8 * (roleCount console).toNat ≤ k) -> fifth k = second k := by
            intro k past before apart
            rw [frameHeader k (Or.inr past), frameRoles k (by omega), patch_outside (by omega)]
          have late : ∀ k, off.toNat ≤ k -> fifth k = second.patch afterEnv.toNat cwd.stored k := by
            intro k past
            rw [frameHeader k (Or.inr (by change 40 ≤ k; omega)), frameRoles k (by omega)]
          have places : ex.tables console + space (ex.args argv0) + space ex.env = afterEnv.toNat := by omega
          refine Or.inr ⟨⟨few, fewToo, by omega⟩, fifth, size, rfl, below, by omega, ?_, ?_, ?_, ?_, ?_⟩
          · intro m value found
            rw [places, BitVec.ofNat_toNat, BitVec.setWidth_eq, ← envOff, BitVec.ofNat_toNat, BitVec.setWidth_eq, ← rolesOff,
              BitVec.ofNat_toNat, BitVec.setWidth_eq] at found
            have word := words m value found
            rw [Nat.zero_add] at word
            exact word
          · rw [← ends]
            refine stored.agree (fun k past before => ?_) (fun k past before => ?_)
            · rw [early k (by omega) (by omega) (by omega), frameToo k (by omega)]
            · rw [early k (by omega) (by omega) (by omega), frameToo k (by omega)]
          · rw [← envOff, ← ends, ← last]
            refine storedToo.agree (fun k past before => ?_) (fun k past before => ?_)
            · exact early k (by omega) (by omega) (by omega)
            · exact early k (by omega) (by omega) (by omega)
          · rw [places]
            apply (holds_patch second afterEnv.toNat cwd.stored).agree
            intro k past before
            exact late k (by omega)
          · intro m inside_
            obtain ⟨name, handle⟩ := pairs m (Nat.zero_le m) (by omega)
            have four : (wordBytes (ofNat 32 (m + 1))).length = 4 := rfl
            rw [← rolesOff]
            exact ⟨name.agree fun k past before => frameHeader k (Or.inr (by change 40 ≤ k; omega)),
              handle.agree fun k past before => frameHeader k (Or.inr (by change 40 ≤ k; omega))⟩

/-! ## Reading it back -/

/-- The child reads what its parent gave. -/
structure Reads (ex : Exec) (argv0 cwd : CString) (console : Bool) (startup : Startup) : Prop where
  args : startup.args = (ex.args argv0).map CString.bytes
  env : startup.env = ex.env.map CString.bytes
  cwd : startup.cwd = some cwd.bytes
  role : ∀ k, startup.role k = if 0 < k ∧ k ≤ (roleCount console).toNat then ofNat 32 k else 0

variable {block copy : Buffer} {size : Word}

/-- The block of the child is a copy of the one laid out. -/
theorem Laid.copied (laid : Laid ex argv0 cwd console block size) (same : ∀ k, k < size.toNat -> copy k = block k) :
    Laid ex argv0 cwd console copy size := by
  have behind := laid.behind
  have args := length_args ex argv0
  have tables := ex.tables_eq console
  constructor
  case small => exact laid.small
  case behind => exact behind
  case header =>
    intro m value found
    have index := (List.getElem?_eq_some_iff.mp found).1
    have four : (wordBytes value).length = 4 := rfl
    have ten : m < 10 := index
    exact (laid.header m value found).agree fun k _ below => same k (by omega)
  case args => exact laid.args.agree (fun k _ below => same k (by omega)) (fun k _ below => same k (by omega))
  case env => exact laid.env.agree (fun k _ below => same k (by omega)) (fun k _ below => same k (by omega))
  case cwd =>
    apply laid.cwd.agree
    intro k _ below
    rw [length_stored] at below
    exact same k (by omega)
  case roles =>
    intro m inside
    obtain ⟨name, handle⟩ := laid.roles m inside
    have four : (wordBytes (ofNat 32 (m + 1))).length = 4 := rfl
    exact ⟨name.agree fun k _ below => same k (by omega), handle.agree fun k _ below => same k (by omega)⟩

/-- A header word of the block. -/
theorem Laid.word (laid : Laid ex argv0 cwd console block size) {m : Nat} {value : Word}
    (found : [startupMagic, startupVersion, size, ex.childArgc, headerSize,
      ofNat 32 (ex.tables console + space (ex.args argv0) + space ex.env), roleCount console,
      ofNat 32 (40 + 4 * ex.childArgc.toNat), ofNat 32 ex.env.length,
      ofNat 32 (40 + 4 * ex.childArgc.toNat + 8 * (roleCount console).toNat)][m]? = some value) :
    loadWord size.toNat block m = .ok value := by
  have behind := laid.behind
  have index : m < 10 := (List.getElem?_eq_some_iff.mp found).1
  have tables := ex.tables_eq console
  exact (laid.header m value found).loadWord (by omega)

/-- The reader refuses a block of too many arguments. -/
theorem Laid.refused (laid : Laid ex argv0 cwd console block size) (many : 64 < ex.childArgc.toNat) :
    readBlock block size = .ok .empty := by
  have behind := laid.behind
  have tables := ex.tables_eq console
  unfold readBlock
  rw [laid.word rfl, ok_bind]
  have version : ¬ startupVersion = 1 := by decide
  rw [if_neg version]
  have long : ¬ size < headerSize := by
    apply Nat.not_lt_of_le
    change 40 ≤ size.toNat
    omega
  dsimp only
  rw [if_neg long, laid.word rfl, ok_bind, laid.word rfl, ok_bind, laid.word rfl, ok_bind, laid.word rfl, ok_bind, laid.word rfl,
    ok_bind, laid.word rfl, ok_bind, laid.word rfl, ok_bind]
  have excess : ex.childArgc > argsMax := many
  rw [if_pos (Or.inr (Or.inr (Or.inr (Or.inl excess))))]

theorem tableBad_fits {table count entry n : Word} (aligned : table.toNat % 4 = 0)
    (inside : table.toNat + count.toNat * entry.toNat ≤ n.toNat) (small : n.toNat ≤ 4096) : ¬ tableBad table count entry n := by
  have limit := n.isLt
  have product : (count * entry).toNat = count.toNat * entry.toNat := by
    rw [BitVec.toNat_mul]
    exact Nat.mod_eq_of_lt (by omega)
  have rest : (n - table).toNat = n.toNat - table.toNat := by bv_omega
  unfold tableBad
  rw [not_or, not_or, not_not]
  refine ⟨BitVec.eq_of_toNat_eq ?_, ?_, ?_⟩
  · rw [BitVec.toNat_and]
    exact (Nat.and_two_pow_sub_one_eq_mod table.toNat 2).trans aligned
  · change ¬ n.toNat < table.toNat
    omega
  · change ¬ (n - table).toNat < (count * entry).toNat
    omega

/-- The reader finds everything in the block. -/
theorem Laid.reads (laid : Laid ex argv0 cwd console block size) (few : ex.childArgc.toNat ≤ 64) (fewToo : ex.env.length ≤ 128) :
    ∃ startup, readBlock block size = .ok startup ∧ Reads ex argv0 cwd console startup := by
  have small := laid.small
  have behind := laid.behind
  have roles := roleCount_bounds console
  have args := length_args ex argv0
  have tables := ex.tables_eq console
  have four : (4 : Word).toNat = 4 := rfl
  have eight : (8 : Word).toNat = 8 := rfl
  have header : headerSize.toNat = 40 := rfl
  have envc : (ofNat 32 ex.env.length).toNat = ex.env.length := by
    rw [toNat_ofNat]
    omega
  have rolesOff : (ofNat 32 (40 + 4 * ex.childArgc.toNat)).toNat = 40 + 4 * ex.childArgc.toNat := by
    rw [toNat_ofNat]
    omega
  have envOff : (ofNat 32 (40 + 4 * ex.childArgc.toNat + 8 * (roleCount console).toNat)).toNat =
      40 + 4 * ex.childArgc.toNat + 8 * (roleCount console).toNat := by
    rw [toNat_ofNat]
    omega
  have cwdOff : (ofNat 32 (ex.tables console + space (ex.args argv0) + space ex.env)).toNat =
      ex.tables console + space (ex.args argv0) + space ex.env := by
    rw [toNat_ofNat]
    omega
  have argsStored := laid.args
  have envStored := laid.env
  have cwdStored := laid.cwd
  have pairs := laid.roles
  rw [← envOff] at envStored
  rw [← cwdOff] at cwdStored
  rw [← header] at argsStored
  rw [← rolesOff] at pairs
  have words := @Laid.word ex argv0 cwd console block size laid
  generalize ofNat 32 (40 + 4 * ex.childArgc.toNat + 8 * (roleCount console).toNat) = envTable at envOff envStored words
  generalize ofNat 32 (ex.tables console + space (ex.args argv0) + space ex.env) = cwdAt at cwdOff cwdStored words
  generalize ofNat 32 (40 + 4 * ex.childArgc.toNat) = rolesTable at rolesOff pairs words
  generalize ofNat 32 ex.env.length = count at envc words
  unfold readBlock
  rw [words rfl, ok_bind]
  have version : ¬ startupVersion = 1 := by decide
  rw [if_neg version]
  have long : ¬ size < headerSize := by
    apply Nat.not_lt_of_le
    rw [header]
    omega
  dsimp only
  rw [if_neg long, words rfl, ok_bind, words rfl, ok_bind, words rfl, ok_bind, words rfl, ok_bind, words rfl, ok_bind,
    words rfl, ok_bind, words rfl, ok_bind]
  have fine : ¬ (startupMagic ≠ startupMagic ∨ (startupVersion ≠ 1 ∧ startupVersion ≠ 2) ∨ size ≠ size ∨
      ex.childArgc > argsMax ∨ tableBad headerSize ex.childArgc 4 size ∨ tableBad rolesTable (roleCount console) 8 size) := by
    rintro (bad | bad | bad | bad | bad | bad)
    · exact bad rfl
    · exact bad.2 rfl
    · exact bad rfl
    · exact Nat.not_lt_of_le few bad
    · exact tableBad_fits (by omega) (by rw [four]; omega) small bad
    · exact tableBad_fits (by omega) (by rw [eight]; omega) small bad
  rw [if_neg fine, if_neg version, words rfl, ok_bind, if_neg version, words rfl, ok_bind]
  have fineToo : ¬ (count > envMax ∨ tableBad envTable count 4 size) := by
    rintro (bad | bad)
    · have excess : 128 < count.toNat := bad
      omega
    · exact tableBad_fits (by omega) (by rw [four]; omega) small bad
  rw [if_neg fineToo]
  have environment : readStrings block size envTable 0 ex.env.length = .ok (some (ex.env.map CString.bytes)) :=
    readStrings_stored (by omega) envStored (by omega) (by omega)
  have arguments : readStrings block size headerSize 0 (ex.args argv0).length =
      .ok (some ((ex.args argv0).map CString.bytes)) := readStrings_stored (by omega) argsStored (by omega) (by omega)
  rw [← envc] at environment
  rw [args] at arguments
  rw [environment, ok_bind]
  dsimp only
  rw [arguments, ok_bind]
  dsimp only
  obtain ⟨role, done, named⟩ := @readRoles_stored block 0 rolesTable size (by omega) (roleCount console).toNat
    Startup.empty.role (fun m _ inside => pairs m (by omega)) (by omega) (by omega)
  rw [done, ok_bind, blockString_holds cwdStored (by omega)]
  refine ⟨_, rfl, rfl, rfl, rfl, fun k => ?_⟩
  rw [Nat.zero_add] at named
  exact named k

/-! ## The round trip -/

/-- No access leaves a buffer, and a request that is not refused is read back as
it was given. -/
def RoundTrips (room : Bool) (heap : Buffer) (ex : Exec) (argv0 cwd : CString) (console : Bool) : Prop :=
  match buildStartup heap ex argv0 cwd (roleCount console) with
  | .error .fault => False
  | .error .limit => True
  | .ok (block, size) => ∀ copy, (∀ k, k < size.toNat -> copy k = block k) ->
      ∃ startup, readStartup room copy size = .ok startup ∧ Reads ex argv0 cwd console startup

theorem childArgc_pos (ex : Exec) : 1 ≤ ex.childArgc.toNat := by
  unfold Exec.childArgc
  split
  · next some_ =>
      apply Nat.one_le_iff_ne_zero.mpr
      intro zero
      exact some_ (BitVec.eq_of_toNat_eq zero)
  · exact Nat.le_refl 1

/-- A child that read nothing lacks its arguments. -/
theorem not_reads_empty : ¬ Reads ex argv0 cwd console .empty := by
  intro reads
  have lengths := congrArg List.length reads.args
  rw [List.length_map, length_args] at lengths
  have some_ := childArgc_pos ex
  change 0 = ex.childArgc.toNat at lengths
  omega

/-- The child reads nothing from a block of too many arguments. -/
theorem not_roundTrips (room : Bool) (heap : Buffer) (fits : ex.Fits argv0 cwd console) (many : 64 < ex.childArgc.toNat) :
    ¬ RoundTrips room heap ex argv0 cwd console := by
  unfold RoundTrips
  rcases buildStartup_cases heap ex argv0 cwd console with ⟨excess, _⟩ | ⟨_, block, size, built, laid⟩
  · exact absurd fits excess
  · rw [built]
    intro reads
    obtain ⟨startup, done, same⟩ := reads block fun _ _ => rfl
    unfold readStartup at done
    split at done
    · cases done
      exact not_reads_empty same
    · rw [laid.refused many] at done
      cases done
      exact not_reads_empty same

def emptyString : CString := ⟨[], List.forall_mem_nil _, by decide⟩

/-- A request of 65 empty arguments. -/
def manyArgs : Exec where
  argc := 65
  argv := some (List.replicate 65 (some emptyString))
  flags := keepArgv0
  envp := none
  given := by
    intro i _ inside
    change i < 65 at inside
    refine ⟨_, emptyString, rfl, ?_⟩
    rw [List.getElem?_replicate, if_pos inside]
  pointers := by
    intro list present
    cases present

end Src32.Startup
