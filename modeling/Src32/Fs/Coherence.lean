import Src32.Fs.Sectors
import Src32.Lib.Runs

namespace Src32.Fs

/-!
# The cache of a volume and its device

Whatever is read, scanned and written, and whichever of it fails, a valid line
holds what the device has in its sector and a sector is cached in its own line
alone.  So is the read-ahead buffer the sectors it was read from, and what is
read is what the device has.
-/

open Kernel (FndError)
open DirectMapped (Mirrors)

variable {Sector : Type} {v : Vol Sector} {media : Word -> Sector} {lba : Word}

/-- A volume and its device. -/
structure Coherent (v : Vol Sector) (media : Word -> Sector) : Prop where
  lines : ∀ k, (v.cache k).valid = true ->
    cacheLine v.dataStart (v.cache k).address = k ∧ (v.cache k).data = media (v.cache k).address
  ahead : ∀ i < v.scanN.toNat, v.ahead i = media (v.scanLba + BitVec.ofNat 32 i)
  inside : v.scanN ≠ 0 -> v.scanLba.toNat + v.scanN.toNat ≤ v.sectors.toNat

theorem Coherent.mirrors (coherent : Coherent v media) : Mirrors (cacheLine v.dataStart) v.cache media := coherent.lines

/-- Without a read-ahead buffer the lines are all there is to a volume. -/
theorem coherent_of_lines {next : Vol Sector} (lines : Mirrors (cacheLine next.dataStart) next.cache media)
    (none : next.scanN = 0) : Coherent next media :=
  ⟨lines, fun i few => by rw [none] at few; exact absurd few (Nat.not_lt_zero i), fun some_ => absurd none some_⟩

theorem cacheFind_some {line : CacheLine Sector} (coherent : Coherent v media) (found : cacheFind v lba = some line) :
    line.data = media lba := coherent.mirrors.find_data found

/-- The sectors of a run are of different lines. -/
theorem cacheLine_apart {dataStart : Word} {i : Nat} (some_ : 0 < i) (few : i < 8) (fits : lba.toNat + i < 2 ^ 32) :
    cacheLine dataStart (lba + BitVec.ofNat 32 i) ≠ cacheLine dataStart lba := by
  have sum : (lba + BitVec.ofNat 32 i).toNat = lba.toNat + i := by
    rw [BitVec.toNat_add, BitVec.toNat_ofNat]
    omega
  have order : ∀ x : Word, x < dataStart ↔ x.toNat < dataStart.toNat := fun x => BitVec.lt_def
  intro same
  have values := congrArg Fin.val same
  unfold cacheLine at values
  rw [apply_ite Fin.val, apply_ite Fin.val] at values
  simp only [order, sum] at values
  unfold fs2CacheMeta fs2CacheSectors at values
  split at values <;> split at values <;> omega

/-- A miss reads no more than the buffer holds and the device has. -/
theorem missRun_bounds (fuel : Nat) {n : Word} (some_ : 1 ≤ n.toNat) (few : n.toNat ≤ 8)
    (inside : lba.toNat + n.toNat ≤ v.sectors.toNat) :
    1 ≤ (missRun v lba fuel n).toNat ∧ (missRun v lba fuel n).toNat ≤ 8 ∧
      lba.toNat + (missRun v lba fuel n).toNat ≤ v.sectors.toNat := by
  induction fuel generalizing n with
  | zero => exact ⟨some_, few, inside⟩
  | succ fuel ih =>
    unfold missRun
    split
    · next more =>
        obtain ⟨short, below, _⟩ := more
        have limit := v.sectors.isLt
        rw [BitVec.lt_def] at short below
        rw [BitVec.toNat_add] at below
        have next : (n + 1).toNat = n.toNat + 1 := by
          rw [BitVec.toNat_add]
          change (n.toNat + 1) % 2 ^ 32 = n.toNat + 1
          omega
        change n.toNat < 8 at short
        apply ih
        · rw [next]
          omega
        · rw [next]
          omega
        · rw [next]
          omega
    · exact ⟨some_, few, inside⟩

theorem bufferOf_media {n : Word} {ahead : Nat -> Sector} {i : Nat} (few : i < n.toNat) :
    bufferOf media lba n ahead i = media (lba + BitVec.ofNat 32 i) := if_pos few

theorem copyRun_mirrors (mirrors : Mirrors (cacheLine v.dataStart) v.cache media) (n : Word) (ahead : Nat -> Sector) :
    Mirrors (cacheLine v.dataStart) (copyRun v lba n (bufferOf media lba n ahead)) media := by
  apply mirrors.fillAll
  intro entry member
  obtain ⟨i, few, rfl⟩ := List.mem_map.mp member
  exact bufferOf_media (List.mem_range.mp few)

/-- The sector that was asked for is in its line after the run was copied. -/
theorem copyRun_first {n : Word} (some_ : 1 ≤ n.toNat) (few : n.toNat ≤ 8) (fits : lba.toNat + n.toNat ≤ v.sectors.toNat)
    (ahead : Nat -> Sector) : (copyRun v lba n (bufferOf media lba n ahead) (cacheLine v.dataStart lba)).data = media lba := by
  obtain ⟨rest, count⟩ : ∃ rest, n.toNat = rest + 1 := ⟨n.toNat - 1, by omega⟩
  have limit := v.sectors.isLt
  have first : lba + BitVec.ofNat 32 0 = lba := BitVec.add_zero lba
  have here : bufferOf media lba n ahead 0 = media lba := by
    rw [bufferOf_media (by omega), first]
  unfold copyRun
  rw [count, List.range_succ_eq_map, List.map_cons, first, here, DirectMapped.fillAll_first]
  intro entry member
  obtain ⟨i, inside, rfl⟩ := List.mem_map.mp member
  obtain ⟨j, below, rfl⟩ := List.mem_map.mp inside
  have few' := List.mem_range.mp below
  exact cacheLine_apart (Nat.succ_pos j) (by omega) (by omega)

/-- A read keeps a volume coherent, and what it reads is what the device has. -/
theorem Coherent.secGet (coherent : Coherent v media) (drive : DevRead Sector) (lba : Word) :
    Coherent (Fs.secGet v media drive lba).2 media ∧
      ∀ data, (Fs.secGet v media drive lba).1 = .ok data -> data = media lba := by
  unfold Fs.secGet
  cases found : cacheFind v lba with
  | some line =>
    refine ⟨coherent, fun data got => ?_⟩
    cases got
    exact cacheFind_some coherent found
  | none =>
    dsimp only
    by_cases scan : v.scan = true
    · rw [if_pos scan]
      by_cases outside : lba - v.scanLba ≥ v.scanN
      · rw [if_pos outside]
        by_cases past : lba ≥ v.sectors
        · rw [if_pos past]
          exact ⟨coherent, fun data got => by cases got⟩
        · rw [if_neg past]
          generalize chosen : (if v.sectors - lba < fs2ReadAhead then v.sectors - lba else fs2ReadAhead) = n
          cases drive with
          | failed error left => exact ⟨coherent_of_lines coherent.mirrors rfl, fun data got => by cases got⟩
          | done =>
            have inside : lba.toNat + n.toNat ≤ v.sectors.toNat ∧ 0 < n.toNat := by
              have below : lba.toNat < v.sectors.toNat := Nat.lt_of_not_le past
              have rest : (v.sectors - lba).toNat = v.sectors.toNat - lba.toNat := BitVec.toNat_sub_of_le (Nat.le_of_lt below)
              have eight : fs2ReadAhead.toNat = 8 := rfl
              rw [← chosen]
              split
              · omega
              · next many =>
                  rw [BitVec.lt_def] at many
                  omega
            refine ⟨⟨coherent.lines, fun i few => bufferOf_media few, fun _ => inside.1⟩, fun data got => ?_⟩
            cases got
            rw [BitVec.sub_self]
            exact (bufferOf_media inside.2).trans (congrArg media (BitVec.add_zero lba))
      · rw [if_neg outside]
        refine ⟨coherent, fun data got => ?_⟩
        cases got
        rw [coherent.ahead _ (Nat.lt_of_not_le outside), BitVec.ofNat_toNat, BitVec.setWidth_eq, BitVec.add_comm,
          BitVec.sub_add_cancel]
    · rw [if_neg scan]
      by_cases past : lba ≥ v.sectors
      · rw [if_pos past]
        exact ⟨coherent, fun data got => by cases got⟩
      · rw [if_neg past]
        have below : lba.toNat < v.sectors.toNat := Nat.lt_of_not_le past
        obtain ⟨some_, few, inside⟩ := @missRun_bounds _ v lba 8 1 (by decide) (by decide) below
        cases drive with
        | failed error left => exact ⟨coherent_of_lines coherent.mirrors rfl, fun data got => by cases got⟩
        | done =>
          refine ⟨coherent_of_lines (copyRun_mirrors coherent.mirrors _ _) rfl, fun data got => ?_⟩
          cases got
          exact copyRun_first some_ few inside v.ahead

/-- A write keeps a volume coherent, also one that fails. -/
theorem Coherent.secWrite (coherent : Coherent v media) (drive : DevWrite Sector) (lba : Word) (buf : Sector) :
    Coherent (Fs.secWrite v media drive lba buf).2.1 (Fs.secWrite v media drive lba buf).2.2 := by
  unfold Fs.secWrite
  split
  · exact coherent
  · cases drive with
    | done => exact coherent_of_lines (coherent.mirrors.write lba buf) rfl
    | failed error left =>
      refine coherent_of_lines ?_ rfl
      dsimp only
      cases found : cacheFind v lba with
      | none => exact coherent.mirrors.lose found left
      | some line => exact (coherent.mirrors.drop _).lose (DirectMapped.find_drop lba) left

/-! ## Runs -/

/-- A mounted volume and its device. -/
structure Device (Sector : Type) where
  vol : Vol Sector
  media : Word -> Sector

/-- What a request does to the sectors of a volume. -/
inductive Access (Sector : Type) where
  | read (lba : Word) (drive : DevRead Sector)
  | write (lba : Word) (buf : Sector) (drive : DevWrite Sector)
  | beginScan
  | endScan
  | dataStart (start : Word)

def Device.after (device : Device Sector) : Access Sector -> Device Sector
  | .read lba drive => { device with vol := (secGet device.vol device.media drive lba).2 }
  | .write lba buf drive =>
    ⟨(secWrite device.vol device.media drive lba buf).2.1, (secWrite device.vol device.media drive lba buf).2.2⟩
  | .beginScan => { device with vol := beginScan device.vol }
  | .endScan => { device with vol := endScan device.vol }
  | .dataStart start => { device with vol := setDataStart device.vol start }

/-- The runs of a volume from `fs2_mount` on, which begins with nothing cached. -/
def accesses (Sector : Type) : System (Device Sector) (Access Sector) where
  initial := fun device => (∀ k, (device.vol.cache k).valid = false) ∧ device.vol.scanN = 0 ∧ device.vol.scan = false ∧
    device.vol.failed = false ∧ device.vol.dataStart = 0
  step := fun first access second => second = first.after access

theorem Coherent.after {device : Device Sector} (coherent : Coherent device.vol device.media) (access : Access Sector) :
    Coherent (device.after access).vol (device.after access).media := by
  cases access with
  | read lba drive => exact (coherent.secGet drive lba).1
  | write lba buf drive => exact coherent.secWrite drive lba buf
  | beginScan => exact coherent_of_lines coherent.mirrors rfl
  | endScan => exact ⟨coherent.lines, coherent.ahead, coherent.inside⟩
  | dataStart start =>
    exact ⟨DirectMapped.mirrors_empty _ _ fun _ => rfl, coherent.ahead, coherent.inside⟩

/-- A device of nine sectors with nothing cached. -/
def mounted : Device Nat := ⟨⟨9, 0, false, 0, false, 0, 0, fun _ => ⟨0, false, 0⟩, fun _ => 0⟩, fun lba => lba.toNat⟩

end Src32.Fs
