import Src32.Machine.Word

namespace Src32.ByteFields

/-!
# Numbers in byte strings

Fields of a fixed number of bytes, the least significant byte first, and the
fields of a string that is put together from them.
-/

/-- The `n` low bytes of a number. -/
def leBytes : Nat -> Nat -> List Byte
  | 0, _ => []
  | n + 1, x => BitVec.ofNat 8 x :: leBytes n (x / 256)

/-- The number that bytes stand for. -/
def leNat : List Byte -> Nat
  | [] => 0
  | b :: rest => b.toNat + 256 * leNat rest

/-- The `n` bytes from position `start` on. -/
def slice (bytes : List Byte) (start n : Nat) : List Byte := (bytes.drop start).take n

theorem leBytes_length (n x : Nat) : (leBytes n x).length = n := by
  induction n generalizing x with
  | zero => rfl
  | succ n ih => exact congrArg (· + 1) (ih (x / 256))

/-- A number that fits is read back. -/
theorem leNat_leBytes {n x : Nat} (fits : x < 256 ^ n) : leNat (leBytes n x) = x := by
  induction n generalizing x with
  | zero =>
    rw [Nat.pow_zero] at fits
    have zero : x = 0 := by omega
    rw [zero]
    rfl
  | succ n ih =>
    have rest : x / 256 < 256 ^ n := by
      apply Nat.div_lt_of_lt_mul
      rw [Nat.mul_comm, ← Nat.pow_succ]
      exact fits
    change (BitVec.ofNat 8 x).toNat + 256 * leNat (leBytes n (x / 256)) = x
    rw [ih rest, BitVec.toNat_ofNat]
    exact Nat.mod_add_div x 256

theorem leNat_append (first second : List Byte) :
    leNat (first ++ second) = leNat first + 256 ^ first.length * leNat second := by
  induction first with
  | nil => rw [List.nil_append, List.length_nil, Nat.pow_zero, Nat.one_mul, show leNat [] = 0 from rfl, Nat.zero_add]
  | cons b rest ih =>
    change b.toNat + 256 * leNat (rest ++ second) = b.toNat + 256 * leNat rest + 256 ^ (rest.length + 1) * leNat second
    rw [ih, Nat.pow_succ, Nat.mul_add, Nat.add_assoc, Nat.mul_comm (256 ^ rest.length) 256, Nat.mul_assoc]

theorem leNat_lt (bytes : List Byte) : leNat bytes < 256 ^ bytes.length := by
  induction bytes with
  | nil => exact Nat.one_pos
  | cons b rest ih =>
    have small := b.isLt
    change b.toNat + 256 * leNat rest < 256 ^ (rest.length + 1)
    rw [Nat.pow_succ]
    omega

theorem leNat_zeros (n : Nat) : leNat (List.replicate n 0) = 0 := by
  induction n with
  | zero => rfl
  | succ n ih =>
    rw [List.replicate_succ]
    change (0 : Byte).toNat + 256 * leNat (List.replicate n 0) = 0
    rw [ih]
    rfl

/-- Bytes dropped are a quotient. -/
theorem leNat_drop (bytes : List Byte) (n : Nat) : leNat (bytes.drop n) = leNat bytes / 256 ^ n := by
  induction n generalizing bytes with
  | zero => rw [List.drop_zero, Nat.pow_zero, Nat.div_one]
  | succ n ih =>
    cases bytes with
    | nil => rw [List.drop_nil, show leNat [] = 0 from rfl, Nat.zero_div]
    | cons b rest =>
      have small := b.isLt
      have tail : (b.toNat + 256 * leNat rest) / 256 = leNat rest := by omega
      rw [List.drop_succ_cons, ih]
      change _ = (b.toNat + 256 * leNat rest) / 256 ^ (n + 1)
      rw [Nat.pow_succ', ← Nat.div_div_eq_div_mul, tail]

/-- Strings of one length that stand for one number are the same. -/
theorem leNat_injective {first second : List Byte} (long : first.length = second.length)
    (same : leNat first = leNat second) : first = second := by
  induction first generalizing second with
  | nil => exact (List.eq_nil_of_length_eq_zero long.symm).symm
  | cons b rest ih =>
    cases second with
    | nil => exact absurd long (by simp)
    | cons c other =>
      have smallB := b.isLt
      have smallC := c.isLt
      change b.toNat + 256 * leNat rest = c.toNat + 256 * leNat other at same
      have head : b = c := BitVec.eq_of_toNat_eq (by omega)
      rw [head, ih (Nat.succ.inj long) (by omega)]

theorem slice_length {bytes : List Byte} {start n : Nat} (inside : start + n ≤ bytes.length) :
    (slice bytes start n).length = n := by
  unfold slice
  rw [List.length_take, List.length_drop]
  omega

/-- The field between what comes before it and what comes behind. -/
theorem slice_append {before field behind : List Byte} {start n : Nat} (at_ : before.length = start)
    (long : field.length = n) : slice (before ++ (field ++ behind)) start n = field := by
  unfold slice
  rw [← at_, List.drop_left, ← long, List.take_left]

theorem slice_first {field behind : List Byte} {n : Nat} (long : field.length = n) :
    slice (field ++ behind) 0 n = field := by
  unfold slice
  rw [List.drop_zero, ← long, List.take_left]

end Src32.ByteFields
