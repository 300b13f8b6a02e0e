import Mathlib.Algebra.Order.Ring.Nat
import Mathlib.Data.Nat.Basic
import Mathlib.Tactic.NormNum
import Mathlib.Tactic.Ring

/-!
# Big-endian numbers

A number as a sequence of bytes with the most significant one in front, which is the byte order of
network protocols. `bytes n v` are the low `n` bytes of `v`, `value` reads them back.
-/

namespace BigEndian

/-- The low `n` bytes of `v`, the most significant one first. -/
def bytes : ℕ → ℕ → List UInt8
  | 0, _ => []
  | n + 1, v => UInt8.ofNat (v / 256 ^ n) :: bytes n v

/-- The number that some bytes spell. -/
def value : List UInt8 → ℕ
  | [] => 0
  | b :: bs => b.toNat * 256 ^ bs.length + value bs

/-- A value of `n` bytes has `n` bytes. -/
@[simp] theorem length_bytes (n v : ℕ) : (bytes n v).length = n := by
  induction n with
  | zero => rfl
  | succ n ih => rw [bytes, List.length_cons, ih]

/-- A value is less than what one byte more could say. -/
theorem value_lt (bs : List UInt8) : value bs < 256 ^ bs.length := by
  induction bs with
  | nil => exact Nat.one_pos
  | cons b bs ih =>
    have h_byte : b.toNat + 1 ≤ 256 := b.toNat_lt
    calc value (b :: bs) < b.toNat * 256 ^ bs.length + 256 ^ bs.length := Nat.add_lt_add_left ih _
      _ = (b.toNat + 1) * 256 ^ bs.length := by ring
      _ ≤ 256 * 256 ^ bs.length := Nat.mul_le_mul_right _ h_byte
      _ = 256 ^ (b :: bs).length := by rw [List.length_cons, pow_succ']

/-- The bytes of a number spell what is left of it in that many bytes. -/
theorem value_bytes (n v : ℕ) : value (bytes n v) = v % 256 ^ n := by
  induction n with
  | zero => rw [bytes, value, pow_zero, Nat.mod_one]
  | succ n ih =>
    have h_top : (UInt8.ofNat (v / 256 ^ n)).toNat = v / 256 ^ n % 256 := UInt8.toNat_ofNat'
    rw [bytes, value, ih, length_bytes, h_top, pow_succ, Nat.mod_mul]
    ring

/-- A value that fits is read back. -/
theorem value_bytes_of_lt {n v : ℕ} (h : v < 256 ^ n) : value (bytes n v) = v := by
  rw [value_bytes, Nat.mod_eq_of_lt h]

/-- Bytes are the bytes of the number that they spell, with any number of them in front. -/
theorem bytes_value_add (bs : List UInt8) (k : ℕ) :
    bytes bs.length (value bs + k * 256 ^ bs.length) = bs := by
  induction bs generalizing k with
  | nil => rfl
  | cons b bs ih =>
    have h_pos : 0 < 256 ^ bs.length := Nat.pow_pos (by omega)
    have h_split : value (b :: bs) + k * 256 ^ (b :: bs).length =
        value bs + (b.toNat + k * 256) * 256 ^ bs.length := by
      rw [value, List.length_cons, pow_succ]
      ring
    have h_top : (value bs + (b.toNat + k * 256) * 256 ^ bs.length) / 256 ^ bs.length =
        b.toNat + k * 256 := by
      rw [Nat.add_mul_div_right _ _ h_pos, Nat.div_eq_of_lt (value_lt bs), Nat.zero_add]
    have h_byte : UInt8.ofNat (b.toNat + k * 256) = b := by
      apply UInt8.toNat_inj.mp
      rw [UInt8.toNat_ofNat', Nat.add_mul_mod_self_right]
      exact Nat.mod_eq_of_lt b.toNat_lt
    rw [h_split, List.length_cons, bytes, h_top, h_byte, ih]

/-- The bytes that were read are written back. -/
theorem bytes_value (bs : List UInt8) : bytes bs.length (value bs) = bs := by
  simpa using bytes_value_add bs 0

/-- A value of `w` bits in its bytes. -/
theorem value_bytes_toNat {n w : ℕ} (h : 8 * n = w) (v : BitVec w) :
    BitVec.ofNat w (value (bytes n v.toNat)) = v := by
  subst h
  have h_lt : v.toNat < 256 ^ n := by
    have h_pow : (256 : ℕ) ^ n = 2 ^ (8 * n) := by
      rw [pow_mul]
      norm_num
    rw [h_pow]
    exact v.isLt
  rw [value_bytes_of_lt h_lt, BitVec.ofNat_toNat, BitVec.setWidth_eq]

end BigEndian
