import Mathlib.Tactic.IntervalCases
import WateRMQ.Lib.BigEndian
import WateRMQ.Lib.Codec

/-!
# The codecs of the base types

The `amqp_e`, `amqp_d`, `amqp_encode_` and `amqp_decode_` functions of `amqp_private.h`, which move
numbers of 8, 16, 32 and 64 bits and sequences of bytes into a buffer and out of it.

`amqp_e16` and its siblings swap the bytes of the value on a little-endian host and copy it then in
the order of the host. What gets into the buffer is the same on both kinds of hosts
(`amqp_e_eq_bytes`), so that the rest of the development writes `BigEndian.bytes` for it.
-/

namespace WateRMQ
namespace Amqp

open Codec

/-- The values of `amqp_status_enum` other than `AMQP_STATUS_OK` that the modelled functions
give. -/
inductive Status
  | noMemory
  | badAmqpData
  | unknownClass
  | unknownMethod
  | incompatibleAmqpVersion
  | connectionClosed
  | badUrl
  | socketError
  | invalidParameter
  | tableTooBig
  | wrongMethod
  | timeout
  | timerFailure
  | heartbeatTimeout
  | unexpectedState
  | brokerUnsupportedSaslMethod
  deriving DecidableEq, Repr

/-- What ends a function of the library: a status that it returns, or a fault. -/
inductive Failure
  | status (s : Status)
  | fault (f : CMem.Fault)
  deriving DecidableEq, Repr

/-! ### The order of the bytes -/

/-- What `memcpy(data, &val, sizeof(val))` puts at `data`, for a value of `n` bytes. -/
def hostBytes (is_bigendian : Bool) (n v : ℕ) : List UInt8 :=
  if is_bigendian then BigEndian.bytes n v else (BigEndian.bytes n v).reverse

/-- What `memcpy(&val, data, sizeof(val))` makes of the bytes at `data`. -/
def hostValue (is_bigendian : Bool) (bs : List UInt8) : ℕ :=
  if is_bigendian then BigEndian.value bs else BigEndian.value bs.reverse

/-- The expression of `amqp_e16` and `amqp_d16`. -/
def swap16 (val : BitVec 16) : BitVec 16 :=
  ((val &&& 0xFF00#16) >>> 8) ||| ((val &&& 0x00FF#16) <<< 8)

/-- The expression of `amqp_e32` and `amqp_d32`. -/
def swap32 (val : BitVec 32) : BitVec 32 :=
  ((val &&& 0xFF000000#32) >>> 24) ||| ((val &&& 0x00FF0000#32) >>> 8) |||
    ((val &&& 0x0000FF00#32) <<< 8) ||| ((val &&& 0x000000FF#32) <<< 24)

/-- The expression of `amqp_e64` and `amqp_d64`. -/
def swap64 (val : BitVec 64) : BitVec 64 :=
  ((val &&& 0xFF00000000000000#64) >>> 56) ||| ((val &&& 0x00FF000000000000#64) >>> 40) |||
    ((val &&& 0x0000FF0000000000#64) >>> 24) ||| ((val &&& 0x000000FF00000000#64) >>> 8) |||
    ((val &&& 0x00000000FF000000#64) <<< 8) ||| ((val &&& 0x0000000000FF0000#64) <<< 24) |||
    ((val &&& 0x000000000000FF00#64) <<< 40) ||| ((val &&& 0x00000000000000FF#64) <<< 56)

/-- `amqp_e8`. -/
def amqp_e8 (is_bigendian : Bool) (val : BitVec 8) : List UInt8 :=
  hostBytes is_bigendian 1 val.toNat

/-- `amqp_d8`. -/
def amqp_d8 (is_bigendian : Bool) (data : List UInt8) : BitVec 8 :=
  BitVec.ofNat 8 (hostValue is_bigendian data)

/-- `amqp_e16`. -/
def amqp_e16 (is_bigendian : Bool) (val : BitVec 16) : List UInt8 :=
  hostBytes is_bigendian 2 (if !is_bigendian then swap16 val else val).toNat

/-- `amqp_d16`. -/
def amqp_d16 (is_bigendian : Bool) (data : List UInt8) : BitVec 16 :=
  let val := BitVec.ofNat 16 (hostValue is_bigendian data)
  if !is_bigendian then swap16 val else val

/-- `amqp_e32`. -/
def amqp_e32 (is_bigendian : Bool) (val : BitVec 32) : List UInt8 :=
  hostBytes is_bigendian 4 (if !is_bigendian then swap32 val else val).toNat

/-- `amqp_d32`. -/
def amqp_d32 (is_bigendian : Bool) (data : List UInt8) : BitVec 32 :=
  let val := BitVec.ofNat 32 (hostValue is_bigendian data)
  if !is_bigendian then swap32 val else val

/-- `amqp_e64`. -/
def amqp_e64 (is_bigendian : Bool) (val : BitVec 64) : List UInt8 :=
  hostBytes is_bigendian 8 (if !is_bigendian then swap64 val else val).toNat

/-- `amqp_d64`. -/
def amqp_d64 (is_bigendian : Bool) (data : List UInt8) : BitVec 64 :=
  let val := BitVec.ofNat 64 (hostValue is_bigendian data)
  if !is_bigendian then swap64 val else val

/-- `f` turns a value of `n` bytes around. -/
def IsSwap (n : ℕ) (f : BitVec (8 * n) → BitVec (8 * n)) : Prop :=
  ∀ v i, i < 8 * n → (f v).getLsbD i = v.getLsbD (8 * (n - 1) - 8 * (i / 8) + i % 8)

/-- The two bytes change places. -/
theorem isSwap_swap16 : IsSwap 2 swap16 := by
  intro v i h
  unfold swap16
  interval_cases i <;> simp

/-- The four bytes are turned around. -/
theorem isSwap_swap32 : IsSwap 4 swap32 := by
  intro v i h
  unfold swap32
  interval_cases i <;> simp

/-- The eight bytes are turned around. -/
theorem isSwap_swap64 : IsSwap 8 swap64 := by
  intro v i h
  unfold swap64
  -- each bit is computed
  interval_cases i <;> simp

/-- One byte of a value. -/
theorem getElem_bytes {n v k : ℕ} (h : k < (BigEndian.bytes n v).length) :
    (BigEndian.bytes n v)[k] = UInt8.ofNat (v / 256 ^ (n - 1 - k)) := by
  induction n generalizing k with
  | zero => cases h
  | succ n ih =>
    cases k with
    | zero => rfl
    | succ k =>
      simp only [BigEndian.bytes, List.getElem_cons_succ]
      rw [ih]
      congr 3
      omega

/-- The bits of one byte of a value. -/
theorem testBit_byte {w : ℕ} (v : BitVec w) {k j : ℕ} (h : j < 8) :
    (UInt8.ofNat (v.toNat / 256 ^ k)).toNat.testBit j = v.getLsbD (8 * k + j) := by
  have h_pow : (256 : ℕ) ^ k = 2 ^ (8 * k) := by
    rw [pow_mul]
    norm_num
  rw [UInt8.toNat_ofNat', Nat.testBit_mod_two_pow, h_pow, Nat.testBit_div_two_pow]
  simp [h, BitVec.getLsbD, Nat.add_comm]

/-- A value that is turned around has its bytes in the other order. -/
theorem reverse_bytes_swap {n : ℕ} {f : BitVec (8 * n) → BitVec (8 * n)} (h : IsSwap n f)
    (v : BitVec (8 * n)) :
    (BigEndian.bytes n (f v).toNat).reverse = BigEndian.bytes n v.toNat := by
  refine List.ext_getElem (by simp) fun k hk hk' => ?_
  have h_k : k < n := by simpa using hk
  rw [List.getElem_reverse, getElem_bytes, getElem_bytes, BigEndian.length_bytes]
  -- byte `k` from the left on one side is byte `k` from the right on the other one
  have h_index : n - 1 - (n - 1 - k) = k := by omega
  rw [h_index]
  apply UInt8.toNat_inj.mp
  refine Nat.eq_of_testBit_eq fun j => ?_
  by_cases hj : j < 8
  · -- bit `j` of byte `k`
    rw [testBit_byte _ hj, testBit_byte _ hj, h v (8 * k + j) (by omega)]
    congr 1
    omega
  · -- a byte has no further bits
    have h_high : ∀ x : UInt8, x.toNat.testBit j = false := fun x =>
      Nat.testBit_lt_two_pow (x.toNat_lt.trans_le (Nat.pow_le_pow_right (by omega) (by omega)))
    rw [h_high, h_high]

/-- The same for the value that is read. -/
theorem swap_value_reverse {n : ℕ} {f : BitVec (8 * n) → BitVec (8 * n)} (h : IsSwap n f)
    {bs : List UInt8} (h_len : bs.length = n) :
    f (BitVec.ofNat (8 * n) (BigEndian.value bs.reverse)) =
      BitVec.ofNat (8 * n) (BigEndian.value bs) := by
  -- `v` is what `memcpy` has put into the variable
  obtain ⟨v, h_v⟩ : ∃ v, BitVec.ofNat (8 * n) (BigEndian.value bs.reverse) = v := ⟨_, rfl⟩
  have h_lt : BigEndian.value bs.reverse < 2 ^ (8 * n) := by
    have h_lt := BigEndian.value_lt bs.reverse
    have h_pow : (256 : ℕ) ^ n = 2 ^ (8 * n) := by
      rw [pow_mul]
      norm_num
    rwa [List.length_reverse, h_len, h_pow] at h_lt
  -- the value has the bytes in the wrong order, and `f` turns them around
  have h_bytes : BigEndian.bytes n v.toNat = bs.reverse := by
    rw [← h_v, BitVec.toNat_ofNat, Nat.mod_eq_of_lt h_lt]
    have h_back := BigEndian.bytes_value bs.reverse
    rwa [List.length_reverse, h_len] at h_back
  have h_swap : BigEndian.bytes n (f v).toNat = bs := by
    rw [← List.reverse_inj, reverse_bytes_swap h, h_bytes]
  rw [h_v, ← h_swap, BigEndian.value_bytes_toNat rfl]

/-- What `amqp_e8` to `amqp_e64` put into the buffer does not depend on the host. -/
theorem amqp_e_eq_bytes (is_bigendian : Bool) :
    (∀ v, amqp_e8 is_bigendian v = BigEndian.bytes 1 v.toNat) ∧
    (∀ v, amqp_e16 is_bigendian v = BigEndian.bytes 2 v.toNat) ∧
    (∀ v, amqp_e32 is_bigendian v = BigEndian.bytes 4 v.toNat) ∧
    ∀ v, amqp_e64 is_bigendian v = BigEndian.bytes 8 v.toNat := by
  cases is_bigendian with
  | true => exact ⟨fun _ => rfl, fun _ => rfl, fun _ => rfl, fun _ => rfl⟩
  | false =>
    exact ⟨fun _ => rfl, reverse_bytes_swap isSwap_swap16, reverse_bytes_swap isSwap_swap32,
      reverse_bytes_swap isSwap_swap64⟩

/-- What `amqp_d8` to `amqp_d64` make of the bytes in a buffer does not depend on the host. -/
theorem amqp_d_eq_value (is_bigendian : Bool) :
    (∀ bs : List UInt8, bs.length = 1 →
      amqp_d8 is_bigendian bs = BitVec.ofNat 8 (BigEndian.value bs)) ∧
    (∀ bs : List UInt8, bs.length = 2 →
      amqp_d16 is_bigendian bs = BitVec.ofNat 16 (BigEndian.value bs)) ∧
    (∀ bs : List UInt8, bs.length = 4 →
      amqp_d32 is_bigendian bs = BitVec.ofNat 32 (BigEndian.value bs)) ∧
    ∀ bs : List UInt8, bs.length = 8 →
      amqp_d64 is_bigendian bs = BitVec.ofNat 64 (BigEndian.value bs) := by
  cases is_bigendian with
  | true => exact ⟨fun _ _ => rfl, fun _ _ => rfl, fun _ _ => rfl, fun _ _ => rfl⟩
  | false =>
    refine ⟨?_, fun bs h => swap_value_reverse isSwap_swap16 h,
      fun bs h => swap_value_reverse isSwap_swap32 h,
      fun bs h => swap_value_reverse isSwap_swap64 h⟩
    intro bs h
    -- one byte is the same in both orders
    obtain ⟨b, rfl⟩ := List.length_eq_one_iff.mp h
    rfl

/-! ### The checked codecs -/

/-- `amqp_encode_8` to `amqp_encode_64`; `e` is what the caller returns when the result is `0`. -/
def amqp_encode {bits : ℕ} (e : Status) (input : BitVec bits) : Encoder Status Unit :=
  put e (BigEndian.bytes (bits / 8) input.toNat)

/-- `amqp_decode_8` to `amqp_decode_64`. -/
def amqp_decode (bits : ℕ) (e : Status) : Reader Status (BitVec bits) := do
  let data ← take e (bits / 8)
  return BitVec.ofNat bits (BigEndian.value data)

/-- `amqp_encode_bytes`. -/
def amqp_encode_bytes (e : Status) (input : List UInt8) : Encoder Status Unit :=
  if input.length = 0 then pure () else put e input

/-- `amqp_decode_bytes`. -/
def amqp_decode_bytes (e : Status) (len : ℕ) : Reader Status (List UInt8) := take e len

/-- The widths for which the macro is instantiated. -/
def Width (bits : ℕ) : Prop := bits = 8 ∨ bits = 16 ∨ bits = 32 ∨ bits = 64

/-- The widths are those of whole bytes. -/
theorem Width.eight_mul {bits : ℕ} (h : Width bits) : 8 * (bits / 8) = bits := by
  rcases h with rfl | rfl | rfl | rfl <;> rfl

/-- A value has at least one byte. -/
theorem Width.pos {bits : ℕ} (h : Width bits) : 0 < bits / 8 := by
  rcases h with rfl | rfl | rfl | rfl <;> exact Nat.succ_pos _

/-- An encoder of the base types writes the bytes of the value. -/
theorem writes_encode {bits : ℕ} (h : Width bits) (e : Status) (v : BitVec bits) :
    Writes (amqp_encode e v) (BigEndian.bytes (bits / 8) v.toNat) := by
  refine writes_put e _ ?_
  rw [← List.length_pos_iff, BigEndian.length_bytes]
  exact h.pos

/-- A decoder of the base types takes them back. -/
theorem decodes_decode {bits : ℕ} (h : Width bits) (e : Status) (v : BitVec bits) :
    Decodes (amqp_decode bits e) (BigEndian.bytes (bits / 8) v.toNat) v := by
  refine (decodes_take e (BigEndian.length_bytes _ _)).bind_nil ?_
  rw [BigEndian.value_bytes_toNat h.eight_mul v]
  exact decodes_pure v

/-- What a decoder of the base types gives is the value of the bytes that it took. -/
theorem yields_decode (bits : ℕ) (e : Status) :
    Yields (amqp_decode bits e) fun v bs =>
      bs.length = bits / 8 ∧ v = BitVec.ofNat bits (BigEndian.value bs) :=
  (yields_take e _).bind fun a bs h => yields_pure _ (by
    rw [List.append_nil, h.1]
    exact ⟨h.2, rfl⟩)

/-- The decoders of the base types need no memory. -/
theorem robust_decode (e' : Status) (bits : ℕ) (e : Status) : Robust e' (amqp_decode bits e) :=
  (robust_take e' e _).bind fun _ => robust_pure e' _

/-- A sequence of bytes is written as it is; of an empty one nothing is copied. -/
theorem writes_encode_bytes (e : Status) (bs : List UInt8) :
    Writes (amqp_encode_bytes e bs) bs := by
  rw [amqp_encode_bytes]
  split
  case isTrue h =>
    rw [List.length_eq_zero_iff.mp h]
    exact writes_pure
  case isFalse h => exact writes_put e bs fun h_nil => h (by rw [h_nil]; rfl)

/-- As many bytes as its length says are taken back. -/
theorem decodes_decode_bytes (e : Status) {len : ℕ} {bs : List UInt8} (h : bs.length = len) :
    Decodes (amqp_decode_bytes e len) bs bs :=
  decodes_take e h

end Amqp
end WateRMQ
