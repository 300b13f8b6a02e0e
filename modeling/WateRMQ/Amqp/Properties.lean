import WateRMQ.Amqp.Method

/-!
# Properties

`amqp_decode_properties` and `amqp_encode_properties` of `amqp_framing.c`: the properties of a
message, which its header frame carries. Flags say which properties are there. They are encoded in
words of sixteen bits, of which bit 0 says that another word follows.

Decoding shifts the words together in an `int`. The C standard does not say what a shift into the
sign or by 32 bits and more gives; here it is what the machine does, which wraps around and takes
the number of places modulo 32.
-/

namespace WateRMQ
namespace Amqp

open Codec CMem

/-! ### The functions of the source -/

/-- The classes for which the library knows properties. -/
inductive ClassId
  | connection | channel | access | exchange | queue | basic | tx | confirm
  deriving DecidableEq, Repr

namespace ClassId

/-- The `class_id`. -/
def code : ClassId → BitVec 16
  | connection => 10
  | channel => 20
  | access => 30
  | exchange => 40
  | queue => 50
  | basic => 60
  | tx => 90
  | confirm => 85

/-- The properties of a class, each with the number of its flag. -/
def properties : ClassId → List (ℕ × String × FieldType)
  | basic => [
      (15, "content_type", .shortstr), (14, "content_encoding", .shortstr),
      (13, "headers", .table), (12, "delivery_mode", .octet), (11, "priority", .octet),
      (10, "correlation_id", .shortstr), (9, "reply_to", .shortstr), (8, "expiration", .shortstr),
      (7, "message_id", .shortstr), (6, "timestamp", .longlong), (5, "type", .shortstr),
      (4, "user_id", .shortstr), (3, "app_id", .shortstr), (2, "cluster_id", .shortstr)]
  | _ => []

/-- The `switch` over the `class_id`. -/
def ofCode (class_id : BitVec 16) : Option ClassId :=
  [connection, channel, access, exchange, queue, basic, tx, confirm].find? fun c =>
    c.code = class_id

end ClassId

/-- The properties of a class whose flags are set. -/
def present (flags : BitVec 32) (c : ClassId) : List (String × FieldType) :=
  (c.properties.filter fun p => flags.getLsbD p.1).map Prod.snd

/-- The structures `amqp_basic_properties_t` and so on: the flags, and the members that are set. -/
structure Properties where
  class_id : ClassId
  flags : BitVec 32
  members : Members (present flags class_id)

/-- One word of the flags, with bit 0 for the words that follow. -/
def flagWord (remaining_flags : BitVec 32) : BitVec 16 :=
  (remaining_flags &&& 0xFFFE#32).setWidth 16 |||
    (if remaining_flags >>> 16 ≠ 0 then 1#16 else 0#16)

/-- The loop of `amqp_encode_properties`. -/
def encodeFlags (remaining_flags : BitVec 32) : Encoder Status Unit := do
  amqp_encode .badAmqpData (flagWord remaining_flags)
  if remaining_flags >>> 16 ≠ 0 then
    encodeFlags (remaining_flags >>> 16)
termination_by remaining_flags.toNat
decreasing_by
  rename_i h
  have h_ne : remaining_flags.toNat / 2 ^ 16 ≠ 0 := by
    rw [← Nat.shiftRight_eq_div_pow, ← BitVec.toNat_ushiftRight]
    exact fun h_zero => h (BitVec.eq_of_toNat_eq h_zero)
  rw [BitVec.toNat_ushiftRight, Nat.shiftRight_eq_div_pow]
  omega

/-- `amqp_encode_properties`, but for the `(int)offset` at its end. -/
def encodeProperties (p : Properties) : Encoder Status Unit := do
  encodeFlags p.flags
  encodeMembers (present p.flags p.class_id) p.members

/-- `amqp_encode_properties`, from an offset of the buffer on. -/
def amqp_encode_properties (p : Properties) : Encoder Status ℤ := counted intOf (encodeProperties p)

/-- `partial_flags << (flagword_index * 16)`. -/
def shiftFlags (partial_flags : BitVec 16) (flagword_index : ℕ) : BitVec 32 :=
  partial_flags.setWidth 32 <<< (flagword_index * 16 % 32)

/-- The loop of `amqp_decode_properties`, for less than `n` words. -/
def decodeFlags : ℕ → ℕ → BitVec 32 → Reader Status (BitVec 32)
  | 0, _, _ => fail .badAmqpData
  | n + 1, flagword_index, flags => do
    let partial_flags ← amqp_decode 16 .badAmqpData
    let flags := flags ||| shiftFlags partial_flags flagword_index
    if partial_flags &&& 1 ≠ 0 then
      decodeFlags n (flagword_index + 1) flags
    else
      return flags

/-- The `switch` of `amqp_decode_properties`. -/
def decodeProperties (class_id : BitVec 16) (flags : BitVec 32) : Reader Status Properties :=
  match ClassId.ofCode class_id with
  | none => fail .unknownClass
  | some c => do
    alloc .noMemory
    let members ← decodeMembers (present flags c)
    return ⟨c, flags, members⟩

/-- `amqp_decode_properties`. There are fewer words than bytes, so that the loop ends because a word
is the last one, or the bytes do. -/
def amqp_decode_properties (class_id : BitVec 16) : Reader Status Properties := do
  let encoded := (← read).encoded
  let flags ← decodeFlags (encoded.length + 1) 0 0
  decodeProperties class_id flags

/-! ### What the encoder writes -/

/-- The encoding of the flags. -/
def wireFlags (flags : BitVec 32) : List UInt8 :=
  BigEndian.bytes 2 (flagWord flags).toNat ++
    (if flags >>> 16 ≠ 0 then BigEndian.bytes 2 (flagWord (flags >>> 16)).toNat else [])

/-- The flags that the encoding stands for. -/
def readFlags (flags : BitVec 32) : BitVec 32 :=
  (flagWord flags).setWidth 32 |||
    (if flags >>> 16 ≠ 0 then (flagWord (flags >>> 16)).setWidth 32 <<< 16 else 0)

/-- The encoding of properties. -/
def Properties.wire (p : Properties) : List UInt8 :=
  wireFlags p.flags ++ Members.wire (present p.flags p.class_id) p.members

/-- The strings of the properties fit into their fields. -/
def Properties.Encodable (p : Properties) : Prop :=
  Members.Forall FieldType.Encodable (present p.flags p.class_id) p.members

/-- Properties that are read back: the flags have nothing but continuation in bits 0 and 16, and the
members are valid. -/
structure Properties.Valid (p : Properties) : Prop where
  readFlags_eq : readFlags p.flags = p.flags
  members : Members.Forall FieldType.Valid (present p.flags p.class_id) p.members

/-- There are two words at most. -/
theorem shift_shift (flags : BitVec 32) : flags >>> 16 >>> 16 = 0 := by
  apply BitVec.eq_of_toNat_eq
  have h_lt := flags.isLt
  simp only [BitVec.toNat_ushiftRight, Nat.shiftRight_eq_div_pow]
  change flags.toNat / 2 ^ 16 / 2 ^ 16 = 0
  omega

/-- The loop writes one word or two. -/
theorem writes_flags (flags : BitVec 32) : Writes (encodeFlags flags) (wireFlags flags) := by
  have h_word : ∀ f, Writes (amqp_encode Status.badAmqpData (flagWord f))
      (BigEndian.bytes 2 (flagWord f).toNat) := fun f => writes_encode (.inr (.inl rfl)) _ _
  rw [encodeFlags, wireFlags]
  refine (h_word flags).bind ?_
  split
  · -- the second word is the last one
    rw [encodeFlags, shift_shift]
    have h_second := (h_word (flags >>> 16)).bind writes_pure
    rw [List.append_nil] at h_second
    exact h_second
  · exact writes_pure

/-- Properties whose strings fit are written. -/
theorem writes_properties {p : Properties} (h : p.Encodable) :
    Writes (encodeProperties p) p.wire :=
  (writes_flags _).bind (writes_members h)

/-- Others are refused behind their flags. -/
theorem refuses_properties {p : Properties} (h : ¬ p.Encodable) :
    Refuses (encodeProperties p) :=
  Refuses.bind (.inr (refuses_members h))

/-! ### Decoding what was written -/

/-- Bit 0 of a word says whether another one follows. -/
theorem flagWord_bit (flags : BitVec 32) : flagWord flags &&& 1 ≠ 0 ↔ flags >>> 16 ≠ 0 := by
  have h_bit : flagWord flags &&& 1 = if flags >>> 16 ≠ 0 then 1 else 0 := by
    -- bit 0 is set for another word; the others are masked
    refine BitVec.eq_of_getLsbD_eq fun i hi => ?_
    rw [flagWord]
    cases i with
    | zero => split <;> simp
    | succ i => split <;> simp
  rw [h_bit]
  split <;> simp_all

/-- The loop takes the words back. There is room for a third one, which is not there. -/
theorem decodes_flags (flags : BitVec 32) {n : ℕ} (h : 2 ≤ n) :
    Decodes (decodeFlags n 0 0) (wireFlags flags) (readFlags flags) := by
  obtain ⟨n, rfl⟩ := Nat.exists_eq_add_of_le' h
  have h_word : ∀ f, Decodes (amqp_decode 16 Status.badAmqpData)
      (BigEndian.bytes 2 (flagWord f).toNat) (flagWord f) := fun f =>
    decodes_decode (.inr (.inl rfl)) _ _
  rw [decodeFlags, wireFlags, readFlags]
  refine (h_word flags).bind ?_
  by_cases h_more : flags >>> 16 ≠ 0
  · -- two words: the second one goes to the upper half
    rw [if_pos ((flagWord_bit flags).mpr h_more), if_pos h_more, if_pos h_more, decodeFlags]
    refine (h_word _).bind_nil ?_
    have h_last : ¬ flagWord (flags >>> 16) &&& 1 ≠ 0 := fun h_bit =>
      (flagWord_bit _).mp h_bit (shift_shift flags)
    rw [if_neg h_last]
    have h_value : ((0 : BitVec 32) ||| shiftFlags (flagWord flags) 0) |||
        shiftFlags (flagWord (flags >>> 16)) (0 + 1) =
          (flagWord flags).setWidth 32 ||| (flagWord (flags >>> 16)).setWidth 32 <<< 16 := by
      simp [shiftFlags]
    rw [h_value]
    exact decodes_pure _
  · -- the first word is the last one
    rw [if_neg fun h_bit => h_more ((flagWord_bit flags).mp h_bit), if_neg h_more, if_neg h_more]
    have h_value : (0 : BitVec 32) ||| shiftFlags (flagWord flags) 0 =
        (flagWord flags).setWidth 32 ||| 0 := by
      simp [shiftFlags]
    rw [h_value]
    exact decodes_pure _

/-- The booleans of a property would fit into one byte, too; there are none. -/
theorem length_bits_le_of_present {flags : BitVec 32} {c : ClassId} {x : String}
    {names : List String} (h : (x, FieldType.bits names) ∈ present flags c) : names.length ≤ 8 := by
  obtain ⟨p, h_p, h_eq⟩ := List.mem_map.mp h
  have h_mem := List.mem_of_mem_filter h_p
  -- only the basic class has properties, and all of them are listed
  cases c <;> simp [ClassId.properties] at h_mem
  rcases h_mem with rfl | rfl | rfl | rfl | rfl | rfl | rfl | rfl | rfl | rfl | rfl | rfl | rfl |
    rfl <;> cases h_eq

/-- Every class is found by its number. -/
theorem ofCode_classId (c : ClassId) : ClassId.ofCode c.code = some c := by
  cases c <;> rfl

/-- `amqp_decode_properties` takes back what `amqp_encode_properties` wrote. -/
theorem decodes_properties {p : Properties} (h : p.Valid) :
    Decodes (amqp_decode_properties p.class_id.code) p.wire p := by
  obtain ⟨c, flags, members⟩ := p
  obtain ⟨h_read, h_members⟩ := h
  dsimp only at h_read h_members
  intro src q h_ahead
  -- the flags alone are two bytes, so that there is fuel for two words
  have h_fuel : 2 ≤ src.encoded.length + 1 := by
    have h_le := h_ahead.left.left.le
    rw [BigEndian.length_bytes] at h_le
    omega
  have h_flags := decodes_flags flags h_fuel
  rw [h_read] at h_flags
  -- behind the flags the members that they announce
  have h_switch : Decodes (decodeProperties c.code flags) (Members.wire (present flags c) members)
      ⟨c, flags, members⟩ := by
    rw [decodeProperties, ofCode_classId]
    exact (decodes_alloc _).nil_bind
      ((decodes_members h_members fun _ _ => length_bits_le_of_present).bind_nil (decodes_pure _))
  exact h_flags.bind h_switch src q h_ahead

/-- The words of the flags take at least two bytes each, so that more fuel than bytes makes no
difference. -/
theorem decodeFlags_fuel {src : Source} {n m : ℕ} (i : ℕ) (flags : BitVec 32) {p : Position}
    (h_le : p.offset ≤ src.encoded.length) (hn : src.encoded.length < p.offset + n)
    (hm : src.encoded.length < p.offset + m) :
    decodeFlags n i flags src p = decodeFlags m i flags src p := by
  -- the induction is on the fuel of one side, with the offset general
  induction n generalizing m i flags p with
  | zero => omega
  | succ n ih =>
    cases m with
    | zero => omega
    | succ m =>
      rw [decodeFlags, decodeFlags, reader_bind, reader_bind]
      cases h_run : amqp_decode 16 Status.badAmqpData src p with
      | error e => rfl
      | ok x =>
        obtain ⟨bs, h_ahead, h_off, h_bs, -⟩ := yields_decode 16 _ src p x.2 x.1 h_le h_run
        have h_end := h_ahead.le
        change (if x.1 &&& 1 ≠ 0 then _ else _ : Reader Status (BitVec 32)) src x.2 =
          (if x.1 &&& 1 ≠ 0 then _ else _ : Reader Status (BitVec 32)) src x.2
        -- when another word follows, the offset is two bytes further
        split
        · exact ih (i + 1) _ (by omega) (by omega) (by omega)
        · rfl

end Amqp
end WateRMQ
