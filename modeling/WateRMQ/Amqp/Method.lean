import WateRMQ.Amqp.Table

/-!
# Methods

`amqp_decode_method` and `amqp_encode_method` of `amqp_framing.c`. The file is generated: the case
of each method decodes or encodes the members of its structure one after the other, and there are
eight kinds of members. So a method is here the list of its members, and the two functions go
through this list. `MethodNumber.members` is the table of all methods.

The encoder checks the length of a string against its field, but not that of the key of a table: of
this it writes the last eight bits. Its result is `(int)offset`, which is negative from `2 ^ 31`
bytes on.
-/

namespace WateRMQ
namespace Amqp

open Codec CMem

/-! ### The members of methods -/

/-- How a member of a method is encoded. Up to eight booleans share one byte. -/
inductive FieldType
  | octet
  | short
  | long
  | longlong
  | shortstr
  | longstr
  | table
  | bits (names : List String)
  deriving DecidableEq, Repr

/-- The values of a member. Of the booleans, bit `k` is the `k`-th one. -/
def FieldType.Value : FieldType → Type
  | octet => BitVec 8
  | short => BitVec 16
  | long => BitVec 32
  | longlong => BitVec 64
  | shortstr | longstr => List UInt8
  | table => Table
  | bits names => BitVec names.length

/-- The values of a list of members. -/
def Members : List (String × FieldType) → Type
  | [] => Unit
  | f :: fs => f.2.Value × Members fs

/-- The numbers of the methods, `AMQP_CONNECTION_START_METHOD` and so on. -/
inductive MethodNumber
  | connectionStart | connectionStartOk | connectionSecure | connectionSecureOk | connectionTune
  | connectionTuneOk | connectionOpen | connectionOpenOk | connectionClose | connectionCloseOk
  | connectionBlocked | connectionUnblocked | channelOpen | channelOpenOk | channelFlow
  | channelFlowOk | channelClose | channelCloseOk | accessRequest | accessRequestOk
  | exchangeDeclare | exchangeDeclareOk | exchangeDelete | exchangeDeleteOk | exchangeBind
  | exchangeBindOk | exchangeUnbind | exchangeUnbindOk | queueDeclare | queueDeclareOk
  | queueBind | queueBindOk | queuePurge | queuePurgeOk | queueDelete | queueDeleteOk
  | queueUnbind | queueUnbindOk | basicQos | basicQosOk | basicConsume | basicConsumeOk
  | basicCancel | basicCancelOk | basicPublish | basicReturn | basicDeliver | basicGet
  | basicGetOk | basicGetEmpty | basicAck | basicReject | basicRecoverAsync | basicRecover
  | basicRecoverOk | basicNack | txSelect | txSelectOk | txCommit | txCommitOk | txRollback
  | txRollbackOk | confirmSelect | confirmSelectOk
  deriving DecidableEq, Repr

namespace MethodNumber

/-- The number as `amqp_method_number_t`. -/
def code : MethodNumber → BitVec 32
  | connectionStart => 0x000A000A#32
  | connectionStartOk => 0x000A000B#32
  | connectionSecure => 0x000A0014#32
  | connectionSecureOk => 0x000A0015#32
  | connectionTune => 0x000A001E#32
  | connectionTuneOk => 0x000A001F#32
  | connectionOpen => 0x000A0028#32
  | connectionOpenOk => 0x000A0029#32
  | connectionClose => 0x000A0032#32
  | connectionCloseOk => 0x000A0033#32
  | connectionBlocked => 0x000A003C#32
  | connectionUnblocked => 0x000A003D#32
  | channelOpen => 0x0014000A#32
  | channelOpenOk => 0x0014000B#32
  | channelFlow => 0x00140014#32
  | channelFlowOk => 0x00140015#32
  | channelClose => 0x00140028#32
  | channelCloseOk => 0x00140029#32
  | accessRequest => 0x001E000A#32
  | accessRequestOk => 0x001E000B#32
  | exchangeDeclare => 0x0028000A#32
  | exchangeDeclareOk => 0x0028000B#32
  | exchangeDelete => 0x00280014#32
  | exchangeDeleteOk => 0x00280015#32
  | exchangeBind => 0x0028001E#32
  | exchangeBindOk => 0x0028001F#32
  | exchangeUnbind => 0x00280028#32
  | exchangeUnbindOk => 0x00280033#32
  | queueDeclare => 0x0032000A#32
  | queueDeclareOk => 0x0032000B#32
  | queueBind => 0x00320014#32
  | queueBindOk => 0x00320015#32
  | queuePurge => 0x0032001E#32
  | queuePurgeOk => 0x0032001F#32
  | queueDelete => 0x00320028#32
  | queueDeleteOk => 0x00320029#32
  | queueUnbind => 0x00320032#32
  | queueUnbindOk => 0x00320033#32
  | basicQos => 0x003C000A#32
  | basicQosOk => 0x003C000B#32
  | basicConsume => 0x003C0014#32
  | basicConsumeOk => 0x003C0015#32
  | basicCancel => 0x003C001E#32
  | basicCancelOk => 0x003C001F#32
  | basicPublish => 0x003C0028#32
  | basicReturn => 0x003C0032#32
  | basicDeliver => 0x003C003C#32
  | basicGet => 0x003C0046#32
  | basicGetOk => 0x003C0047#32
  | basicGetEmpty => 0x003C0048#32
  | basicAck => 0x003C0050#32
  | basicReject => 0x003C005A#32
  | basicRecoverAsync => 0x003C0064#32
  | basicRecover => 0x003C006E#32
  | basicRecoverOk => 0x003C006F#32
  | basicNack => 0x003C0078#32
  | txSelect => 0x005A000A#32
  | txSelectOk => 0x005A000B#32
  | txCommit => 0x005A0014#32
  | txCommitOk => 0x005A0015#32
  | txRollback => 0x005A001E#32
  | txRollbackOk => 0x005A001F#32
  | confirmSelect => 0x0055000A#32
  | confirmSelectOk => 0x0055000B#32

/-- The members of the structure of the method, in the order in which they are encoded. -/
def members : MethodNumber → List (String × FieldType)
  | connectionStart => [("version_major", .octet), ("version_minor", .octet),
      ("server_properties", .table), ("mechanisms", .longstr), ("locales", .longstr)]
  | connectionStartOk => [("client_properties", .table), ("mechanism", .shortstr),
      ("response", .longstr), ("locale", .shortstr)]
  | connectionSecure => [("challenge", .longstr)]
  | connectionSecureOk => [("response", .longstr)]
  | connectionTune => [("channel_max", .short), ("frame_max", .long), ("heartbeat", .short)]
  | connectionTuneOk => [("channel_max", .short), ("frame_max", .long), ("heartbeat", .short)]
  | connectionOpen => [("virtual_host", .shortstr), ("capabilities", .shortstr),
      ("bit_buffer", .bits ["insist"])]
  | connectionOpenOk => [("known_hosts", .shortstr)]
  | connectionClose => [("reply_code", .short), ("reply_text", .shortstr), ("class_id", .short),
      ("method_id", .short)]
  | connectionCloseOk => []
  | connectionBlocked => [("reason", .shortstr)]
  | connectionUnblocked => []
  | channelOpen => [("out_of_band", .shortstr)]
  | channelOpenOk => [("channel_id", .longstr)]
  | channelFlow => [("bit_buffer", .bits ["active"])]
  | channelFlowOk => [("bit_buffer", .bits ["active"])]
  | channelClose => [("reply_code", .short), ("reply_text", .shortstr), ("class_id", .short),
      ("method_id", .short)]
  | channelCloseOk => []
  | accessRequest => [("realm", .shortstr),
      ("bit_buffer", .bits ["exclusive", "passive", "active", "write", "read"])]
  | accessRequestOk => [("ticket", .short)]
  | exchangeDeclare => [("ticket", .short), ("exchange", .shortstr), ("type", .shortstr),
      ("bit_buffer", .bits ["passive", "durable", "auto_delete", "internal", "nowait"]),
      ("arguments", .table)]
  | exchangeDeclareOk => []
  | exchangeDelete => [("ticket", .short), ("exchange", .shortstr),
      ("bit_buffer", .bits ["if_unused", "nowait"])]
  | exchangeDeleteOk => []
  | exchangeBind => [("ticket", .short), ("destination", .shortstr), ("source", .shortstr),
      ("routing_key", .shortstr), ("bit_buffer", .bits ["nowait"]), ("arguments", .table)]
  | exchangeBindOk => []
  | exchangeUnbind => [("ticket", .short), ("destination", .shortstr), ("source", .shortstr),
      ("routing_key", .shortstr), ("bit_buffer", .bits ["nowait"]), ("arguments", .table)]
  | exchangeUnbindOk => []
  | queueDeclare => [("ticket", .short), ("queue", .shortstr),
      ("bit_buffer", .bits ["passive", "durable", "exclusive", "auto_delete", "nowait"]),
      ("arguments", .table)]
  | queueDeclareOk => [("queue", .shortstr), ("message_count", .long), ("consumer_count", .long)]
  | queueBind => [("ticket", .short), ("queue", .shortstr), ("exchange", .shortstr),
      ("routing_key", .shortstr), ("bit_buffer", .bits ["nowait"]), ("arguments", .table)]
  | queueBindOk => []
  | queuePurge => [("ticket", .short), ("queue", .shortstr), ("bit_buffer", .bits ["nowait"])]
  | queuePurgeOk => [("message_count", .long)]
  | queueDelete => [("ticket", .short), ("queue", .shortstr),
      ("bit_buffer", .bits ["if_unused", "if_empty", "nowait"])]
  | queueDeleteOk => [("message_count", .long)]
  | queueUnbind => [("ticket", .short), ("queue", .shortstr), ("exchange", .shortstr),
      ("routing_key", .shortstr), ("arguments", .table)]
  | queueUnbindOk => []
  | basicQos => [("prefetch_size", .long), ("prefetch_count", .short),
      ("bit_buffer", .bits ["global"])]
  | basicQosOk => []
  | basicConsume => [("ticket", .short), ("queue", .shortstr), ("consumer_tag", .shortstr),
      ("bit_buffer", .bits ["no_local", "no_ack", "exclusive", "nowait"]), ("arguments", .table)]
  | basicConsumeOk => [("consumer_tag", .shortstr)]
  | basicCancel => [("consumer_tag", .shortstr), ("bit_buffer", .bits ["nowait"])]
  | basicCancelOk => [("consumer_tag", .shortstr)]
  | basicPublish => [("ticket", .short), ("exchange", .shortstr), ("routing_key", .shortstr),
      ("bit_buffer", .bits ["mandatory", "immediate"])]
  | basicReturn => [("reply_code", .short), ("reply_text", .shortstr), ("exchange", .shortstr),
      ("routing_key", .shortstr)]
  | basicDeliver => [("consumer_tag", .shortstr), ("delivery_tag", .longlong),
      ("bit_buffer", .bits ["redelivered"]), ("exchange", .shortstr), ("routing_key", .shortstr)]
  | basicGet => [("ticket", .short), ("queue", .shortstr), ("bit_buffer", .bits ["no_ack"])]
  | basicGetOk => [("delivery_tag", .longlong), ("bit_buffer", .bits ["redelivered"]),
      ("exchange", .shortstr), ("routing_key", .shortstr), ("message_count", .long)]
  | basicGetEmpty => [("cluster_id", .shortstr)]
  | basicAck => [("delivery_tag", .longlong), ("bit_buffer", .bits ["multiple"])]
  | basicReject => [("delivery_tag", .longlong), ("bit_buffer", .bits ["requeue"])]
  | basicRecoverAsync => [("bit_buffer", .bits ["requeue"])]
  | basicRecover => [("bit_buffer", .bits ["requeue"])]
  | basicRecoverOk => []
  | basicNack => [("delivery_tag", .longlong), ("bit_buffer", .bits ["multiple", "requeue"])]
  | txSelect => []
  | txSelectOk => []
  | txCommit => []
  | txCommitOk => []
  | txRollback => []
  | txRollbackOk => []
  | confirmSelect => [("bit_buffer", .bits ["nowait"])]
  | confirmSelectOk => []

/-- All methods. -/
def all : List MethodNumber := [
  .connectionStart, .connectionStartOk, .connectionSecure, .connectionSecureOk, .connectionTune,
  .connectionTuneOk, .connectionOpen, .connectionOpenOk, .connectionClose, .connectionCloseOk,
  .connectionBlocked, .connectionUnblocked, .channelOpen, .channelOpenOk, .channelFlow,
  .channelFlowOk, .channelClose, .channelCloseOk, .accessRequest, .accessRequestOk,
  .exchangeDeclare, .exchangeDeclareOk, .exchangeDelete, .exchangeDeleteOk, .exchangeBind,
  .exchangeBindOk, .exchangeUnbind, .exchangeUnbindOk, .queueDeclare, .queueDeclareOk,
  .queueBind, .queueBindOk, .queuePurge, .queuePurgeOk, .queueDelete, .queueDeleteOk,
  .queueUnbind, .queueUnbindOk, .basicQos, .basicQosOk, .basicConsume, .basicConsumeOk,
  .basicCancel, .basicCancelOk, .basicPublish, .basicReturn, .basicDeliver, .basicGet,
  .basicGetOk, .basicGetEmpty, .basicAck, .basicReject, .basicRecoverAsync, .basicRecover,
  .basicRecoverOk, .basicNack, .txSelect, .txSelectOk, .txCommit, .txCommitOk, .txRollback,
  .txRollbackOk, .confirmSelect, .confirmSelectOk]

/-- The `switch` over the number of a method. -/
def ofCode (methodNumber : BitVec 32) : Option MethodNumber :=
  all.find? fun m => m.code = methodNumber

end MethodNumber

/-- `amqp_method_t`. -/
structure Method where
  id : MethodNumber
  decoded : Members id.members

/-! ### The functions of the source -/

/-- A string with its length in front, as `amqp_encode_method` writes it. -/
def encodeString (bits : ℕ) (s : List UInt8) : Encoder Status Unit :=
  if 2 ^ bits ≤ s.length then
    throw .badAmqpData
  else do
    amqp_encode .badAmqpData (BitVec.ofNat bits s.length)
    amqp_encode_bytes .badAmqpData s

/-- A string with its length in front, as `amqp_decode_method` reads it. -/
def decodeString (bits : ℕ) : Reader Status (List UInt8) := do
  let len ← amqp_decode bits .badAmqpData
  amqp_decode_bytes .badAmqpData len.toNat

/-- The encoder of one member. -/
def encodeField : (f : FieldType) → f.Value → Encoder Status Unit
  | .octet, (v : BitVec 8) => amqp_encode .badAmqpData v
  | .short, (v : BitVec 16) => amqp_encode .badAmqpData v
  | .long, (v : BitVec 32) => amqp_encode .badAmqpData v
  | .longlong, (v : BitVec 64) => amqp_encode .badAmqpData v
  | .shortstr, v => encodeString 8 v
  | .longstr, v => encodeString 32 v
  | .table, v => amqp_encode_table v
  | .bits _, (v : BitVec _) => amqp_encode .badAmqpData (v.setWidth 8)

/-- The decoder of one member. -/
def decodeField : (f : FieldType) → Reader Status f.Value
  | .octet => amqp_decode 8 .badAmqpData
  | .short => amqp_decode 16 .badAmqpData
  | .long => amqp_decode 32 .badAmqpData
  | .longlong => amqp_decode 64 .badAmqpData
  | .shortstr => decodeString 8
  | .longstr => decodeString 32
  | .table => amqp_decode_table
  | .bits names => do
    let bit_buffer ← amqp_decode 8 .badAmqpData
    return bit_buffer.setWidth names.length

/-- The encoder of a list of members. -/
def encodeMembers : (fs : List (String × FieldType)) → Members fs → Encoder Status Unit
  | [], _ => pure ()
  | f :: fs, m => do
    encodeField f.2 m.1
    encodeMembers fs m.2

/-- The decoder of a list of members. -/
def decodeMembers : (fs : List (String × FieldType)) → Reader Status (Members fs)
  | [] => pure ()
  | f :: fs => do
    let v ← decodeField f.2
    let m ← decodeMembers fs
    return (v, m)

/-- The `switch` of `amqp_encode_method`. -/
def encodeMethod (m : Method) : Encoder Status Unit := encodeMembers m.id.members m.decoded

/-- `(int)offset`. -/
def intOf (offset : ℕ) : ℤ := (BitVec.ofNat 32 offset).toInt

/-- `amqp_encode_method`, from an offset of the buffer on. -/
def amqp_encode_method (m : Method) : Encoder Status ℤ := counted intOf (encodeMethod m)

/-- `amqp_decode_method`. -/
def amqp_decode_method (methodNumber : BitVec 32) : Reader Status Method :=
  match MethodNumber.ofCode methodNumber with
  | none => fail .unknownMethod
  | some id => do
    alloc .noMemory
    let decoded ← decodeMembers id.members
    return ⟨id, decoded⟩

/-! ### What the encoder writes -/

/-- The value has a place in its encoding: the length of a string fits into the bytes in front of
it. -/
def FieldType.Encodable : (f : FieldType) → f.Value → Prop
  | .shortstr, (v : List UInt8) => v.length < 2 ^ 8
  | .longstr, (v : List UInt8) => v.length < 2 ^ 32
  | _, _ => True

/-- What is asked of a value for its encoding to be read back: besides its strings, its tables. -/
def FieldType.Valid : (f : FieldType) → f.Value → Prop
  | .shortstr, (v : List UInt8) => v.length < 2 ^ 8
  | .longstr, (v : List UInt8) => v.length < 2 ^ 32
  | .table, (v : Table) => v.ShortKeys ∧ v.wire.length < 2 ^ 32
  | _, _ => True

/-- The encoding of a string. -/
def wireString (bits : ℕ) (s : List UInt8) : List UInt8 :=
  BigEndian.bytes (bits / 8) (BitVec.ofNat bits s.length).toNat ++ s

/-- The encoding of a member. -/
def FieldType.wire : (f : FieldType) → f.Value → List UInt8
  | .octet, (v : BitVec 8) => BigEndian.bytes 1 v.toNat
  | .short, (v : BitVec 16) => BigEndian.bytes 2 v.toNat
  | .long, (v : BitVec 32) => BigEndian.bytes 4 v.toNat
  | .longlong, (v : BitVec 64) => BigEndian.bytes 8 v.toNat
  | .shortstr, v => wireString 8 v
  | .longstr, v => wireString 32 v
  | .table, (v : Table) => v.wire
  | .bits _, (v : BitVec _) => BigEndian.bytes 1 (v.setWidth 8).toNat

/-- All members satisfy `P`. -/
def Members.Forall (P : (f : FieldType) → f.Value → Prop) :
    (fs : List (String × FieldType)) → Members fs → Prop
  | [], _ => True
  | f :: fs, m => P f.2 m.1 ∧ Members.Forall P fs m.2

/-- The encoding of a list of members. -/
def Members.wire : (fs : List (String × FieldType)) → Members fs → List UInt8
  | [], _ => []
  | f :: fs, m => f.2.wire m.1 ++ Members.wire fs m.2

/-- The encoding of a method. -/
def Method.wire (m : Method) : List UInt8 := Members.wire m.id.members m.decoded

/-- The strings of the method fit into their fields. -/
def Method.Encodable (m : Method) : Prop :=
  Members.Forall FieldType.Encodable m.id.members m.decoded

/-- So do the keys and the sizes of its tables. -/
def Method.Valid (m : Method) : Prop := Members.Forall FieldType.Valid m.id.members m.decoded

/-- The booleans of every method fit into one byte. -/
theorem length_bits_le (id : MethodNumber) {x : String} {names : List String}
    (h : (x, FieldType.bits names) ∈ id.members) : names.length ≤ 8 := by
  -- one case for each method; most have no booleans
  cases id <;> simp [MethodNumber.members] at h <;> simp [h]

/-- Every method is found by its number. -/
theorem ofCode_code (id : MethodNumber) : MethodNumber.ofCode id.code = some id := by
  cases id <;> rfl

/-- A string that fits is written behind its length. -/
theorem writes_encodeString {bits : ℕ} (h_bits : Width bits) {s : List UInt8}
    (h : s.length < 2 ^ bits) : Writes (encodeString bits s) (wireString bits s) := by
  rw [encodeString, if_neg (Nat.not_le.mpr h)]
  exact (writes_encode h_bits _ _).bind (writes_encode_bytes _ _)

/-- One that does not is refused at once. -/
theorem refuses_encodeString {bits : ℕ} {s : List UInt8} (h : ¬ s.length < 2 ^ bits) :
    encodeString bits s = throw .badAmqpData := by
  rw [encodeString, if_pos (Nat.le_of_not_lt h)]

/-- The encoder of a member writes its encoding. -/
theorem writes_field : ∀ {f : FieldType} {v : f.Value}, f.Encodable v →
    Writes (encodeField f v) (f.wire v)
  | .octet, _, _ => writes_encode (.inl rfl) _ _
  | .short, _, _ => writes_encode (.inr (.inl rfl)) _ _
  | .long, _, _ => writes_encode (.inr (.inr (.inl rfl))) _ _
  | .longlong, _, _ => writes_encode (.inr (.inr (.inr rfl))) _ _
  | .shortstr, _, h => writes_encodeString (.inl rfl) h
  | .longstr, _, h => writes_encodeString (.inr (.inr (.inl rfl))) h
  | .table, v, _ => writes_table v
  | .bits _, _, _ => writes_encode (.inl rfl) _ _

/-- The encoder of the members writes their encodings. -/
theorem writes_members : ∀ {fs : List (String × FieldType)} {m : Members fs},
    Members.Forall FieldType.Encodable fs m → Writes (encodeMembers fs m) (Members.wire fs m)
  | [], _, _ => writes_pure
  | _ :: _, _, h => (writes_field h.1).bind (writes_members h.2)

/-- A string that is too long is refused, with nothing written. -/
theorem refused_field : ∀ {f : FieldType} {v : f.Value}, ¬ f.Encodable v →
    encodeField f v = throw .badAmqpData
  | .shortstr, _, h => refuses_encodeString h
  | .longstr, _, h => refuses_encodeString h
  | .octet, _, h | .short, _, h | .long, _, h | .longlong, _, h | .table, _, h | .bits _, _, h =>
    absurd trivial h

/-- Nothing is written outside of the room, whether the member is refused or not. -/
theorem confined_field (f : FieldType) (v : f.Value) : Confined (encodeField f v) := by
  by_cases h : f.Encodable v
  · exact (writes_field h).confined
  · rw [refused_field h]
    exact confined_throw _

/-- The same for all members. -/
theorem confined_members : ∀ (fs : List (String × FieldType)) (m : Members fs),
    Confined (encodeMembers fs m)
  | [], _ => writes_pure.confined
  | f :: fs, m => (confined_field f.2 m.1).bind (confined_members fs m.2)

/-- A method with a string that is too long is not encoded, wherever the string is. -/
theorem refuses_members : ∀ {fs : List (String × FieldType)} {m : Members fs},
    ¬ Members.Forall FieldType.Encodable fs m → Refuses (encodeMembers fs m)
  | [], _, h => absurd trivial h
  | f :: fs, m, h => by
    refine Refuses.bind ?_
    -- the string that is too long is the first member, or among those behind it
    by_cases h_head : f.2.Encodable m.1
    · exact .inr (refuses_members fun h_tail => h ⟨h_head, h_tail⟩)
    · refine .inl ?_
      rw [refused_field h_head]
      exact refuses_throw _

/-- A number of bytes that an `int` can say. -/
theorem intOf_of_lt {n : ℕ} (h : n < 2 ^ 31) : intOf n = n := by
  -- the number as an `int` is that of its last 32 bits, less `2^32` when the first one is set
  rw [intOf, BitVec.toInt_eq_toNat_cond, BitVec.toNat_ofNat]
  split <;> omega

/-- The result is negative when the last 32 bits of the number of bytes begin with a one. -/
theorem intOf_neg_iff (n : ℕ) : intOf n < 0 ↔ 2 ^ 31 ≤ n % 2 ^ 32 := by
  rw [intOf, BitVec.toInt_eq_toNat_cond, BitVec.toNat_ofNat]
  split <;> omega

/-- **What `amqp_encode_method` writes.** When the strings of the method fit into their fields and
there is room, it writes the encoding of the method and returns the number of its bytes as an `int`.
Otherwise it fails. It never writes outside the room that there is. -/
theorem amqp_encode_method_spec (m : Method) (s : Sink) :
    (m.Encodable ∧ (m.wire = [] ∨ s.offset + m.wire.length ≤ s.len) ∧
      ∃ res, amqp_encode_method m s = .ok res (s.written m.wire) ∧
        (m.wire.length < 2 ^ 31 → res = m.wire.length) ∧
        (res < 0 ↔ 2 ^ 31 ≤ m.wire.length % 2 ^ 32)) ∨
    (¬ (m.Encodable ∧ (m.wire = [] ∨ s.offset + m.wire.length ≤ s.len)) ∧
      ∃ e t, amqp_encode_method m s = .error e t ∧
        ∀ i, i < s.offset ∨ s.len ≤ i → t.mem i = s.mem i) := by
  by_cases h_enc : m.Encodable
  · have h_writes : Writes (encodeMethod m) m.wire := writes_members h_enc
    by_cases h_room : m.wire = [] ∨ s.offset + m.wire.length ≤ s.len
    · refine .inl ⟨h_enc, h_room, intOf m.wire.length, ?_, intOf_of_lt, intOf_neg_iff _⟩
      -- the result is where the offset is now, less where it was
      have h_count : (s.written m.wire).offset - s.offset = m.wire.length :=
        Nat.add_sub_cancel_left _ _
      rw [amqp_encode_method, counted_of_ok (h_writes.fits s h_room), h_count]
    · -- the method fits into its fields, but not into the buffer
      refine .inr ⟨fun h => h_room h.2, ?_⟩
      push Not at h_room
      obtain ⟨e, t, h_run, -, h_mem⟩ := h_writes.fails s h_room.1 h_room.2
      exact ⟨e, t, counted_of_error h_run, h_mem⟩
  · -- a string is refused, and what was written before it lies in the room
    refine .inr ⟨fun h => h_enc h.1, ?_⟩
    obtain ⟨t, ⟨h_run, -⟩ | ⟨e, h_run⟩, -, h_mem⟩ := confined_members m.id.members m.decoded s
    · exact absurd h_run (refuses_members h_enc s t)
    · exact ⟨e, t, counted_of_error h_run, h_mem⟩

/-! ### Decoding what was written -/

/-- A valid method can be encoded. -/
theorem encodable_members : ∀ {fs : List (String × FieldType)} {m : Members fs},
    Members.Forall FieldType.Valid fs m → Members.Forall FieldType.Encodable fs m
  | [], _, _ => trivial
  | (_, f) :: _, _, h => by
    refine ⟨?_, encodable_members h.2⟩
    cases f with
    | shortstr | longstr => exact h.1
    | _ => exact trivial

/-- The same for a method. -/
theorem encodable_of_valid {m : Method} (h : m.Valid) : m.Encodable := encodable_members h

/-- A string is taken back. -/
theorem decodes_decodeString {bits : ℕ} (h_bits : Width bits) {s : List UInt8}
    (h : s.length < 2 ^ bits) : Decodes (decodeString bits) (wireString bits s) s :=
  (decodes_decode h_bits _ _).bind (decodes_decode_bytes _ (toNat_length h).symm)

/-- The booleans are the first bits of their byte. -/
theorem setWidth_setWidth {n : ℕ} (h : n ≤ 8) (v : BitVec n) : (v.setWidth 8).setWidth n = v := by
  -- bit by bit: the byte has all of them
  refine BitVec.eq_of_getLsbD_eq fun i hi => ?_
  have h_i : i < 8 := by omega
  simp [hi, h_i]

/-- A member is taken back. -/
theorem decodes_field : ∀ {f : FieldType} {v : f.Value}, f.Valid v →
    (∀ names, f = .bits names → names.length ≤ 8) → Decodes (decodeField f) (f.wire v) v
  | .octet, _, _, _ => decodes_decode (.inl rfl) _ _
  | .short, _, _, _ => decodes_decode (.inr (.inl rfl)) _ _
  | .long, _, _, _ => decodes_decode (.inr (.inr (.inl rfl))) _ _
  | .longlong, _, _, _ => decodes_decode (.inr (.inr (.inr rfl))) _ _
  | .shortstr, _, h, _ => decodes_decodeString (.inl rfl) h
  | .longstr, _, h, _ => decodes_decodeString (.inr (.inr (.inl rfl))) h
  | .table, _, h, _ => decodes_amqp_decode_table h.1 h.2
  | .bits names, v, _, h_bits => by
    refine (decodes_decode (.inl rfl) _ _).bind_nil ?_
    rw [setWidth_setWidth (h_bits names rfl) v]
    exact decodes_pure _

/-- The members are taken back, one behind the other. -/
theorem decodes_members : ∀ {fs : List (String × FieldType)} {m : Members fs},
    Members.Forall FieldType.Valid fs m →
    (∀ x names, (x, FieldType.bits names) ∈ fs → names.length ≤ 8) →
    Decodes (decodeMembers fs) (Members.wire fs m) m
  | [], _, _, _ => decodes_pure _
  | f :: fs, m, h, h_bits => by
    -- the first member, and by induction those behind it
    refine (decodes_field h.1 fun names h_f => h_bits f.1 names ?_).bind
      ((decodes_members h.2 fun x names h_x => h_bits x names (List.mem_cons_of_mem f h_x)).bind_nil
        (decodes_pure _))
    rw [← h_f]
    exact List.mem_cons_self

/-- `amqp_decode_method` takes back what `amqp_encode_method` wrote. -/
theorem decodes_method {m : Method} (h : m.Valid) :
    Decodes (amqp_decode_method m.id.code) m.wire m := by
  rw [amqp_decode_method, ofCode_code]
  exact (decodes_alloc _).nil_bind ((decodes_members h fun _ _ => length_bits_le m.id).bind_nil
    (decodes_pure _))

/-! ### Decoding any bytes -/

/-- A string that is decoded from any bytes is as long as its field says. -/
theorem yields_decodeString (bits : ℕ) :
    Yields (decodeString bits) fun s bs =>
      bs.length = (wireString bits s).length ∧ s.length < 2 ^ bits := by
  refine (yields_decode _ _).bind fun len bs h_len => (yields_take _ _).mono fun s cs h_s => ?_
  -- the length was read from `bits` bits
  have h_lt : s.length < 2 ^ bits := by
    rw [h_s.1, h_s.2]
    exact len.isLt
  refine ⟨?_, h_lt⟩
  rw [wireString, List.length_append, List.length_append, BigEndian.length_bytes, h_len.1, h_s.1]

/-- A member that is decoded from any bytes is valid, and its encoding is as long as these. -/
theorem yields_decodeField : ∀ f : FieldType, Yields (decodeField f) fun v bs =>
    bs.length = (f.wire v).length ∧ (bs.length < 2 ^ 32 → f.Valid v)
  | .octet | .short | .long | .longlong =>
    (yields_decode _ _).mono fun _ _ h => ⟨by rw [h.1, FieldType.wire, BigEndian.length_bytes],
      fun _ => trivial⟩
  | .shortstr => (yields_decodeString 8).mono fun _ _ h => ⟨h.1, fun _ => h.2⟩
  | .longstr => (yields_decodeString 32).mono fun _ _ h => ⟨h.1, fun _ => h.2⟩
  | .table => yields_amqp_decode_table.mono fun _ _ h => ⟨h.1, fun h_lt => ⟨h.2, h.1 ▸ h_lt⟩⟩
  | .bits names => (yields_decode 8 _).bind fun _ _ h => yields_pure _ ⟨by
      rw [List.append_nil, h.1, FieldType.wire, BigEndian.length_bytes], fun _ => trivial⟩

/-- The same for all members. -/
theorem yields_members : ∀ fs : List (String × FieldType), Yields (decodeMembers fs) fun m bs =>
    bs.length = (Members.wire fs m).length ∧
      (bs.length < 2 ^ 32 → Members.Forall FieldType.Valid fs m)
  | [] => yields_pure _ ⟨rfl, fun _ => trivial⟩
  | f :: fs => by
    refine (yields_decodeField f.2).bind fun v bs h_v => (yields_members fs).bind fun m cs h_m =>
      yields_pure _ ⟨?_, fun h_lt => ?_⟩
    · rw [List.append_nil, List.length_append, h_v.1, h_m.1]
      exact (List.length_append).symm
    · -- a part of the bytes is not longer than all of them
      rw [List.append_nil, List.length_append] at h_lt
      exact ⟨h_v.2 (by omega), h_m.2 (by omega)⟩

/-- Whatever bytes a method is decoded from, it is a valid method whose encoding is as long. -/
theorem yields_method (methodNumber : BitVec 32) :
    Yields (amqp_decode_method methodNumber) fun m bs => m.id.code = methodNumber ∧
      bs.length = m.wire.length ∧ (bs.length < 2 ^ 32 → m.Valid) := by
  rw [amqp_decode_method]
  split
  case h_1 => exact yields_fail _
  case h_2 id h_id =>
    -- `ofCode` gives a method with the number that it was asked for
    have h_code : id.code = methodNumber := by
      have h_found := List.find?_some h_id
      simpa using h_found
    refine (yields_alloc _).bind fun _ none h_none => (yields_members id.members).bind
      fun decoded bs h => yields_pure _ ?_
    rw [h_none, List.append_nil]
    exact ⟨h_code, h⟩

/-! ### Decoding with less memory -/

/-- Only tables need memory. -/
theorem robust_decodeField : ∀ f : FieldType, Robust .noMemory (decodeField f)
  | .octet | .short | .long | .longlong => robust_decode _ _ _
  | .shortstr | .longstr => (robust_decode _ _ _).bind fun _ => robust_take _ _ _
  | .table => robust_amqp_decode_table
  | .bits _ => (robust_decode _ _ _).bind fun _ => robust_pure _ _

/-- The members need the memory that each of them needs. -/
theorem robust_members : ∀ fs : List (String × FieldType), Robust .noMemory (decodeMembers fs)
  | [] => robust_pure _ _
  | f :: fs => (robust_decodeField f.2).bind fun _ => (robust_members fs).bind fun _ =>
      robust_pure _ _

/-- A method needs its structure and the memory of its members. -/
theorem robust_method (methodNumber : BitVec 32) :
    Robust .noMemory (amqp_decode_method methodNumber) := by
  rw [amqp_decode_method]
  -- an unknown number is refused before anything is allocated
  split
  · exact robust_fail _ _
  · exact (robust_alloc _).bind fun _ => (robust_members _).bind fun _ => robust_pure _ _

/-- **A valid method is read back**: where its encoding lies in a buffer, `amqp_decode_method` gives
the method and stops behind it, unless an allocation fails. -/
theorem amqp_decode_method_wire {m : Method} (h : m.Valid) {src : Source} {p : Position}
    (h_ahead : src.Ahead p.offset m.wire) :
    (∃ k, src.memory k = false) ∧ amqp_decode_method m.id.code src p = .error .noMemory ∨
      ∃ k, amqp_decode_method m.id.code src p = .ok (m, ⟨p.offset + m.wire.length, k⟩) := by
  obtain ⟨k, h_decode⟩ := decodes_method h src p h_ahead
  -- with all memory the method is read back; with less, that or the failure
  rcases robust_method m.id.code src p with h_none | h_same
  · exact .inl h_none
  · exact .inr ⟨k, h_same.trans h_decode⟩

/-- An answer of a client, with a table in its properties. -/
def clientAnswer : Method :=
  ⟨.connectionStartOk, nestedTable, [80, 76, 65, 73, 78], [0, 97, 0, 98], [101, 110], ()⟩

theorem amqp_decode_method_startOk :
    ∃ k, amqp_decode_method 0x000A000B#32 ⟨clientAnswer.wire, fun _ => true⟩ ⟨0, 0⟩ =
      .ok (clientAnswer, ⟨clientAnswer.wire.length, k⟩) := by
  have h_short : ∀ s : List UInt8, s.length ≤ 5 → FieldType.shortstr.Valid s :=
    fun s h => lt_of_le_of_lt h (by decide)
  have h_long : ∀ s : List UInt8, s.length ≤ 5 → FieldType.longstr.Valid s :=
    fun s h => lt_of_le_of_lt h (by decide)
  have h_valid : clientAnswer.Valid :=
    ⟨⟨⟨by decide, ⟨by decide, trivial, by decide, trivial, trivial⟩, trivial⟩, by decide⟩,
      h_short _ (by decide), h_long _ (by decide), h_short _ (by decide), trivial⟩
  have h_ahead : (Source.mk clientAnswer.wire fun _ => true).Ahead 0 clientAnswer.wire :=
    ⟨[], [], (List.append_nil _).symm, rfl⟩
  rcases amqp_decode_method_wire h_valid (p := ⟨0, 0⟩) h_ahead with ⟨⟨k, h_memory⟩, -⟩ | ⟨k, h⟩
  · cases h_memory
  · refine ⟨k, h.trans ?_⟩
    rw [Nat.zero_add]

/-- **Whatever `amqp_decode_method` accepts can be sent on**: the method that it gives is encoded in
exactly as many bytes as were taken, and there it is decoded as the same method. -/
theorem amqp_encode_method_decode {methodNumber : BitVec 32} {m : Method} {src : Source}
    {p q : Position} (h_le : p.offset ≤ src.encoded.length)
    (h_lt : src.encoded.length < 2 ^ 31)
    (h_run : amqp_decode_method methodNumber src p = .ok (m, q)) :
    m.wire.length = q.offset - p.offset ∧ Decodes (amqp_decode_method methodNumber) m.wire m ∧
      ∀ s : Sink, s.offset + m.wire.length ≤ s.len →
        amqp_encode_method m s = .ok (m.wire.length : ℤ) (s.written m.wire) := by
  obtain ⟨bs, h_ahead, h_off, rfl, h_bs, h_valid⟩ := yields_method methodNumber src p q m h_le h_run
  have h_end := h_ahead.le
  have h_m : m.Valid := h_valid (by omega)
  refine ⟨by omega, decodes_method h_m, fun s h_room => ?_⟩
  -- the encoder cannot fail: the strings fit, since they were decoded, and there is room
  rcases amqp_encode_method_spec m s with ⟨-, -, res, h_encode, h_res, -⟩ | ⟨h_not, -⟩
  · rw [h_encode, h_res (by omega)]
  · exact absurd ⟨encodable_of_valid h_m, .inr h_room⟩ h_not

end Amqp
end WateRMQ
