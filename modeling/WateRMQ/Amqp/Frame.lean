import WateRMQ.Amqp.Properties

/-!
# Frames

What one party sends at a time: `amqp_frame_t` and its encoding by `amqp_frame_to_bytes` of
`amqp_connection.c`. A frame is encoded into the outbound buffer, whose length is `frame_max`, as a
type, a channel, the size of the payload, the payload and an end byte.

The encoders of methods and properties know how much room there is, and since the length of the
buffer is an `int`, the `int` that they give is the number of bytes (`encodeInto_method`). The
fragment of a body is copied
without a look at it: `amqp_frame_to_bytes_spec` says that these are the frames that are written
past the end of the buffer.
-/

namespace WateRMQ
namespace Amqp

open Codec CMem

/-! ### The functions of the source -/

/-- `amqp_frame_t`, by its `frame_type`. -/
inductive Frame
  | method (channel : BitVec 16) (method : Method)
  | header (channel : BitVec 16) (body_size : BitVec 64) (properties : Properties)
  | body (channel : BitVec 16) (body_fragment : List UInt8)
  | heartbeat (channel : BitVec 16)
  | protocolHeader (transport_high transport_low version_major version_minor : BitVec 8)

namespace Frame

/-- `frame_type`: `AMQP_FRAME_METHOD`, `AMQP_FRAME_HEADER`, `AMQP_FRAME_BODY`,
`AMQP_FRAME_HEARTBEAT` and `AMQP_PSEUDOFRAME_PROTOCOL_HEADER`. -/
def frame_type : Frame → BitVec 8
  | method _ _ => 1
  | header _ _ _ => 2
  | body _ _ => 3
  | heartbeat _ => 8
  | protocolHeader _ _ _ _ => BitVec.ofNat 8 'A'.toNat

/-- `channel`. -/
def channel : Frame → BitVec 16
  | method c _ | header c _ _ | body c _ | heartbeat c => c
  | protocolHeader _ _ _ _ => 0

end Frame

/-- `HEADER_SIZE`. -/
def HEADER_SIZE : ℕ := 7

/-- `FOOTER_SIZE`. -/
def FOOTER_SIZE : ℕ := 1

/-- `AMQP_FRAME_END`. -/
def AMQP_FRAME_END : BitVec 8 := 206

/-- A write to the buffer that is not checked by the program. -/
def store (mem : Bytes) (len offset : ℕ) (bs : List UInt8) : Except Failure Bytes :=
  if offset + bs.length ≤ len then .ok (storeBytes mem offset bs)
  else .error (.fault .outOfBounds)

/-- An encoder on the part of the buffer from `offset` on that leaves room for the end byte, with
the number of bytes that it wrote. When there is no such part, its length wraps around. -/
def encodeInto (mem : Bytes) (len offset : ℕ) (w : Encoder Status Unit) :
    Except Failure (Bytes × ℕ) :=
  if len < offset + FOOTER_SIZE then .error (.fault .outOfBounds)
  else
    match w ⟨mem, len - FOOTER_SIZE, offset⟩ with
    | .error e _ => .error (.status e)
    | .ok _ s => .ok (s.mem, s.offset - offset)

/-- The `switch` of `amqp_frame_to_bytes`, with `out_frame_len`. -/
def payloadToBytes (mem : Bytes) (len : ℕ) : Frame → Except Failure (Bytes × ℕ)
  | .body _ body_fragment => do
    let mem ← store mem len HEADER_SIZE body_fragment
    return (mem, body_fragment.length)
  | .method _ m => do
    let mem ← store mem len HEADER_SIZE (BigEndian.bytes 4 m.id.code.toNat)
    let (mem, res) ← encodeInto mem len (HEADER_SIZE + 4) (encodeMethod m)
    return (mem, res + 4)
  | .header _ body_size p => do
    let mem ← store mem len HEADER_SIZE (BigEndian.bytes 2 p.class_id.code.toNat)
    let mem ← store mem len (HEADER_SIZE + 2) (BigEndian.bytes 2 0)
    let mem ← store mem len (HEADER_SIZE + 4) (BigEndian.bytes 8 body_size.toNat)
    let (mem, res) ← encodeInto mem len (HEADER_SIZE + 12) (encodeProperties p)
    return (mem, res + 12)
  | .heartbeat _ => return (mem, 0)
  | .protocolHeader _ _ _ _ => .error (.status .invalidParameter)

/-- `amqp_frame_to_bytes`, with the contents of the buffer and the length of the encoding. -/
def amqp_frame_to_bytes (frame : Frame) (mem : Bytes) (len : ℕ) : Except Failure (Bytes × ℕ) := do
  let mem ← store mem len 0 (BigEndian.bytes 1 frame.frame_type.toNat)
  let mem ← store mem len 1 (BigEndian.bytes 2 frame.channel.toNat)
  let (mem, out_frame_len) ← payloadToBytes mem len frame
  let mem ← store mem len 3 (BigEndian.bytes 4 (BitVec.ofNat 32 out_frame_len).toNat)
  let mem ← store mem len (HEADER_SIZE + out_frame_len) (BigEndian.bytes 1 AMQP_FRAME_END.toNat)
  return (mem, out_frame_len + HEADER_SIZE + FOOTER_SIZE)

/-! ### The encoding of a frame -/

namespace Frame

/-- The payload of a frame. -/
def payload : Frame → List UInt8
  | method _ m => BigEndian.bytes 4 m.id.code.toNat ++ m.wire
  | header _ body_size p => BigEndian.bytes 2 p.class_id.code.toNat ++ (BigEndian.bytes 2 0 ++
      (BigEndian.bytes 8 body_size.toNat ++ p.wire))
  | body _ body_fragment => body_fragment
  | heartbeat _ | protocolHeader _ _ _ _ => []

/-- Type, channel and size. -/
def head (f : Frame) : List UInt8 :=
  BigEndian.bytes 1 f.frame_type.toNat ++ (BigEndian.bytes 2 f.channel.toNat ++
    BigEndian.bytes 4 (BitVec.ofNat 32 f.payload.length).toNat)

/-- The encoding of a frame. -/
def wire (f : Frame) : List UInt8 :=
  f.head ++ (f.payload ++ BigEndian.bytes 1 AMQP_FRAME_END.toNat)

/-- The frames that are encoded when there is room. -/
def Encodable : Frame → Prop
  | method _ m => m.Encodable
  | header _ _ p => p.Encodable
  | body _ _ | heartbeat _ => True
  | protocolHeader _ _ _ _ => False

/-- The head of a frame has seven bytes. -/
@[simp] theorem length_head (f : Frame) : f.head.length = 7 := by
  simp [head]

/-- A frame has eight bytes more than its payload. -/
theorem length_wire (f : Frame) : f.wire.length = f.payload.length + 8 := by
  simp [wire]
  omega

end Frame

/-- A write inside the buffer. -/
theorem store_of_le {mem : Bytes} {len offset : ℕ} {bs : List UInt8}
    (h : offset + bs.length ≤ len) : store mem len offset bs = .ok (storeBytes mem offset bs) :=
  if_pos h

/-- A write past its end. -/
theorem store_of_lt {mem : Bytes} {len offset : ℕ} {bs : List UInt8}
    (h : len < offset + bs.length) : store mem len offset bs = .error (.fault .outOfBounds) :=
  if_neg (Nat.not_le.mpr h)

/-- An encoder that has room for its bytes and one more. -/
theorem encodeInto_of_le {mem : Bytes} {len offset : ℕ} {w : Encoder Status Unit} {bs : List UInt8}
    (h : Writes w bs) (h_le : offset + bs.length + 1 ≤ len) :
    encodeInto mem len offset w = .ok (storeBytes mem offset bs, bs.length) := by
  have h_room : bs = [] ∨ offset + bs.length ≤ len - 1 := .inr (by omega)
  have h_run := h.fits ⟨mem, len - 1, offset⟩ h_room
  rw [encodeInto, if_neg (by rw [FOOTER_SIZE]; omega)]
  change (match w ⟨mem, len - 1, offset⟩ with
    | .error e _ => _
    | .ok _ s => _) = _
  rw [h_run]
  change Except.ok (storeBytes mem offset bs, offset + bs.length - offset) = _
  rw [Nat.add_sub_cancel_left]

/-- On a buffer whose length is an `int`, the number of bytes is what `amqp_encode_method` gives. -/
theorem encodeInto_method (mem : Bytes) {len offset : ℕ} (h_len : len < 2 ^ 31)
    (h_offset : offset + FOOTER_SIZE ≤ len) (m : Method) :
    encodeInto mem len offset (encodeMethod m) =
      match amqp_encode_method m ⟨mem, len - FOOTER_SIZE, offset⟩ with
      | .error e _ => .error (.status e)
      | .ok res s => .ok (s.mem, res.toNat) := by
  rw [encodeInto, if_neg (Nat.not_lt.mpr h_offset)]
  cases h_run : encodeMethod m ⟨mem, len - FOOTER_SIZE, offset⟩ with
  | error e t => rw [amqp_encode_method, counted_of_error h_run]
  | ok u t =>
    -- what is written is inside of the buffer, so its length is an `int`
    have h_end : t.offset - offset ≤ len := by
      by_cases h_enc : m.Encodable
      · have h_writes : Writes (encodeMethod m) m.wire := writes_members h_enc
        obtain ⟨rfl, h_room⟩ := h_writes.of_ok h_run
        change offset + m.wire.length - offset ≤ len
        rcases h_room with h_nil | h_room
        · rw [h_nil, List.length_nil]
          omega
        · change offset + m.wire.length ≤ len - FOOTER_SIZE at h_room
          omega
      · exact absurd h_run (refuses_members h_enc _ t)
    rw [amqp_encode_method, counted_of_ok h_run]
    dsimp only
    rw [intOf_of_lt (lt_of_le_of_lt h_end h_len), Int.toNat_natCast]

/-- The payload goes behind the header, the rest is left to the end of the function. -/
theorem payloadToBytes_of_le {f : Frame} (h : f.Encodable) {mem : Bytes} {len : ℕ}
    (h_room : f.payload.length + 8 ≤ len) :
    payloadToBytes mem len f = .ok (storeBytes mem 7 f.payload, f.payload.length) := by
  cases f with
  | method c m =>
    rw [Frame.payload, List.length_append, BigEndian.length_bytes] at h_room ⊢
    have h_writes : Writes (encodeMethod m) m.wire := writes_members h
    have h_id : HEADER_SIZE + (BigEndian.bytes 4 m.id.code.toNat).length ≤ len := by
      rw [BigEndian.length_bytes, HEADER_SIZE]
      omega
    have h_rest : HEADER_SIZE + 4 + m.wire.length + 1 ≤ len := by
      rw [HEADER_SIZE]
      omega
    -- the number of the method, and its members behind it
    have h_gap := storeBytes_storeBytes mem 7 (BigEndian.bytes 4 m.id.code.toNat) m.wire
    rw [BigEndian.length_bytes] at h_gap
    rw [payloadToBytes, store_of_le h_id]
    change (encodeInto _ len (HEADER_SIZE + 4) (encodeMethod m) >>= _) = _
    rw [encodeInto_of_le h_writes h_rest]
    change Except.ok (storeBytes (storeBytes mem 7 _) (7 + 4) m.wire, m.wire.length + 4) = _
    rw [h_gap, Nat.add_comm]
  | header c body_size p =>
    have h_writes := writes_properties h
    rw [Frame.payload] at h_room ⊢
    simp only [List.length_append, BigEndian.length_bytes] at h_room ⊢
    have h_store : ∀ k n v, k + n ≤ 12 →
        HEADER_SIZE + k + (BigEndian.bytes n v).length ≤ len := by
      intro k n v h_le
      rw [BigEndian.length_bytes, HEADER_SIZE]
      omega
    have h_rest : HEADER_SIZE + 12 + p.wire.length + 1 ≤ len := by
      rw [HEADER_SIZE]
      omega
    have h_first : HEADER_SIZE + (BigEndian.bytes 2 p.class_id.code.toNat).length ≤ len :=
      h_store 0 2 _ (by omega)
    rw [payloadToBytes, store_of_le h_first]
    change (store _ len (HEADER_SIZE + 2) _ >>= _) = _
    rw [store_of_le (h_store 2 2 _ (by omega))]
    change (store _ len (HEADER_SIZE + 4) _ >>= _) = _
    rw [store_of_le (h_store 4 8 _ (by omega))]
    change (encodeInto _ len (HEADER_SIZE + 12) (encodeProperties p) >>= _) = _
    rw [encodeInto_of_le h_writes h_rest]
    have h_len : p.wire.length + 12 = 2 + (2 + (8 + p.wire.length)) := by omega
    -- four stores one behind the other are one
    have h_mem : ∀ a b c d : List UInt8, a.length = 2 → b.length = 2 → c.length = 8 →
        storeBytes (storeBytes (storeBytes (storeBytes mem 7 a) (7 + 2) b) (7 + 4) c) (7 + 12) d =
          storeBytes mem 7 (a ++ (b ++ (c ++ d))) := by
      intro a b c d ha hb hc
      rw [← storeBytes_storeBytes, ← storeBytes_storeBytes, ← storeBytes_storeBytes, ha, hb, hc]
    change Except.ok (_, p.wire.length + 12) = _
    rw [h_len]
    exact congrArg (fun m => Except.ok (m, _)) (h_mem _ _ _ _ (BigEndian.length_bytes _ _)
      (BigEndian.length_bytes _ _) (BigEndian.length_bytes _ _))
  | body c body_fragment =>
    have h_le : HEADER_SIZE + body_fragment.length ≤ len := by
      rw [HEADER_SIZE]
      rw [Frame.payload] at h_room
      omega
    rw [payloadToBytes, store_of_le h_le]
    rfl
  | heartbeat c =>
    rw [payloadToBytes, Frame.payload]
    refine congrArg (fun m => Except.ok (m, 0)) ?_
    funext i
    exact (storeBytes_of_outside mem (by rw [List.length_nil]; omega)).symm
  | protocolHeader => exact absurd h id

/-- A frame that has room is encoded at the beginning of the buffer. -/
theorem amqp_frame_to_bytes_of_le {f : Frame} (h : f.Encodable) {mem : Bytes} {len : ℕ}
    (h_room : f.wire.length ≤ len) :
    amqp_frame_to_bytes f mem len = .ok (storeBytes mem 0 f.wire, f.wire.length) := by
  rw [f.length_wire] at h_room ⊢
  have h_store : ∀ k n v, k + n ≤ f.payload.length + 8 →
      k + (BigEndian.bytes n v).length ≤ len := by
    intro k n v h_le
    rw [BigEndian.length_bytes]
    omega
  rw [amqp_frame_to_bytes, store_of_le (h_store 0 1 _ (by omega))]
  change (store _ len 1 _ >>= _) = _
  rw [store_of_le (h_store 1 2 _ (by omega))]
  change (payloadToBytes _ len f >>= _) = _
  rw [payloadToBytes_of_le h (by omega)]
  change (store _ len 3 _ >>= _) = _
  rw [store_of_le (h_store 3 4 _ (by omega))]
  change (store _ len (HEADER_SIZE + f.payload.length) _ >>= _) = _
  rw [store_of_le (h_store _ 1 _ (by rw [HEADER_SIZE]; omega))]
  -- the size goes into the gap that the payload left
  have h_mem : ∀ t c n v e : List UInt8, t.length = 1 → c.length = 2 → n.length = 4 →
      storeBytes (storeBytes (storeBytes (storeBytes (storeBytes mem 0 t) 1 c) 7 v) 3 n)
        (7 + v.length) e = storeBytes mem 0 ((t ++ (c ++ n)) ++ (v ++ e)) := by
    intro t c n v e ht hc hn
    have h_front := storeBytes_storeBytes mem 0 t c
    have h_gap := storeBytes_gap (storeBytes mem 0 (t ++ c)) 3 n v
    have h_body := storeBytes_storeBytes mem 0 (t ++ c) (n ++ v)
    have h_end := storeBytes_storeBytes mem 0 ((t ++ c) ++ (n ++ v)) e
    simp only [List.length_append, ht, hc, hn, Nat.zero_add] at h_front h_gap h_body h_end
    rw [h_front, h_gap, h_body]
    have h_index : 7 + v.length = 1 + 2 + (4 + v.length) := by omega
    rw [h_index, h_end]
    simp only [List.append_assoc]
  change Except.ok (_, f.payload.length + 7 + 1) = _
  exact congrArg (fun m => Except.ok (m, _)) (h_mem _ _ _ _ _ (BigEndian.length_bytes _ _)
    (BigEndian.length_bytes _ _) (BigEndian.length_bytes _ _))

/-! ### Frames that are not encoded -/

/-- An encoder that never succeeds on the part of the buffer. -/
theorem encodeInto_error (mem : Bytes) {len offset : ℕ} {w : Encoder Status Unit}
    (h_len : offset + 1 ≤ len) (h : ∀ s t : Sink, s.offset = offset → s.len = len - 1 →
      w s ≠ .ok () t) : ∃ e, encodeInto mem len offset w = .error (.status e) := by
  rw [encodeInto, if_neg (by rw [FOOTER_SIZE]; omega)]
  cases h_run : w ⟨mem, len - FOOTER_SIZE, offset⟩ with
  | ok u t => exact absurd h_run (h _ t rfl rfl)
  | error e t => exact ⟨e, rfl⟩

/-- An encoder that has no room does not succeed. -/
theorem Writes.not_ok {w : Encoder Status Unit} {bs : List UInt8} (h : Writes w bs) {s : Sink}
    (h_ne : bs ≠ []) (h_lt : s.len < s.offset + bs.length) (t : Sink) : w s ≠ .ok () t := by
  obtain ⟨e, u, h_run, -⟩ := h.fails s h_ne h_lt
  rw [h_run]
  exact fun h_ok => by cases h_ok

/-- Properties have at least one word of flags. -/
theorem wireFlags_ne_nil (flags : BitVec 32) : wireFlags flags ≠ [] := by
  intro h
  have h_len := congrArg List.length h
  simp [wireFlags] at h_len

/-- The payload of a method or a header that cannot be encoded gives a status, and that of a body is
written past the end of the buffer. -/
theorem payloadToBytes_error {f : Frame} (mem : Bytes) {len : ℕ} (h_len : 20 ≤ len)
    (h : ¬ (f.Encodable ∧ f.wire.length ≤ len)) :
    (∃ e, payloadToBytes mem len f = .error (.status e) ∧ ∀ c v, f ≠ .body c v) ∨
      ∃ c v, f = .body c v ∧ len < v.length + 8 := by
  rw [f.length_wire] at h
  cases f with
  | method c m =>
    rw [Frame.payload, List.length_append, BigEndian.length_bytes] at h
    have h_id : HEADER_SIZE + (BigEndian.bytes 4 m.id.code.toNat).length ≤ len := by
      rw [BigEndian.length_bytes, HEADER_SIZE]
      omega
    have h_fails : ∀ s t : Sink, s.offset = HEADER_SIZE + 4 → s.len = len - 1 →
        encodeMethod m s ≠ .ok () t := by
      intro s t h_off h_s
      by_cases h_enc : m.Encodable
      · -- the members are one byte short of room, or more
        have h_lt : len < 4 + m.wire.length + 8 := Nat.lt_of_not_le fun h_le => h ⟨h_enc, h_le⟩
        refine Writes.not_ok (writes_members h_enc) (fun h_nil => ?_) ?_ t
        · have h_zero := congrArg List.length h_nil
          change m.wire.length = 0 at h_zero
          omega
        · change s.len < s.offset + m.wire.length
          rw [h_off, h_s, HEADER_SIZE]
          omega
      · exact refuses_members h_enc s t
    obtain ⟨e, h_run⟩ := encodeInto_error
      (storeBytes mem HEADER_SIZE (BigEndian.bytes 4 m.id.code.toNat))
      (by rw [HEADER_SIZE]; omega) h_fails
    refine .inl ⟨e, ?_, fun _ _ h_eq => by cases h_eq⟩
    rw [payloadToBytes, store_of_le h_id]
    change (encodeInto _ len (HEADER_SIZE + 4) (encodeMethod m) >>= _) = _
    rw [h_run]
    rfl
  | header c body_size p =>
    rw [Frame.payload] at h
    simp only [List.length_append, BigEndian.length_bytes] at h
    have h_store : ∀ k n v, k + n ≤ 12 →
        HEADER_SIZE + k + (BigEndian.bytes n v).length ≤ len := by
      intro k n v h_le
      rw [BigEndian.length_bytes, HEADER_SIZE]
      omega
    have h_first : HEADER_SIZE + (BigEndian.bytes 2 p.class_id.code.toNat).length ≤ len :=
      h_store 0 2 _ (by omega)
    have h_fails : ∀ s t : Sink, s.offset = HEADER_SIZE + 12 → s.len = len - 1 →
        encodeProperties p s ≠ .ok () t := by
      intro s t h_off h_s
      by_cases h_enc : p.Encodable
      · have h_lt : len < 2 + (2 + (8 + p.wire.length)) + 8 :=
          Nat.lt_of_not_le fun h_le => h ⟨h_enc, h_le⟩
        refine Writes.not_ok (writes_properties h_enc) (fun h_nil => ?_) ?_ t
        · exact wireFlags_ne_nil _ (List.append_eq_nil_iff.mp h_nil).1
        · rw [h_off, h_s, HEADER_SIZE]
          omega
      · exact refuses_properties h_enc s t
    obtain ⟨e, h_run⟩ := encodeInto_error (storeBytes (storeBytes (storeBytes mem HEADER_SIZE
      (BigEndian.bytes 2 p.class_id.code.toNat)) (HEADER_SIZE + 2) (BigEndian.bytes 2 0))
        (HEADER_SIZE + 4) (BigEndian.bytes 8 body_size.toNat)) (by rw [HEADER_SIZE]; omega) h_fails
    refine .inl ⟨e, ?_, fun _ _ h_eq => by cases h_eq⟩
    rw [payloadToBytes, store_of_le h_first]
    change (store _ len (HEADER_SIZE + 2) _ >>= _) = _
    rw [store_of_le (h_store 2 2 _ (by omega))]
    change (store _ len (HEADER_SIZE + 4) _ >>= _) = _
    rw [store_of_le (h_store 4 8 _ (by omega))]
    change (encodeInto _ len (HEADER_SIZE + 12) (encodeProperties p) >>= _) = _
    rw [h_run]
    rfl
  | body c v =>
    refine .inr ⟨c, v, rfl, Nat.lt_of_not_le fun h_le => h ⟨trivial, h_le⟩⟩
  | heartbeat c =>
    refine absurd ⟨trivial, ?_⟩ h
    change 0 + 8 ≤ len
    omega
  | protocolHeader => exact .inl ⟨_, rfl, fun _ _ h_eq => by cases h_eq⟩

/-- The frames that are written past the end of the buffer are the bodies that do not fit into it.
Every other frame that does not fit, or that has a string that is too long, gives a status. -/
theorem amqp_frame_to_bytes_spec {len : ℕ} (h_len : 20 ≤ len) (f : Frame) (mem : Bytes) :
    (f.Encodable ∧ f.wire.length ≤ len ∧
      amqp_frame_to_bytes f mem len = .ok (storeBytes mem 0 f.wire, f.wire.length)) ∨
    (¬ (f.Encodable ∧ f.wire.length ≤ len) ∧ (∀ c v, f ≠ .body c v) ∧
      ∃ e, amqp_frame_to_bytes f mem len = .error (.status e)) ∨
    ∃ c v, f = .body c v ∧ len < v.length + 8 ∧
      amqp_frame_to_bytes f mem len = .error (.fault .outOfBounds) := by
  by_cases h : f.Encodable ∧ f.wire.length ≤ len
  · exact .inl ⟨h.1, h.2, amqp_frame_to_bytes_of_le h.1 h.2⟩
  -- the type and the channel always have room
  have h_front : ∃ mem', amqp_frame_to_bytes f mem len = (do
      let (mem, out_frame_len) ← payloadToBytes mem' len f
      let mem ← store mem len 3 (BigEndian.bytes 4 (BitVec.ofNat 32 out_frame_len).toNat)
      let mem ← store mem len (HEADER_SIZE + out_frame_len)
        (BigEndian.bytes 1 AMQP_FRAME_END.toNat)
      return (mem, out_frame_len + HEADER_SIZE + FOOTER_SIZE)) := by
    refine ⟨storeBytes (storeBytes mem 0 (BigEndian.bytes 1 f.frame_type.toNat)) 1
      (BigEndian.bytes 2 f.channel.toNat), ?_⟩
    rw [amqp_frame_to_bytes, store_of_le (by rw [BigEndian.length_bytes]; omega)]
    change (store _ len 1 _ >>= _) = _
    rw [store_of_le (by rw [BigEndian.length_bytes]; omega)]
    rfl
  obtain ⟨mem', h_run⟩ := h_front
  refine .inr ?_
  rw [h_run]
  -- a status, or a fragment that goes past the end
  rcases payloadToBytes_error mem' h_len h with ⟨e, h_payload, h_body⟩ | ⟨c, v, rfl, h_lt⟩
  · refine .inl ⟨h, h_body, e, ?_⟩
    rw [h_payload]
    rfl
  · refine .inr ⟨c, v, rfl, h_lt, ?_⟩
    by_cases h_payload : HEADER_SIZE + v.length ≤ len
    · -- the fragment fits, but the end byte does not
      have h_footer : len < HEADER_SIZE + v.length +
          (BigEndian.bytes 1 AMQP_FRAME_END.toNat).length := by
        rw [BigEndian.length_bytes, HEADER_SIZE]
        omega
      rw [payloadToBytes, store_of_le h_payload]
      change (store _ len 3 _ >>= _) = _
      rw [store_of_le (by rw [BigEndian.length_bytes]; omega)]
      change (store _ len (HEADER_SIZE + v.length) _ >>= _) = _
      rw [store_of_lt h_footer]
      rfl
    · rw [payloadToBytes, store_of_lt (Nat.lt_of_not_le h_payload)]
      rfl

/-- An encoder that has written into the buffer has written everything. -/
theorem encodeInto_ok {mem mem' : Bytes} {len offset n : ℕ} {w : Encoder Status Unit}
    {bs : List UInt8} (h : Writes w bs) (h_run : encodeInto mem len offset w = .ok (mem', n)) :
    bs = [] ∨ offset + bs.length + 1 ≤ len := by
  rw [encodeInto] at h_run
  split at h_run
  · cases h_run
  case isFalse h_offset =>
    by_cases h_nil : bs = []
    · exact .inl h_nil
    · refine .inr (Nat.le_of_not_lt fun h_lt => ?_)
      have h_not := Writes.not_ok h (s := ⟨mem, len - FOOTER_SIZE, offset⟩) h_nil (by
        change len - 1 < offset + bs.length
        rw [FOOTER_SIZE] at h_offset
        omega)
      split at h_run
      · cases h_run
      case h_2 u t h_ok => exact h_not t h_ok

/-- A method that is encoded is encoded whole, whatever the length of the buffer is. -/
theorem encoded_method {channel : BitVec 16} {m : Method} {mem mem' : Bytes} {len n : ℕ}
    (h : amqp_frame_to_bytes (.method channel m) mem len = .ok (mem', n)) :
    loadBytes mem' 0 n = (Frame.method channel m).wire := by
  have h_fits : m.Encodable ∧ (Frame.method channel m).wire.length ≤ len := by
    obtain ⟨mem₁, -, h₁⟩ := bind_eq_ok.mp h
    obtain ⟨mem₂, -, h₂⟩ := bind_eq_ok.mp h₁
    obtain ⟨⟨mem₃, k⟩, h_payload, h₃⟩ := bind_eq_ok.mp h₂
    obtain ⟨mem₄, -, h₄⟩ := bind_eq_ok.mp h₃
    obtain ⟨mem₅, h_end, -⟩ := bind_eq_ok.mp h₄
    obtain ⟨mem₆, -, h_into⟩ := bind_eq_ok.mp h_payload
    obtain ⟨⟨mem₇, res⟩, h_run, h_k⟩ := bind_eq_ok.mp h_into
    have h_enc : m.Encodable := by
      by_contra h_not
      have h_refuses : Refuses (encodeMethod m) := refuses_members h_not
      rw [encodeInto] at h_run
      split at h_run
      · cases h_run
      split at h_run
      · cases h_run
      case h_2 u t h_ok => exact h_refuses _ t h_ok
    have h_writes : Writes (encodeMethod m) m.wire := writes_members h_enc
    rw [Frame.length_wire, Frame.payload, List.length_append, BigEndian.length_bytes]
    refine ⟨h_enc, ?_⟩
    rcases encodeInto_ok h_writes h_run with h_nil | h_le
    · -- without members it is the end byte that needs the room
      rw [store] at h_end
      split at h_end
      case isTrue h_le =>
        cases h_k
        rw [BigEndian.length_bytes, HEADER_SIZE] at h_le
        change m.wire = [] at h_nil
        rw [h_nil, List.length_nil]
        omega
      case isFalse => cases h_end
    · rw [HEADER_SIZE] at h_le
      change 7 + 4 + m.wire.length + 1 ≤ len at h_le
      omega
  have h_run : amqp_frame_to_bytes (.method channel m) mem len =
      .ok (storeBytes mem 0 (Frame.method channel m).wire, (Frame.method channel m).wire.length) :=
    amqp_frame_to_bytes_of_le (f := .method channel m) h_fits.1 h_fits.2
  rw [h] at h_run
  cases h_run
  rw [loadBytes_storeBytes_same mem 0 (Nat.le_refl _), Nat.sub_self]
  exact List.append_nil _

end Amqp
end WateRMQ
