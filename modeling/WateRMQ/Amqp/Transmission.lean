import WateRMQ.Amqp.Receiving
import WateRMQ.Amqp.Sending

/-!
# From one party to the other

Both ends of a connection: one party sends frames, the socket takes them in pieces, and they arrive
at the other party in other pieces. `feed_sends` says that the frames that come out are those that
went in, as far as they went.
-/

namespace WateRMQ
namespace Amqp

open Codec CMem Stream

/-! ### The decoder of one frame -/

/-- The frames that are read back. -/
def Frame.Valid : Frame → Prop
  | .method _ m => m.Valid
  | .header _ _ p => p.Valid
  | .body _ _ | .heartbeat _ => True
  | .protocolHeader _ _ _ _ => False

/-- A load from the middle of the bytes. -/
theorem load_middle (u v w : List UInt8) (offset : ℕ) {n : ℕ} (h_offset : u.length = offset)
    (h_n : v.length = n) : load (u ++ (v ++ w)) offset n = .ok v := by
  subst h_offset h_n
  rw [load, if_pos (by simp only [List.length_append]; omega), List.drop_left, List.take_left]

/-- A decoder on exactly the bytes that it takes. -/
theorem decodeWith_of_decodes {α : Type} {r : Reader Status α} {bs : List UInt8} {a : α}
    (h : Decodes r bs a) : decodeWith (fun _ => true) bs r = .ok a := by
  obtain ⟨k, h_run⟩ := h ⟨bs, fun _ => true⟩ ⟨0, 0⟩ ⟨[], [], (List.append_nil bs).symm, rfl⟩
  change r ⟨bs, fun _ => true⟩ ⟨0, 0⟩ = _ at h_run
  rw [decodeWith, h_run]
  rfl

/-- What the `switch` over the type makes of a payload. -/
theorem decodePayload_wire {f : Frame} (h : f.Valid) {hd : List UInt8} (h_hd : hd.length = 7)
    (ft : List UInt8) :
    decodePayload (fun _ => true) (f.payload.length + 8) (hd ++ (f.payload ++ ft)) f.frame_type
      f.channel = .ok (.ok (some f)) := by
  cases f with
  | method c m =>
    obtain ⟨id, h_id⟩ : ∃ id, BigEndian.bytes 4 m.id.code.toNat = id := ⟨_, rfl⟩
    have h_len : id.length = 4 := by rw [← h_id, BigEndian.length_bytes]
    have h_number : BitVec.ofNat 32 (BigEndian.value id) = m.id.code := by
      rw [← h_id]
      exact BigEndian.value_bytes_toNat rfl _
    have h_load_id := load_middle hd id (m.wire ++ ft) _ h_hd h_len
    have h_load := load_middle (hd ++ id) m.wire ft (HEADER_SIZE + 4)
      (by rw [List.length_append, h_hd, h_len]; rfl) rfl
    rw [List.append_assoc] at h_load
    have h_size : (id ++ m.wire).length + 8 - HEADER_SIZE - 4 - FOOTER_SIZE = m.wire.length := by
      rw [List.length_append, h_len, HEADER_SIZE, FOOTER_SIZE]
      omega
    rw [Frame.payload, h_id, List.append_assoc]
    change (load (hd ++ (id ++ (m.wire ++ ft))) HEADER_SIZE 4 >>= _) = _
    rw [HEADER_SIZE, h_load_id]
    change (load (hd ++ (id ++ (m.wire ++ ft))) (HEADER_SIZE + 4)
      ((id ++ m.wire).length + 8 - HEADER_SIZE - 4 - FOOTER_SIZE) >>= _) = _
    rw [h_size, h_load]
    change Except.ok ((decodeWith _ m.wire (amqp_decode_method
      (BitVec.ofNat 32 (BigEndian.value id)))).map _) = _
    rw [h_number, decodeWith_of_decodes (decodes_method h)]
    rfl
  | header c body_size p =>
    obtain ⟨cls, h_cls⟩ : ∃ cls, BigEndian.bytes 2 p.class_id.code.toNat = cls := ⟨_, rfl⟩
    obtain ⟨size, h_size⟩ : ∃ size, BigEndian.bytes 8 body_size.toNat = size := ⟨_, rfl⟩
    obtain ⟨weight, h_weight⟩ : ∃ weight, BigEndian.bytes 2 0 = weight := ⟨_, rfl⟩
    have h_cls_len : cls.length = 2 := by rw [← h_cls, BigEndian.length_bytes]
    have h_size_len : size.length = 8 := by rw [← h_size, BigEndian.length_bytes]
    have h_weight_len : weight.length = 2 := by rw [← h_weight, BigEndian.length_bytes]
    have h_class : BitVec.ofNat 16 (BigEndian.value cls) = p.class_id.code := by
      rw [← h_cls]
      exact BigEndian.value_bytes_toNat rfl _
    have h_body_size : BitVec.ofNat 64 (BigEndian.value size) = body_size := by
      rw [← h_size]
      exact BigEndian.value_bytes_toNat rfl _
    have h_load_cls := load_middle hd cls (weight ++ (size ++ (p.wire ++ ft))) _ h_hd h_cls_len
    have h_load_size := load_middle (hd ++ (cls ++ weight)) size (p.wire ++ ft)
      (HEADER_SIZE + 4)
      (by simp only [List.length_append, h_hd, h_cls_len, h_weight_len]; rfl) h_size_len
    have h_load := load_middle (hd ++ (cls ++ (weight ++ size))) p.wire ft
      (HEADER_SIZE + 12)
      (by simp only [List.length_append, h_hd, h_cls_len, h_weight_len, h_size_len]; rfl) rfl
    have h_total : (cls ++ (weight ++ (size ++ p.wire))).length + 8 = p.wire.length + 20 := by
      simp only [List.length_append, h_cls_len, h_weight_len, h_size_len]
      omega
    simp only [List.append_assoc] at h_load_size h_load
    rw [Frame.payload, h_cls, h_size, h_weight, h_total]
    simp only [List.append_assoc]
    change (load _ HEADER_SIZE 2 >>= _) = _
    rw [HEADER_SIZE, h_load_cls]
    change (load _ (HEADER_SIZE + 4) 8 >>= _) = _
    rw [h_load_size]
    change (if p.wire.length + 20 < 20 then .error (.fault .outOfBounds) else _) = _
    rw [if_neg (by omega)]
    change (load _ (HEADER_SIZE + 12) (p.wire.length + 20 - 7 - 12 - 1) >>= _) = _
    rw [(by omega : p.wire.length + 20 - 7 - 12 - 1 = p.wire.length), h_load]
    change Except.ok ((decodeWith _ p.wire (amqp_decode_properties
      (BitVec.ofNat 16 (BigEndian.value cls)))).map _) = _
    rw [h_class, decodeWith_of_decodes (decodes_properties h)]
    change Except.ok (Except.ok (some (Frame.header c
      (BitVec.ofNat 64 (BigEndian.value size)) p))) = _
    rw [h_body_size]
  | body c v =>
    have h_load := load_middle hd v ft HEADER_SIZE h_hd rfl
    change (load (hd ++ (v ++ ft)) HEADER_SIZE (v.length + 8 - 7 - 1) >>= _) = _
    rw [(by omega : v.length + 8 - 7 - 1 = v.length), h_load]
    rfl
  | heartbeat c => rfl
  | protocolHeader => exact absurd h id

/-- A complete frame is decoded as the frame that was encoded. -/
theorem decodeRaw_wire {f : Frame} (h : f.Valid) : decodeRaw f.wire = .ok (.ok (some f)) := by
  obtain ⟨ty, h_ty⟩ : ∃ ty, BigEndian.bytes 1 f.frame_type.toNat = ty := ⟨_, rfl⟩
  obtain ⟨ch, h_ch⟩ : ∃ ch, BigEndian.bytes 2 f.channel.toNat = ch := ⟨_, rfl⟩
  obtain ⟨ft, h_ft⟩ : ∃ ft, BigEndian.bytes 1 AMQP_FRAME_END.toNat = ft := ⟨_, rfl⟩
  obtain ⟨size, h_size⟩ : ∃ size,
    BigEndian.bytes 4 (BitVec.ofNat 32 f.payload.length).toNat = size := ⟨_, rfl⟩
  have h_ty_len : ty.length = 1 := by rw [← h_ty, BigEndian.length_bytes]
  have h_ch_len : ch.length = 2 := by rw [← h_ch, BigEndian.length_bytes]
  have h_ft_len : ft.length = 1 := by rw [← h_ft, BigEndian.length_bytes]
  have h_size_len : size.length = 4 := by rw [← h_size, BigEndian.length_bytes]
  have h_end : BitVec.ofNat 8 (BigEndian.value ft) = AMQP_FRAME_END := by
    rw [← h_ft]
    exact BigEndian.value_bytes_toNat rfl _
  have h_type : BitVec.ofNat 8 (BigEndian.value ty) = f.frame_type := by
    rw [← h_ty]
    exact BigEndian.value_bytes_toNat rfl _
  have h_channel : BitVec.ofNat 16 (BigEndian.value ch) = f.channel := by
    rw [← h_ch]
    exact BigEndian.value_bytes_toNat rfl _
  have h_wire : f.wire = (ty ++ (ch ++ size)) ++ (f.payload ++ ft) := by
    rw [← h_ty, ← h_ch, ← h_ft, ← h_size]
    rfl
  have h_hd : (ty ++ (ch ++ size)).length = 7 := by
    simp only [List.length_append, h_ty_len, h_ch_len, h_size_len]
  have h_payload := decodePayload_wire h h_hd ft
  rw [← h_wire, ← f.length_wire] at h_payload
  -- the last byte, the first one and the two behind it
  have h_load_ft : load f.wire (f.wire.length - 1) 1 = .ok ft := by
    have h_load := load_middle ((ty ++ (ch ++ size)) ++ f.payload) ft []
      (f.wire.length - 1)
      (by rw [f.length_wire, List.length_append, h_hd]; omega) h_ft_len
    rw [List.append_nil, List.append_assoc, ← h_wire] at h_load
    exact h_load
  have h_load_ty : load f.wire 0 1 = .ok ty := by
    have h_load := load_middle [] ty (ch ++ (size ++ (f.payload ++ ft))) _ rfl h_ty_len
    rw [h_wire]
    simp only [List.append_assoc]
    exact h_load
  have h_load_ch : load f.wire 1 2 = .ok ch := by
    have h_load := load_middle ty ch (size ++ (f.payload ++ ft)) _ h_ty_len h_ch_len
    rw [h_wire]
    simp only [List.append_assoc]
    exact h_load
  rw [decodeRaw, h_load_ft]
  change (if BitVec.ofNat 8 (BigEndian.value ft) ≠ AMQP_FRAME_END then _ else _) = _
  rw [if_neg (not_not.mpr h_end), h_load_ty, h_load_ch]
  change decodePayload (fun _ => true) f.wire.length f.wire (BitVec.ofNat 8 (BigEndian.value ty))
    (BitVec.ofNat 16 (BigEndian.value ch)) = _
  rw [h_type, h_channel, h_payload]

/-- The size in a frame is that of its payload. -/
theorem frameSize_wire {f : Frame} (h : f.payload.length < 2 ^ 32) :
    frameSize f.wire = f.payload.length := by
  have h_wire : f.wire = (BigEndian.bytes 1 f.frame_type.toNat ++ BigEndian.bytes 2 f.channel.toNat)
      ++ (BigEndian.bytes 4 (BitVec.ofNat 32 f.payload.length).toNat ++
        (f.payload ++ BigEndian.bytes 1 AMQP_FRAME_END.toNat)) := by
    simp only [Frame.wire, Frame.head, List.append_assoc]
  -- the size stands behind the type and the channel
  have h_front : (BigEndian.bytes 1 f.frame_type.toNat ++
      BigEndian.bytes 2 f.channel.toNat).length = 3 := by
    rw [List.length_append, BigEndian.length_bytes, BigEndian.length_bytes]
  rw [frameSize, h_wire, ← h_front, List.drop_left, List.take_left' (BigEndian.length_bytes _ _),
    BigEndian.value_bytes_of_lt (BitVec.isLt _), BitVec.toNat_ofNat, Nat.mod_eq_of_lt h]

/-- A frame is cut off at its end. -/
theorem scanFrame_wire {f : Frame} {frame_max : ℤ} (h_lt : f.wire.length < 2 ^ 31)
    (h_max : f.wire.length ≤ sizeT frame_max) :
    scanFrame frame_max f.wire = .token f.wire.length := by
  rw [f.length_wire] at h_lt h_max ⊢
  have h_size := frameSize_wire (f := f) (by omega)
  rw [scanFrame, h_size, f.length_wire, HEADER_SIZE, INT32_MAX, if_neg (by omega),
    if_neg (by omega), if_neg (by omega)]

/-- A frame of which something is missing is not cut off. -/
theorem scanFrame_prefix {f : Frame} {frame_max : ℤ} (h_lt : f.wire.length < 2 ^ 31)
    (h_max : f.wire.length ≤ sizeT frame_max) {bs : List UInt8} (h : bs <+: f.wire)
    (h_ne : bs.length ≠ f.wire.length) : scanFrame frame_max bs = .more := by
  have h_le := h.length_le
  rw [f.length_wire] at h_lt h_max h_ne h_le
  by_cases h_head : bs.length < HEADER_SIZE
  · exact scanFrame_of_lt _ h_head
  · rw [HEADER_SIZE] at h_head
    -- the head is there, so the size is known, and it is not reached
    obtain ⟨rest, h_rest⟩ := h
    have h_size := frameSize_wire (f := f) (by omega)
    rw [← h_rest, frameSize_append _ (by omega)] at h_size
    rw [scanFrame, h_size, HEADER_SIZE, INT32_MAX, if_neg h_head, if_neg (by omega),
      if_pos (by omega)]

/-! ### What a party sends -/

/-- A call of `amqp_send_frame_inner`. -/
structure Call where
  frame : Frame
  outbound_buffer : Bytes
  attempts : List Attempt

/-- What the call puts on the wire, and how it ends. -/
def Call.run (len : ℕ) (c : Call) : Except Fault (List UInt8 × Outcome) :=
  amqp_send_frame_inner c.attempts c.frame c.outbound_buffer len

/-- What a party puts on the wire with calls one after the other, and the frames of which the socket
took everything. A call that waits, or that ends the program, is the last one. After one that fails
the connection is as before: the next frame follows what was sent of the last one. -/
def sendAll (len : ℕ) : List Call → List UInt8 × List Frame
  | [] => ([], [])
  | c :: calls =>
    match c.run len with
    | .error _ => ([], [])
    | .ok (taken, outcome) =>
      let sent := if taken.length = c.frame.wire.length then [c.frame] else []
      if outcome = .waiting then (taken, sent)
      else
        let r := sendAll len calls
        (taken ++ r.1, sent ++ r.2)

/-- The call has failed with a part of its frame on the wire. -/
def Call.Broken (len : ℕ) (c : Call) : Prop :=
  ∃ taken res, c.run len = .ok (taken, .returned res) ∧ taken ≠ [] ∧
    taken.length ≠ c.frame.wire.length

/-- No call follows one that has failed with a part of its frame on the wire. -/
def Unbroken (len : ℕ) : List Call → Prop
  | [] => True
  | c :: calls => (c.Broken len → calls = []) ∧ Unbroken len calls

/-- The call has succeeded, or has failed with nothing of its frame on the wire. -/
def Call.goesOn (len : ℕ) (c : Call) : Bool :=
  match c.run len with
  | .error _ => false
  | .ok (taken, outcome) => outcome = .returned none ∨ outcome ≠ .waiting ∧ taken = []

/-- The calls of a party that stops at the first one that has not succeeded, unless nothing was sent
in it. -/
def untilFailed (len : ℕ) : List Call → List Call
  | [] => []
  | c :: calls => if c.goesOn len then c :: untilFailed len calls else [c]

/-- What a party puts on the wire that stops so, and the frames of which the socket took
everything. -/
def sends (len : ℕ) (calls : List Call) : List UInt8 × List Frame :=
  sendAll len (untilFailed len calls)

/-- What a call that goes on puts on the wire is a whole frame, or nothing. -/
theorem Call.not_broken {len : ℕ} (h_len : 20 ≤ len) {c : Call} (h : c.goesOn len) :
    ¬ c.Broken len := by
  rintro ⟨taken, res, h_run, h_taken, h_part⟩
  rw [Call.goesOn, h_run] at h
  have h_next := of_decide_eq_true h
  rcases amqp_send_frame_inner_spec h_len c.attempts c.frame c.outbound_buffer with
    ⟨taken', outcome, h_run', -, -, h_ok⟩ | ⟨ch, v, -, -, h_run'⟩
  · obtain ⟨rfl, rfl⟩ := Prod.mk.inj (Except.ok.inj (h_run.symm.trans h_run'))
    -- it has succeeded, or sent nothing
    rcases h_next with h_none | ⟨-, h_nil⟩
    · exact h_part (congrArg List.length (h_ok h_none))
    · exact h_taken h_nil
  · cases h_run.symm.trans h_run'

/-- No call follows one that has failed. -/
theorem unbroken_untilFailed {len : ℕ} (h_len : 20 ≤ len) (calls : List Call) :
    Unbroken len (untilFailed len calls) := by
  induction calls with
  | nil => trivial
  | cons c calls ih =>
    rw [untilFailed]
    split
    case isTrue h_next => exact ⟨fun h => absurd h (Call.not_broken h_len h_next), ih⟩
    case isFalse => exact ⟨fun _ => rfl, trivial⟩

/-- The calls are among those that were asked for. -/
theorem untilFailed_subset (len : ℕ) (calls : List Call) :
    ∀ c ∈ untilFailed len calls, c ∈ calls := by
  induction calls with
  | nil => exact fun c h => h
  | cons c calls ih =>
    rw [untilFailed]
    split
    · exact List.forall_mem_cons.mpr ⟨List.mem_cons_self,
        fun d h_d => List.mem_cons_of_mem c (ih d h_d)⟩
    · exact List.forall_mem_singleton.mpr List.mem_cons_self

/-- What is on the wire at the end of some frames: the beginning of another frame. -/
def Unfinished (len : ℕ) (calls : List Call) (rest : List UInt8) : Prop :=
  rest = [] ∨ ∃ c ∈ calls, c.frame.wire.length ≤ len ∧ rest <+: c.frame.wire ∧
    rest.length ≠ c.frame.wire.length

/-- A call more in front. -/
theorem Unfinished.cons {len : ℕ} {calls : List Call} {rest : List UInt8}
    (h : Unfinished len calls rest) (c : Call) : Unfinished len (c :: calls) rest := by
  rcases h with h_nil | ⟨d, h_d, h⟩
  · exact .inl h_nil
  · exact .inr ⟨d, List.mem_cons_of_mem c h_d, h⟩

/-- What is on the wire behind a frame that is not complete, or complete. -/
theorem unfinished_of_call {len : ℕ} {c : Call} {taken : List UInt8}
    (h_fits : taken = [] ∨ c.frame.Encodable ∧ c.frame.wire.length ≤ len)
    (h_begins : taken <+: c.frame.wire) : ∃ rest,
      taken = (if taken.length = c.frame.wire.length then [c.frame] else []).flatMap Frame.wire ++
        rest ∧ Unfinished len [c] rest ∧
      (taken.length = c.frame.wire.length ∨ taken = [] → rest = []) ∧
      ∀ f ∈ (if taken.length = c.frame.wire.length then [c.frame] else []),
        f.wire.length ≤ len ∧ f = c.frame := by
  by_cases h_all : taken.length = c.frame.wire.length
  · -- the whole frame is on the wire
    have h_taken : taken = c.frame.wire := h_begins.eq_of_length h_all
    rw [if_pos h_all]
    refine ⟨[], ?_, .inl rfl, fun _ => rfl, fun f h_f => ?_⟩
    · rw [List.flatMap_cons, List.flatMap_nil, List.append_nil, List.append_nil, h_taken]
    · rw [List.mem_singleton.mp h_f]
      exact ⟨(fits_of_taken h_fits h_all).2, rfl⟩
  · rw [if_neg h_all]
    refine ⟨taken, rfl, ?_, fun h => h.resolve_left h_all, fun f h_f => by cases h_f⟩
    rcases h_fits with h_nil | h_fits
    · exact .inl h_nil
    · exact .inr ⟨c, List.mem_cons_self, h_fits.2, h_begins, h_all⟩

/-- There are complete frames on the wire, and then perhaps an unfinished one. -/
theorem sendAll_eq {len : ℕ} (h_len : 20 ≤ len) {calls : List Call} (h : Unbroken len calls) :
    ∃ rest, (sendAll len calls).1 = (sendAll len calls).2.flatMap Frame.wire ++ rest ∧
      Unfinished len calls rest ∧
      ∀ f ∈ (sendAll len calls).2, f.wire.length ≤ len ∧ ∃ c ∈ calls, f = c.frame := by
  induction calls with
  | nil => exact ⟨[], rfl, .inl rfl, fun f h_f => by cases h_f⟩
  | cons c calls ih =>
    obtain ⟨h_last, h_calls⟩ := h
    obtain ⟨rest, h_eq, h_rest, h_mem⟩ := ih h_calls
    rw [sendAll]
    rcases amqp_send_frame_inner_spec h_len c.attempts c.frame c.outbound_buffer with
      ⟨taken, outcome, h_run, h_fits, h_begins, -⟩ | ⟨ch, v, -, -, h_run⟩
    · have h_call : c.run len = .ok (taken, outcome) := h_run
      obtain ⟨left, h_taken, h_left, h_whole, h_sent⟩ := unfinished_of_call h_fits h_begins
      rw [h_call]
      dsimp only
      have h_first : ∀ f ∈ (if taken.length = c.frame.wire.length then [c.frame] else []),
          f.wire.length ≤ len ∧ ∃ d ∈ c :: calls, f = d.frame := fun f h_f =>
        ⟨(h_sent f h_f).1, c, List.mem_cons_self, (h_sent f h_f).2⟩
      -- what is left of this call may be the end of all
      have h_unfinished : Unfinished len (c :: calls) left := by
        rcases h_left with h_nil | ⟨d, h_d, h_part⟩
        · exact .inl h_nil
        · rw [List.mem_singleton.mp h_d] at h_part
          exact .inr ⟨c, List.mem_cons_self, h_part⟩
      split
      case isTrue => exact ⟨left, h_taken, h_unfinished, h_first⟩
      case isFalse h_outcome =>
        by_cases h_part : taken.length = c.frame.wire.length ∨ taken = []
        · -- all of the frame or nothing of it is on the wire, and the next one follows
          rw [h_whole h_part, List.append_nil] at h_taken
          refine ⟨rest, ?_, h_rest.cons c, fun f h_f => ?_⟩
          · rw [List.flatMap_append, List.append_assoc, ← h_eq, ← h_taken]
          · rcases List.mem_append.mp h_f with h_f | h_f
            · exact h_first f h_f
            · obtain ⟨h_f_le, d, h_d, h_fd⟩ := h_mem f h_f
              exact ⟨h_f_le, d, List.mem_cons_of_mem c h_d, h_fd⟩
        · -- a part of it is, and then no call follows
          obtain ⟨h_ne, h_nil⟩ := not_or.mp h_part
          obtain ⟨res, rfl⟩ : ∃ res, outcome = .returned res := by
            cases outcome with
            | waiting => exact absurd rfl h_outcome
            | returned res => exact ⟨res, rfl⟩
          obtain rfl := h_last ⟨taken, res, h_call, h_nil, h_ne⟩
          rw [sendAll, List.append_nil, List.append_nil]
          exact ⟨left, h_taken, h_unfinished, h_first⟩
    · have h_call : c.run len = .error .outOfBounds := h_run
      rw [h_call]
      exact ⟨[], rfl, .inl rfl, fun f h_f => by cases h_f⟩

/-- When every call succeeds, all frames are sent. -/
theorem sendAll_of_ok {len : ℕ} (h_len : 20 ≤ len) {calls : List Call}
    (h : ∀ c ∈ calls, ∃ taken, c.run len = .ok (taken, .returned none)) :
    (sendAll len calls).2 = calls.map Call.frame := by
  induction calls with
  | nil => rfl
  | cons c calls ih =>
    obtain ⟨taken, h_run⟩ := h c List.mem_cons_self
    rcases amqp_send_frame_inner_spec h_len c.attempts c.frame c.outbound_buffer with
      ⟨taken', outcome, h_run', -, -, h_ok⟩ | ⟨ch, v, -, -, h_run'⟩
    · obtain ⟨rfl, rfl⟩ := Prod.mk.inj (Except.ok.inj (h_run.symm.trans h_run'))
      rw [sendAll, h_run]
      dsimp only
      rw [if_neg nofun, h_ok rfl, if_pos rfl, ih fun d h_d => h d (List.mem_cons_of_mem c h_d)]
      rfl
    · cases h_run.symm.trans h_run'

/-- What the decoder of the stream makes of complete frames and the beginning of another one. -/
theorem run_wire {frames : List Frame} {frame_max : ℤ} {rest : List UInt8}
    (h_valid : ∀ f ∈ frames, f.Valid ∧ f.wire.length < 2 ^ 31 ∧ f.wire.length ≤ sizeT frame_max)
    (h_rest : scanFrame frame_max rest = .more) :
    (frameDecoder frame_max).run (frames.flatMap Frame.wire ++ rest) = (frames, .ok rest) := by
  -- the complete frames come out, and what is behind them is held back
  have h_run : (frameDecoder frame_max).run (frames.flatMap Frame.wire) = (frames, .ok []) := by
    refine Decoder.run_flatMap (fun f h_f => ?_) fun f h_f => ?_
    · exact scanFrame_wire (h_valid f h_f).2.1 (h_valid f h_f).2.2
    · change result (decodeRaw f.wire) = _
      rw [decodeRaw_wire (h_valid f h_f).1]
      rfl
  obtain ⟨-, h_append⟩ := (frameDecoder frame_max).run_append (frames.flatMap Frame.wire) rest
  obtain ⟨-, h_eq⟩ := h_append [] (by rw [h_run])
  have h_more : (frameDecoder frame_max).run rest = ([], .ok rest) := Decoder.run_of_more h_rest
  rw [h_eq, h_run, List.nil_append, h_more, List.append_nil]

/-- What the decoder of the stream makes of what a party puts on the wire. -/
theorem run_sendAll {frame_max : ℤ} {len : ℕ} (h_len : 20 ≤ len) (h_lt : len < 2 ^ 31)
    (h_max : len ≤ sizeT frame_max) {calls : List Call} (h : Unbroken len calls)
    (h_valid : ∀ c ∈ calls, c.frame.Valid) :
    ∃ rest, (sendAll len calls).1 = (sendAll len calls).2.flatMap Frame.wire ++ rest ∧
      (frameDecoder frame_max).run (sendAll len calls).1 = ((sendAll len calls).2, .ok rest) := by
  obtain ⟨rest, h_eq, h_rest, h_mem⟩ := sendAll_eq h_len h
  have h_frames : ∀ f ∈ (sendAll len calls).2,
      f.Valid ∧ f.wire.length < 2 ^ 31 ∧ f.wire.length ≤ sizeT frame_max := by
    intro f h_f
    obtain ⟨h_le, c, h_c, rfl⟩ := h_mem f h_f
    exact ⟨h_valid c h_c, by omega, by omega⟩
  -- the beginning of a frame is no frame yet
  have h_more : scanFrame frame_max rest = .more := by
    rcases h_rest with rfl | ⟨c, -, h_le, h_begins, h_ne⟩
    · rfl
    · exact scanFrame_prefix (by omega) (by omega) h_begins h_ne
  refine ⟨rest, h_eq, ?_⟩
  rw [h_eq]
  exact run_wire h_frames h_more

/-- What the decoder of the stream makes of a party that stops at its first failure. -/
theorem run_sends {frame_max : ℤ} {len : ℕ} (h_len : 20 ≤ len) (h_lt : len < 2 ^ 31)
    (h_max : len ≤ sizeT frame_max) {calls : List Call} (h_valid : ∀ c ∈ calls, c.frame.Valid) :
    ∃ rest, (sends len calls).1 = (sends len calls).2.flatMap Frame.wire ++ rest ∧
      (frameDecoder frame_max).run (sends len calls).1 = ((sends len calls).2, .ok rest) :=
  run_sendAll h_len h_lt h_max (unbroken_untilFailed h_len calls) fun c h_c =>
    h_valid c (untilFailed_subset len calls c h_c)

/-- The frames that one party sends are the frames that the other one receives, in the pieces in
which the socket takes them and in the pieces in which they arrive, as long as no call follows one
that has failed with a part of its frame on the wire. When the last frame is not sent to its end, it
does not come out, and the receiver waits for the rest of it. -/
theorem feed_sends {pools : Pools} (h : pools.Ample) {frame_max : ℤ} {s : Inbound}
    (h_pending : Pending frame_max s []) {len : ℕ} (h_len : 20 ≤ len) (h_lt : len < 2 ^ 31)
    (h_max : len ≤ sizeT frame_max) {calls : List Call} (h_unbroken : Unbroken len calls)
    (h_valid : ∀ c ∈ calls, c.frame.Valid) {pieces : List (List UInt8)}
    (h_pieces : pieces.flatten = (sendAll len calls).1) :
    (feed (receive pools) s pieces).1 = (sendAll len calls).2 ∧
      (∃ t rest, (feed (receive pools) s pieces).2 = .ok t ∧ Pending frame_max t rest) ∧
      ((∀ c ∈ calls, ∃ taken, c.run len = .ok (taken, .returned none)) →
        (feed (receive pools) s pieces).1 = calls.map Call.frame) := by
  obtain ⟨rest, -, h_run⟩ := run_sendAll h_len h_lt h_max h_unbroken h_valid
  obtain ⟨h_out, h_end⟩ := feed_eq (implements_receive h frame_max) h_pending
    (frameDecoder frame_max).scan_nil pieces
  rw [List.nil_append, h_pieces, h_run] at h_out h_end
  obtain ⟨t, h_t, h_t_pending⟩ := h_end
  refine ⟨h_out, ⟨t, rest, h_t, h_t_pending⟩, fun h_all => ?_⟩
  rw [h_out]
  exact sendAll_of_ok h_len h_all

/-- A call in which the socket takes the whole frame at once. -/
def Call.whole (f : Frame) : Call :=
  ⟨f, fun _ => 0, [⟨[.accept f.wire.length], false, none, none⟩]⟩

/-- A socket that takes everything at once. -/
theorem amqp_send_frame_inner_accept {len n : ℕ} {f : Frame} (h : f.Encodable)
    (h_len : f.wire.length ≤ len) (h_n : f.wire.length ≤ n + 1) (mem : Bytes) :
    amqp_send_frame_inner [⟨[.accept n], false, none, none⟩] f mem len =
      .ok (f.wire, .returned none) := by
  have h_load : loadBytes (storeBytes mem 0 f.wire) 0 f.wire.length = f.wire := by
    rw [loadBytes_storeBytes_same mem 0 (Nat.le_refl _), Nat.sub_self]
    exact List.append_nil _
  have h_try : amqp_try_send [.accept n] f.wire = (f.wire, .taken) := by
    rw [amqp_try_send, List.take_of_length_le h_n, List.drop_of_length_le h_n]
    rfl
  rw [amqp_send_frame_inner, amqp_frame_to_bytes_of_le h h_len]
  dsimp only
  rw [h_load, sendLoop, h_try]
  dsimp only
  rw [if_neg (not_not.mpr rfl)]

/-- The call of such a socket. -/
theorem run_whole {len : ℕ} {f : Frame} (h : f.Encodable) (h_len : f.wire.length ≤ len) :
    (Call.whole f).run len = .ok (f.wire, .returned none) :=
  amqp_send_frame_inner_accept h h_len (Nat.le_succ _) _

/-- It does not stop the party. -/
theorem goesOn_whole {len : ℕ} {f : Frame} (h : f.Encodable) (h_len : f.wire.length ≤ len) :
    (Call.whole f).goesOn len = true := by
  rw [Call.goesOn, run_whole h h_len]
  exact decide_eq_true (.inl rfl)

/-- With such a socket all frames are sent. -/
theorem sendAll_whole {len : ℕ} {frames : List Frame}
    (h : ∀ f ∈ frames, f.Encodable ∧ f.wire.length ≤ len) :
    sendAll len (frames.map Call.whole) = (frames.flatMap Frame.wire, frames) := by
  induction frames with
  | nil => rfl
  | cons f frames ih =>
    obtain ⟨h_enc, h_len⟩ := h f List.mem_cons_self
    rw [List.map_cons, sendAll, run_whole h_enc h_len]
    dsimp only
    rw [if_neg nofun, ih fun g h_g => h g (List.mem_cons_of_mem f h_g), List.flatMap_cons]
    change (_, (if f.wire.length = f.wire.length then [f] else []) ++ frames) = _
    rw [if_pos rfl]
    rfl

/-- No call fails. -/
theorem untilFailed_whole {len : ℕ} {frames : List Frame}
    (h : ∀ f ∈ frames, f.Encodable ∧ f.wire.length ≤ len) :
    untilFailed len (frames.map Call.whole) = frames.map Call.whole := by
  induction frames with
  | nil => rfl
  | cons f frames ih =>
    obtain ⟨h_enc, h_len⟩ := h f List.mem_cons_self
    rw [List.map_cons, untilFailed, if_pos (goesOn_whole h_enc h_len),
      ih fun g h_g => h g (List.mem_cons_of_mem f h_g)]

/-- All frames are sent, also for a party that would stop. -/
theorem sends_whole {len : ℕ} {frames : List Frame}
    (h : ∀ f ∈ frames, f.Encodable ∧ f.wire.length ≤ len) :
    sends len (frames.map Call.whole) = (frames.flatMap Frame.wire, frames) := by
  rw [sends, untilFailed_whole h, sendAll_whole h]

/-- No call has failed with a part of its frame sent. -/
theorem unbroken_whole {len : ℕ} (h_len : 20 ≤ len) {frames : List Frame}
    (h : ∀ f ∈ frames, f.Encodable ∧ f.wire.length ≤ len) :
    Unbroken len (frames.map Call.whole) := by
  rw [← untilFailed_whole h]
  exact unbroken_untilFailed h_len _

/-- A heartbeat that the socket takes, and one of which it takes three bytes before the time is
over. -/
def twoHeartbeats : List Call :=
  [.whole (.heartbeat 0),
    ⟨.heartbeat 1, fun _ => 0, [⟨[.accept 2, .poll (some .timeout)], true, none, none⟩]⟩]

/-- A heartbeat, and the beginning of another frame whose call is still waiting. -/
theorem feed_sends_heartbeat :
    (feed (receive .zeroed) (.between 4096) [[8, 0, 0], [0, 0, 0, 0, 206, 8], [0, 1]]).1 =
      [.heartbeat 0] := by
  have h_sends : sendAll 4096 twoHeartbeats = ([8, 0, 0, 0, 0, 0, 0, 206, 8, 0, 1],
    [.heartbeat 0]) := rfl
  have h_unbroken : Unbroken 4096 twoHeartbeats := by
    refine ⟨fun h => ?_, fun _ => rfl, trivial⟩
    have h_next : (Call.whole (.heartbeat 0)).goesOn 4096 = true :=
      goesOn_whole trivial (by decide)
    exact absurd h (Call.not_broken (by decide) h_next)
  have h_valid : ∀ c ∈ twoHeartbeats, c.frame.Valid :=
    List.forall_mem_cons.mpr ⟨trivial, List.forall_mem_singleton.mpr trivial⟩
  have h_pieces : [[8, 0, 0], [0, 0, 0, 0, 206, 8], [0, 1]].flatten =
      (sendAll 4096 twoHeartbeats).1 := by
    rw [h_sends]
    rfl
  have h_feed := feed_sends ample_zeroed (pending_between 4096) (by decide) (by decide) (by decide)
    h_unbroken h_valid h_pieces
  rw [h_sends] at h_feed
  exact h_feed.1

/-- **Behind a part of a frame the next frame is not read as itself.** When a body frame has failed
eight bytes before its end and a heartbeat follows, the receiver gets a body frame that nobody has
sent, with the head of the heartbeat at its end. -/
theorem run_sendAll_cut {frame_max : ℤ} {len : ℕ} {ch c : BitVec 16} {v w : List UInt8}
    (h_w : w.length = 7) (h_lt : v.length + 15 < 2 ^ 31) (h_max : v.length + 15 ≤ sizeT frame_max)
    {first second : Call} {e : Status} (h_body : first.frame = .body ch (v ++ w))
    (h_first : first.run len =
      .ok (first.frame.wire.take (v.length + 7), .returned (some e)))
    (h_heartbeat : second.frame = .heartbeat c)
    (h_second : second.run len = .ok (second.frame.wire, .returned none)) :
    (frameDecoder frame_max).run (sendAll len [first, second]).1 =
      ([.body ch (v ++ (Frame.heartbeat c).head)], .ok []) := by
  have h_length : (Frame.body ch (v ++ (Frame.heartbeat c).head)).wire.length = v.length + 15 := by
    rw [Frame.length_wire, Frame.payload, List.length_append, Frame.length_head]
  -- the size in the head is that of the payload, whatever its last bytes are
  have h_size : ∀ x : List UInt8, x.length = 7 →
      (Frame.body ch (v ++ x)).head = (Frame.body ch (v ++ w)).head := by
    intro x h_x
    simp only [Frame.head, Frame.payload, Frame.frame_type, Frame.channel, List.length_append,
      h_x, h_w]
  have h_head := h_size (Frame.heartbeat c).head (Frame.length_head _)
  have h_take : (Frame.body ch (v ++ w)).wire.take (v.length + 7) =
      (Frame.body ch (v ++ (Frame.heartbeat c).head)).head ++ v := by
    rw [Frame.wire, Frame.payload, h_head, List.append_assoc, ← List.append_assoc]
    refine List.take_left' ?_
    rw [List.length_append, Frame.length_head, Nat.add_comm]
  have h_wire : (sendAll len [first, second]).1 =
      (Frame.body ch (v ++ (Frame.heartbeat c).head)).wire := by
    have h_returned : ∀ res : Option Status, Outcome.returned res ≠ .waiting := by
      intro res h_res
      cases h_res
    rw [sendAll, h_first, sendAll, h_second, sendAll]
    dsimp only
    rw [if_neg (h_returned _), if_neg (h_returned _), List.append_nil, h_body, h_heartbeat, h_take]
    -- the end of the heartbeat is the end of the frame
    change (_ ++ v) ++ ((Frame.heartbeat c).head ++ BigEndian.bytes 1 AMQP_FRAME_END.toNat) =
      (Frame.body ch (v ++ (Frame.heartbeat c).head)).head ++
        ((v ++ (Frame.heartbeat c).head) ++ BigEndian.bytes 1 AMQP_FRAME_END.toNat)
    simp only [List.append_assoc]
  have h_valid : ∀ f ∈ [Frame.body ch (v ++ (Frame.heartbeat c).head)],
      f.Valid ∧ f.wire.length < 2 ^ 31 ∧ f.wire.length ≤ sizeT frame_max := by
    refine List.forall_mem_singleton.mpr ⟨trivial, ?_⟩
    rw [h_length]
    exact ⟨h_lt, h_max⟩
  have h_rest : scanFrame frame_max [] = .more := (frameDecoder frame_max).scan_nil
  have h_run := run_wire h_valid h_rest
  rw [List.flatMap_cons, List.flatMap_nil, List.append_nil, List.append_nil] at h_run
  rw [h_wire, h_run]

end Amqp
end WateRMQ
