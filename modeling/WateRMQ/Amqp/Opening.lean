import WateRMQ.Amqp.Transmission

/-!
# A new connection

What `amqp_handle_input` makes of the first bytes after `amqp_new_connection`. They may be a
protocol header, which is eight bytes long, so that eight bytes are collected before anything is
looked at. When they are the beginning of a frame, only the first seven of them are copied into the
block of the frame. The eighth one, which is the first byte of the payload, is lost: the frame gets
the byte that was in the memory.

`agrees_new` says what becomes of the stream then. The memory of a new pool is zeroed, and the
payload of a method begins with a zero: `feed_new_sends` says that a party whose first frame is a
method is understood.
-/

namespace WateRMQ
namespace Amqp

open Codec CMem Stream

/-! ### What the first bytes stand for -/

/-- `"AMQP"`. -/
def magic : List UInt8 := [0x41, 0x4D, 0x51, 0x50]

/-- The frame that stands for a protocol header. -/
def protocolHeaderOf (xs : List UInt8) : Frame :=
  let version := (xs.drop 4).take 4
  let d8 := fun i => BitVec.ofNat 8 (BigEndian.value ((version.drop i).take 1))
  .protocolHeader (d8 0) (d8 1) (d8 2) (d8 3)

/-- What a new connection makes of a stream of at least eight bytes when `b` is in the memory. -/
def openingRun (frame_max : ℤ) (b : UInt8) (xs : List UInt8) :
    List Frame × Except Ending (List UInt8) :=
  if xs.take 4 = magic then
    let r := (frameDecoder frame_max).run (xs.drop 8)
    (protocolHeaderOf xs :: r.1, r.2)
  else (frameDecoder frame_max).run (xs.set 7 b)

/-- The byte in the memory of the first block: the pool of the channel is allocated before it. -/
def Pools.eighth (pools : Pools) : UInt8 :=
  match pools.supply 1 with
  | none => 0
  | some bytes => bytes 7

/-- More of the stream changes nothing of what has come out. -/
theorem openingRun_append {frame_max : ℤ} {b : UInt8} (xs ys : List UInt8) (h : 8 ≤ xs.length) :
    Extends (frameDecoder frame_max) ys (openingRun frame_max b xs)
      (openingRun frame_max b (xs ++ ys)) := by
  have h_take : (xs ++ ys).take 4 = xs.take 4 := List.take_append_of_le_length (by omega)
  rw [openingRun, openingRun, h_take]
  split
  · obtain ⟨h_error, h_ok⟩ := (frameDecoder frame_max).run_append (xs.drop 8) ys
    have h_version : ((xs ++ ys).drop 4).take 4 = (xs.drop 4).take 4 := by
      rw [List.drop_append_of_le_length (by omega),
        List.take_append_of_le_length (by rw [List.length_drop]; omega)]
    have h_header : protocolHeaderOf (xs ++ ys) = protocolHeaderOf xs := by
      rw [protocolHeaderOf, protocolHeaderOf, h_version]
    dsimp only
    rw [h_header, List.drop_append_of_le_length h]
    refine ⟨fun e h_e => ?_, fun r h_r => ?_⟩
    · rw [h_error e h_e]
    · obtain ⟨h_more, h_run⟩ := h_ok r h_r
      refine ⟨h_more, ?_⟩
      rw [h_run]
      rfl
  · rw [List.set_append_left _ _ (by omega)]
    exact (frameDecoder frame_max).run_append (xs.set 7 b) ys

/-! ### Collecting the first bytes -/

/-- A new connection to which `pre` has arrived. -/
structure Opening (frame_max : ℤ) (s : Inbound) (pre : List UInt8) : Prop where
  state_eq : s.state = .initial
  filled : Filled s pre
  target_eq : s.target_size = 8
  frame_max_eq : s.frame_max = frame_max
  length_header : s.header_buffer.length = HEADER_SIZE + 1
  buffer : s.inbound_buffer = .headerBuffer
  channels_eq : s.channels = []

/-- A new connection has read nothing. -/
theorem opening_new (frame_max : ℤ) : Opening frame_max (Inbound.new frame_max) [] :=
  ⟨rfl, ⟨rfl, rfl, Nat.zero_le _, Nat.le_refl 8, fun h => by cases h⟩, rfl, rfl, rfl, rfl, rfl⟩

/-- Some of the first eight bytes, and what is left of the piece. -/
theorem consume_data_opening {frame_max : ℤ} {s : Inbound} {pre : List UInt8}
    (h : Opening frame_max s pre) (d : List UInt8) :
    ∃ t, consume_data s d = .ok (min (8 - pre.length) d.length, t,
        d.drop (min (8 - pre.length) d.length)) ∧
      Opening frame_max t (pre ++ d.take (min (8 - pre.length) d.length)) := by
  obtain ⟨t, h_consume, h_t, h_same⟩ := consume_data_of_filled h.filled d
  rw [h.target_eq] at h_consume h_t
  exact ⟨t, h_consume, h_same.state.trans h.state_eq, h_t, h_same.target_size.trans h.target_eq,
    h_same.frame_max.trans h.frame_max_eq, h_same.length_header.trans h.length_header,
    h_same.buffer.mp h.buffer, h_same.channels.trans h.channels_eq⟩

/-- A call before the eighth byte, or at it. -/
theorem amqp_handle_input_opening (pools : Pools) {frame_max : ℤ} {s t : Inbound}
    {pre d rest : List UInt8} {k : ℕ} (h : Opening frame_max s pre) (h_d : d ≠ [])
    (h_consume : consume_data s d = .ok (k, t, rest))
    (h_t : Opening frame_max t (pre ++ d.take k)) :
    amqp_handle_input pools s d =
      if (pre ++ d.take k).length < 8 then .ok (.ok (k, none), t)
      else handleInitial pools t k rest := by
  have h_idle : ¬ s.state = .idle := by
    rw [h.state_eq]
    exact fun h_eq => by cases h_eq
  rw [amqp_handle_input_eq pools h_d (by rw [Inbound.awake_of_ne h_idle]; exact h_consume),
    h_t.filled.offset, h_t.target_eq, handleState, h_t.state_eq]

/-- The eight bytes lie in the header buffer. -/
theorem Opening.raw_frame_eq {frame_max : ℤ} {s : Inbound} {hdr : List UInt8}
    (h : Opening frame_max s hdr) (h_len : hdr.length = 8) : s.raw_frame = hdr := by
  have h_take := h.filled.take_eq
  have h_raw : s.raw_frame.length = 8 := by
    rw [Inbound.raw_frame, h.buffer]
    exact h.length_header
  rw [List.take_of_length_le (by omega)] at h_take
  exact h_take

/-- Seven of them are the head of a frame. -/
theorem Opening.atHeader {frame_max : ℤ} {s : Inbound} {hdr : List UInt8}
    (h : Opening frame_max s hdr) (h_len : hdr.length = 8) :
    AtHeader frame_max s (hdr.take HEADER_SIZE) := by
  refine ⟨?_, h.frame_max_eq, h.length_header, h.buffer⟩
  have h_raw := h.raw_frame_eq h_len
  rw [Inbound.raw_frame, h.buffer] at h_raw
  exact congrArg (List.take HEADER_SIZE) h_raw

/-- The eighth byte is not part of the size. -/
theorem frameSize_set {hdr : List UInt8} (h_len : hdr.length = 8) (b : UInt8) :
    frameSize (hdr.set 7 b) = frameSize hdr := by
  rw [List.set_eq_take_append_cons_drop, if_pos (by omega),
    frameSize_append _ (by rw [List.length_take]; omega), frameSize_take hdr le_rfl (by omega)]

/-- The eighth byte of the block is that of the memory. -/
theorem continues_of_opening {pools : Pools} (h : pools.Ample) {frame_max : ℤ} {s : Inbound}
    {hdr : List UInt8} (h_opening : Opening frame_max s hdr) (h_len : hdr.length = 8)
    (h_size : frameSize hdr < INT32_MAX) (h_fits : frameSize hdr + 8 ≤ sizeT frame_max)
    (d : List UInt8) (k : ℕ) :
    Continues frame_max (hdr.set 7 pools.eighth) d k (handleHeader pools s k d) := by
  have h_take : frameSize (hdr.take HEADER_SIZE) = frameSize hdr :=
    frameSize_take hdr le_rfl (by omega)
  obtain ⟨cs, n, bytes, h_supply, h_first, h_eq⟩ :=
    handleHeader_of_good h (h_opening.atHeader h_len) (by rwa [h_take]) (by rwa [h_take]) d k
  rw [h_take, HEADER_SIZE] at h_eq
  rw [h_first h_opening.channels_eq] at h_supply
  have h_eighth : pools.eighth = bytes 7 := by rw [Pools.eighth, h_supply]
  have h_set : hdr.set 7 pools.eighth = hdr.take 7 ++ [pools.eighth] := by
    rw [List.set_eq_take_append_cons_drop, if_pos (by omega), List.drop_of_length_le (by omega)]
  have h_block : hdr.take 7 ++ loadBytes bytes 7 (frameSize hdr + 1) =
      hdr.set 7 pools.eighth ++ loadBytes bytes 8 (frameSize hdr) := by
    rw [h_set, Nat.add_comm, loadBytes_add, List.append_assoc, h_eighth]
    rfl
  rw [h_block, ← frameSize_set h_len pools.eighth] at h_eq
  rw [← frameSize_set h_len pools.eighth] at h_size h_fits
  have h_set_len : (hdr.set 7 pools.eighth).length = 8 := by rw [List.length_set, h_len]
  rw [h_eq]
  refine continues_of_body h ?_ rfl d (n + 1) k
  refine pending_of_block rfl rfl rfl ?_ ?_ h_opening.frame_max_eq h_opening.length_header
    (h_set_len.ge.trans' (Nat.le_succ 7)) h_size h_fits
  · rw [List.length_append, length_loadBytes, h_set_len, Nat.add_comm]
  · exact h_opening.filled.offset.trans (h_len.trans h_set_len.symm)

/-- After the call with the eighth byte, the first eight bytes are in the buffer of the header. -/
theorem amqp_handle_input_eighth (pools : Pools) {frame_max : ℤ} {s : Inbound}
    {pre d : List UInt8} (h_opening : Opening frame_max s pre) (h_lt : pre.length < 8)
    (h_le : 8 ≤ (pre ++ d).length) :
    ∃ t hdr, Opening frame_max t hdr ∧ hdr.length = 8 ∧
      pre ++ d = hdr ++ d.drop (8 - pre.length) ∧
      amqp_handle_input pools s d =
        handleInitial pools t (8 - pre.length) (d.drop (8 - pre.length)) := by
  rw [List.length_append] at h_le
  have h_min : min (8 - pre.length) d.length = 8 - pre.length := by omega
  have h_d : d ≠ [] := by
    rintro rfl
    rw [List.length_nil] at h_le
    omega
  obtain ⟨t, h_consume, h_t⟩ := consume_data_opening h_opening d
  rw [h_min] at h_consume h_t
  have h_call := amqp_handle_input_opening pools h_opening h_d h_consume h_t
  have h_len : (pre ++ d.take (8 - pre.length)).length = 8 := by
    rw [List.length_append, List.length_take]
    omega
  rw [h_len, if_neg (Nat.lt_irrefl 8)] at h_call
  refine ⟨t, _, h_t, h_len, ?_, h_call⟩
  rw [List.append_assoc, List.take_append_drop]

/-- The call with the eighth byte decides what the stream begins with. -/
theorem follows_opening {pools : Pools} (h : pools.Ample) {frame_max : ℤ} {s : Inbound}
    {pre d : List UInt8} (h_opening : Opening frame_max s pre) (h_lt : pre.length < 8)
    (h_le : 8 ≤ (pre ++ d).length) (h_magic : (pre ++ d).take 4 ≠ magic) :
    Follows (frameDecoder frame_max) (receive pools) (Pending frame_max) s pre.length d
      ((pre ++ d).set 7 pools.eighth) := by
  obtain ⟨t, hdr, h_t, h_len, h_eq, h_call⟩ := amqp_handle_input_eighth pools h_opening h_lt h_le
  rw [List.length_append] at h_le
  have h_take : hdr.take 4 ≠ magic := by
    rw [h_eq, List.take_append_of_le_length (by omega)] at h_magic
    exact h_magic
  rw [handleInitial, h_t.raw_frame_eq h_len, load, if_pos (by omega)] at h_call
  have h_header : amqp_handle_input pools s d =
      handleHeader pools t (8 - pre.length) (d.drop (8 - pre.length)) := by
    rw [h_call]
    exact if_neg h_take
  -- in the stream, the eighth byte lies in the piece that arrives now
  have h_set : (pre ++ d).set 7 pools.eighth = pre ++ d.set (7 - pre.length) pools.eighth :=
    List.set_append_right _ _ (by omega)
  have h_set' : (pre ++ d).set 7 pools.eighth =
      hdr.set 7 pools.eighth ++ d.drop (8 - pre.length) := by
    rw [h_eq, List.set_append_left _ _ (by omega)]
  have h_frame := frameSize_set h_len pools.eighth
  have h_set_len : (hdr.set 7 pools.eighth).length = 8 := by rw [List.length_set, h_len]
  have h_drop : ∀ {n}, (frameDecoder frame_max).scan ((pre ++ d).set 7 pools.eighth) = .token n →
      8 ≤ n := by
    intro n h_scan
    obtain ⟨-, h_n, -⟩ := scanFrame_token_iff.mp h_scan
    omega
  refine ⟨?_, fun {n} h_scan => ?_, fun {n} h_scan => ?_⟩
  · by_cases h_bad : frameSize (hdr.set 7 pools.eighth) ≥ INT32_MAX ∨
      sizeT frame_max < frameSize (hdr.set 7 pools.eighth) + 8
    · have h_size : frameSize ((pre ++ d).set 7 pools.eighth) =
          frameSize (hdr.set 7 pools.eighth) := by
        rw [h_set']
        exact frameSize_append _ (by omega) _
      have h_scan : scanFrame frame_max ((pre ++ d).set 7 pools.eighth) = .bad := by
        refine scanFrame_of_bad _ _ ?_ (h_size ▸ h_bad)
        rw [List.length_set, List.length_append, HEADER_SIZE]
        omega
      rw [h_frame, ← frameSize_take hdr (Nat.le_refl HEADER_SIZE) (by omega)] at h_bad
      obtain ⟨target, h_run, -⟩ := handleHeader_of_bad pools (h_t.atHeader h_len) h_bad
        (d.drop (8 - pre.length)) (8 - pre.length)
      have h_scan' : (frameDecoder frame_max).scan ((pre ++ d).set 7 pools.eighth) = .bad := h_scan
      refine ⟨?_, fun _ => ?_, ?_, ?_⟩
      · rw [h_scan']
        exact fun h_more => by cases h_more
      · rw [receive, h_header, h_run]
        rfl
      · intro n e h_token
        rw [h_scan'] at h_token
        cases h_token
      · intro n b h_token
        rw [h_scan'] at h_token
        cases h_token
    · have h_continues := continues_of_opening h h_t h_len (by omega) (by omega)
        (d.drop (8 - pre.length)) (8 - pre.length)
      rw [← h_header] at h_continues
      have h_decides := h_continues.decides (by rw [h_set_len]; exact Nat.le_succ 7)
        h_bad (by omega)
        (h_set.symm.trans h_set') (by omega)
      rw [h_set]
      exact h_decides.answers (List.length_set ..)
  · have h_n := h_drop h_scan
    omega
  · have h_n := h_drop h_scan
    rw [List.drop_set_of_lt (by omega), List.drop_append, List.drop_eq_nil_of_le (by omega),
      List.nil_append]

/-- With a protocol header, the connection is between two frames. -/
theorem receive_of_magic (pools : Pools) {frame_max : ℤ} {s : Inbound} {pre d : List UInt8}
    (h_opening : Opening frame_max s pre) (h_lt : pre.length < 8) (h_le : 8 ≤ (pre ++ d).length)
    (h_magic : (pre ++ d).take 4 = magic) :
    ∃ t, receive pools s d = .ok (8 - pre.length, some (protocolHeaderOf (pre ++ d)), t) ∧
      Pending frame_max t [] := by
  obtain ⟨t, hdr, h_t, h_len, h_eq, h_call⟩ := amqp_handle_input_eighth pools h_opening h_lt h_le
  rw [handleInitial, h_t.raw_frame_eq h_len, load, if_pos (by omega), load,
    if_pos (by omega)] at h_call
  have h_take : hdr.take 4 = magic := by
    rw [h_eq, List.take_append_of_le_length (by omega)] at h_magic
    exact h_magic
  have h_header : protocolHeaderOf (pre ++ d) = protocolHeaderOf hdr := by
    rw [h_eq, protocolHeaderOf, protocolHeaderOf, List.drop_append_of_le_length (by omega),
      List.take_append_of_le_length (by rw [List.length_drop]; omega)]
  refine ⟨t.return_to_idle, ?_,
    pending_return_to_idle h_t.frame_max_eq h_t.length_header t.channels⟩
  have h_run : amqp_handle_input pools s d =
      .ok (.ok (8 - pre.length, some (protocolHeaderOf hdr)), t.return_to_idle) := by
    rw [h_call]
    exact if_pos h_take
  rw [receive, h_run, h_header]

/-- What a new connection makes of a stream, in whatever pieces it arrives. -/
theorem agrees_new {pools : Pools} (h : pools.Ample) (frame_max : ℤ)
    {pieces : List (List UInt8)} (h_le : 8 ≤ pieces.flatten.length) :
    Agrees (Pending frame_max) (openingRun frame_max pools.eighth pieces.flatten)
      (feed (receive pools) (Inbound.new frame_max) pieces) := by
  have h_implements := implements_receive h frame_max
  refine feed_of_opening h_implements (Opening frame_max) openingRun_append
    ?_ ?_ (opening_new frame_max) (Nat.zero_lt_succ _) h_le
  · -- there are not yet eight bytes
    intro s pre d h_opening h_d h_short
    obtain ⟨t, h_consume, h_t⟩ := consume_data_opening h_opening d
    have h_min : min (8 - pre.length) d.length = d.length := by
      rw [List.length_append] at h_short
      omega
    rw [h_min] at h_consume h_t
    have h_call := amqp_handle_input_opening pools h_opening h_d h_consume h_t
    rw [List.take_length] at h_call h_t
    rw [if_pos h_short] at h_call
    refine ⟨t, ?_, h_t⟩
    rw [receive, h_call]
  · intro s pre d h_opening h_lt h_long
    have h_d : d ≠ [] := by
      rintro rfl
      rw [List.append_nil] at h_long
      omega
    obtain ⟨m, h_m⟩ : ∃ m, d.length = m + 1 :=
      Nat.exists_eq_succ_of_ne_zero fun h_zero => h_d (List.length_eq_zero_iff.mp h_zero)
    rw [h_m, openingRun]
    by_cases h_magic : (pre ++ d).take 4 = magic
    · -- the rest of the piece is a stream of frames
      obtain ⟨t, h_call, h_t⟩ := receive_of_magic pools h_opening h_lt h_long h_magic
      have h_rest : (d.drop (8 - pre.length)).length ≤ m := by
        rw [List.length_drop]
        omega
      have h_drop : (pre ++ d).drop 8 = d.drop (8 - pre.length) := by
        rw [List.drop_append, List.drop_eq_nil_of_le (by omega), List.nil_append]
      rw [if_pos h_magic, h_drop, drain,
        if_neg fun h_zero => h_d (List.length_eq_zero_iff.mp h_zero), h_call]
      exact (drain_eq h_implements h_t (frameDecoder frame_max).scan_nil h_rest).append
        [protocolHeaderOf (pre ++ d)]
    · rw [if_neg h_magic]
      exact drain_of_follows (follows_opening h h_opening h_lt h_long h_magic) h_d
        (Nat.le_of_eq h_m)
        (fun t ys h_t h_ys => drain_eq h_implements h_t (frameDecoder frame_max).scan_nil h_ys)
        fun t ys h_t h_ys => agrees_drain_nil h_t h_ys m

/-! ### A party whose first frame is a method -/

/-- The number of a method begins with a zero. -/
theorem bytes_code (id : MethodNumber) :
    BigEndian.bytes 4 id.code.toNat = 0 :: BigEndian.bytes 3 id.code.toNat := by
  have h_lt : id.code.toNat < 256 ^ 3 := by
    cases id <;> decide
  rw [BigEndian.bytes, Nat.div_eq_of_lt h_lt]
  rfl

/-- The eighth byte of a method is zero already. -/
theorem set_wire_method (c : BitVec 16) (m : Method) (xs : List UInt8) :
    ((Frame.method c m).wire ++ xs).set 7 0 = (Frame.method c m).wire ++ xs := by
  have h_wire : (Frame.method c m).wire ++ xs = (Frame.method c m).head ++
      (0 :: (BigEndian.bytes 3 m.id.code.toNat ++ (m.wire ++
        (BigEndian.bytes 1 AMQP_FRAME_END.toNat ++ xs)))) := by
    rw [Frame.wire, Frame.payload, bytes_code]
    simp only [List.append_assoc, List.cons_append]
  rw [h_wire, List.set_append_right _ _ (Frame.length_head _).le, Frame.length_head]
  rfl

/-- A method frame does not begin as the protocol header does. -/
theorem take_wire_method (c : BitVec 16) (m : Method) (xs : List UInt8) :
    ((Frame.method c m).wire ++ xs).take 4 ≠ magic := by
  have h_wire : (Frame.method c m).wire ++ xs = 1 :: (BigEndian.bytes 2 c.toNat ++
      (BigEndian.bytes 4 (BitVec.ofNat 32 (Frame.method c m).payload.length).toNat ++
        ((Frame.method c m).payload ++ (BigEndian.bytes 1 AMQP_FRAME_END.toNat ++ xs)))) := by
    have h_type : BigEndian.bytes 1 (Frame.method c m).frame_type.toNat = [1] := by
      rw [Frame.frame_type]
      decide
    rw [Frame.wire, Frame.head, h_type]
    simp only [List.append_assoc, List.cons_append, List.nil_append]
    rfl
  rw [h_wire, magic, List.take_succ_cons]
  intro h
  injection h with h_head
  exact absurd h_head (by decide)

/-- A party that begins with a method is understood by a new connection whose memory is zeroed, in
the pieces in which the socket takes the frames and in the pieces in which they arrive. -/
theorem feed_new_sends {pools : Pools} (h : pools.Ample) (h_zero : pools.eighth = 0) {frame_max : ℤ}
    {len : ℕ} (h_len : 20 ≤ len) (h_lt : len < 2 ^ 31) (h_max : len ≤ sizeT frame_max)
    {calls : List Call} (h_valid : ∀ c ∈ calls, c.frame.Valid) {c : BitVec 16} {m : Method}
    {frames : List Frame} (h_first : (sends len calls).2 = .method c m :: frames)
    {pieces : List (List UInt8)} (h_pieces : pieces.flatten = (sends len calls).1) :
    (feed (receive pools) (Inbound.new frame_max) pieces).1 = (sends len calls).2 ∧
      ∃ t rest, (feed (receive pools) (Inbound.new frame_max) pieces).2 = .ok t ∧
        Pending frame_max t rest := by
  obtain ⟨rest, h_eq, h_run⟩ := run_sends h_len h_lt h_max h_valid
  have h_wire : (sends len calls).1 =
      (Frame.method c m).wire ++ (frames.flatMap Frame.wire ++ rest) := by
    rw [h_eq, h_first, List.flatMap_cons, List.append_assoc]
  have h_le : 8 ≤ pieces.flatten.length := by
    rw [h_pieces, h_wire, List.length_append, Frame.length_wire]
    omega
  obtain ⟨h_out, h_end⟩ := agrees_new h frame_max h_le
  rw [openingRun, h_pieces, h_zero, h_wire, if_neg (take_wire_method _ _ _), set_wire_method,
    ← h_wire, h_run] at h_out h_end
  obtain ⟨t, h_t, h_pending⟩ := h_end
  exact ⟨h_out, t, rest, h_t, h_pending⟩

/-- The first frame of a server. -/
def serverTune : Frame := .method 0 ⟨.connectionTune, 2047#16, 4096#32, 60#16, ()⟩

theorem feed_new_tune :
    (feed (receive .zeroed) (.new 4096) [serverTune.wire]).1 = [serverTune] := by
  have h_fits : ∀ f ∈ [serverTune], f.Encodable ∧ f.wire.length ≤ 4096 := by
    intro f h_f
    rw [List.mem_singleton.mp h_f]
    exact ⟨⟨trivial, trivial, trivial, trivial⟩, by decide⟩
  have h_valid : ∀ c ∈ [serverTune].map Call.whole, c.frame.Valid := by
    intro c h_c
    rw [List.mem_singleton.mp h_c]
    exact ⟨trivial, trivial, trivial, trivial⟩
  have h_pieces : [serverTune.wire].flatten = (sends 4096 ([serverTune].map Call.whole)).1 := by
    rw [sends_whole h_fits]
    rfl
  have h_first : (sends 4096 ([serverTune].map Call.whole)).2 = serverTune :: [] := by
    rw [sends_whole h_fits]
  have h_max : 4096 ≤ sizeT 4096 := by decide
  have h_feed := feed_new_sends ample_zeroed rfl (by decide) (by decide) h_max h_valid
    h_first h_pieces
  rw [h_feed.1, h_first]

end Amqp
end WateRMQ
