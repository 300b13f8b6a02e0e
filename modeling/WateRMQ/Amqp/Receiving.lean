import WateRMQ.Amqp.Input

/-!
# Frames from a stream

What the calls of `amqp_handle_input` make of a stream of bytes. `frameDecoder` cuts the stream into
frames by their headers, with no state at all. `Pending s pre` says that the connection holds the
beginning `pre` of a frame, and `implements_receive` that one call does what the decoder says: so
the frames do not depend on the pieces in which the bytes arrive, and what one party encodes frame
by frame the other one decodes, whatever the pieces are.
-/

namespace WateRMQ
namespace Amqp

open Codec CMem Stream

/-! ### The decoder of the stream -/

/-- The size of the payload in the header of a frame. -/
def frameSize (bs : List UInt8) : ℕ := BigEndian.value ((bs.drop 3).take 4)

/-- What is known of a frame from its first bytes. -/
def scanFrame (frame_max : ℤ) (bs : List UInt8) : Verdict :=
  if bs.length < HEADER_SIZE then .more
  else if frameSize bs ≥ INT32_MAX ∨ sizeT frame_max < frameSize bs + 8 then .bad
  else if bs.length < frameSize bs + 8 then .more
  else .token (frameSize bs + 8)

/-- The size stands in the first seven bytes. -/
theorem frameSize_append (bs : List UInt8) (h : 7 ≤ bs.length) (cs : List UInt8) :
    frameSize (bs ++ cs) = frameSize bs := by
  rw [frameSize, frameSize, List.drop_append_of_le_length (by omega),
    List.take_append_of_le_length (by rw [List.length_drop]; omega)]

/-- The size is in the first seven bytes. -/
theorem frameSize_take (bs : List UInt8) {n : ℕ} (h_n : 7 ≤ n) (h : 7 ≤ bs.length) :
    frameSize (bs.take n) = frameSize bs := by
  have h_append := frameSize_append (bs.take n) (by rw [List.length_take]; omega) (bs.drop n)
  rw [List.take_append_drop] at h_append
  exact h_append.symm

/-- When there is a frame: its size is allowed, and all of it is there. -/
theorem scanFrame_token_iff {frame_max : ℤ} {xs : List UInt8} {n : ℕ} :
    scanFrame frame_max xs = .token n ↔
      ¬ (frameSize xs ≥ INT32_MAX ∨ sizeT frame_max < frameSize xs + 8) ∧
        frameSize xs + 8 = n ∧ n ≤ xs.length := by
  unfold scanFrame
  split
  case isTrue h_head =>
    rw [HEADER_SIZE] at h_head
    refine iff_of_false (fun h => by cases h) ?_
    rintro ⟨-, h_n, h_le⟩
    omega
  split
  case isTrue h_bad =>
    exact iff_of_false (fun h => by cases h) fun h => h.1 h_bad
  case isFalse h_good =>
    split
    case isTrue h_short =>
      refine iff_of_false (fun h => by cases h) ?_
      rintro ⟨-, h_n, h_le⟩
      omega
    case isFalse h_long =>
      refine ⟨fun h => ?_, fun h => congrArg Verdict.token h.2.1⟩
      cases h
      exact ⟨h_good, rfl, Nat.le_of_not_lt h_long⟩

/-- When the size is refused, which is after the head. -/
theorem scanFrame_bad_iff {frame_max : ℤ} {xs : List UInt8} :
    scanFrame frame_max xs = .bad ↔ HEADER_SIZE ≤ xs.length ∧
      (frameSize xs ≥ INT32_MAX ∨ sizeT frame_max < frameSize xs + 8) := by
  unfold scanFrame
  split
  case isTrue h_head =>
    exact iff_of_false (fun h => by cases h) fun h => absurd h.1 (Nat.not_le.mpr h_head)
  case isFalse h_head =>
    split
    case isTrue h_bad => exact iff_of_true rfl ⟨Nat.le_of_not_lt h_head, h_bad⟩
    case isFalse h_good =>
      refine iff_of_false (fun h => ?_) fun h => h_good h.2
      split at h <;> cases h

/-- A frame has a head and an end. -/
theorem scanFrame_token_pos {frame_max : ℤ} {xs : List UInt8} {n : ℕ}
    (h : scanFrame frame_max xs = .token n) : 0 < n := by
  obtain ⟨-, rfl, -⟩ := scanFrame_token_iff.mp h
  exact Nat.succ_pos _

/-- A frame lies in what has arrived. -/
theorem scanFrame_token_le {frame_max : ℤ} {xs : List UInt8} {n : ℕ}
    (h : scanFrame frame_max xs = .token n) : n ≤ xs.length := (scanFrame_token_iff.mp h).2.2

/-- The bytes behind a frame play no part in where it ends. -/
theorem scanFrame_token_take {frame_max : ℤ} {xs : List UInt8} {n : ℕ}
    (h : scanFrame frame_max xs = .token n) : scanFrame frame_max (xs.take n) = .token n := by
  obtain ⟨h_good, h_n, h_le⟩ := scanFrame_token_iff.mp h
  have h_same : frameSize (xs.take n) = frameSize xs :=
    frameSize_take xs (by omega) (by omega)
  rw [scanFrame_token_iff, h_same, List.length_take_of_le h_le]
  exact ⟨h_good, h_n, le_rfl⟩

/-- A frame stays one when more arrives. -/
theorem scanFrame_token_append {frame_max : ℤ} {xs : List UInt8} {n : ℕ} (ys : List UInt8)
    (h : scanFrame frame_max xs = .token n) : scanFrame frame_max (xs ++ ys) = .token n := by
  obtain ⟨h_good, h_n, h_le⟩ := scanFrame_token_iff.mp h
  rw [scanFrame_token_iff, frameSize_append xs (by omega) ys, List.length_append]
  exact ⟨h_good, h_n, h_le.trans (Nat.le_add_right _ _)⟩

/-- A size that is refused stays so. -/
theorem scanFrame_bad_append {frame_max : ℤ} {xs : List UInt8} (ys : List UInt8)
    (h : scanFrame frame_max xs = .bad) : scanFrame frame_max (xs ++ ys) = .bad := by
  obtain ⟨h_le, h_bad⟩ := scanFrame_bad_iff.mp h
  rw [scanFrame_bad_iff, frameSize_append xs h_le ys, List.length_append]
  exact ⟨h_le.trans (Nat.le_add_right _ _), h_bad⟩

/-- The header of a frame says where the frame ends. -/
def frameScanner (frame_max : ℤ) : Scanner UInt8 where
  scan := scanFrame frame_max
  scan_nil := rfl
  token_pos := scanFrame_token_pos
  token_le := scanFrame_token_le
  token_take := scanFrame_token_take
  token_append := scanFrame_token_append
  bad_append := scanFrame_bad_append

/-- A complete frame, with enough memory for the decoders. -/
def decodeRaw (raw : List UInt8) : Except Stop (Except Status (Option Frame)) := do
  let footer ← load raw (raw.length - 1) 1
  if BitVec.ofNat 8 (BigEndian.value footer) ≠ AMQP_FRAME_END then
    return .error .badAmqpData
  else
    let frame_type ← load raw 0 1
    let channel ← load raw 1 2
    decodePayload (fun _ => true) raw.length raw (BitVec.ofNat 8 (BigEndian.value frame_type))
      (BitVec.ofNat 16 (BigEndian.value channel))

/-- What ends a connection: the program itself ends, or a function returns a status. -/
abbrev Ending := Stop ⊕ Status

/-- A result, or what ended the connection. -/
def result {α : Type} : Except Stop (Except Status α) → Except Ending α
  | .error stop => .error (.inl stop)
  | .ok (.error e) => .error (.inr e)
  | .ok (.ok a) => .ok a

/-- The decoder of the stream. -/
def frameDecoder (frame_max : ℤ) : Decoder UInt8 Frame Ending where
  toScanner := frameScanner frame_max
  decode raw := result (decodeRaw raw)
  corrupt := .inr .badAmqpData

/-- A call of `amqp_handle_input`, up to what ends the connection. -/
def receive (pools : Pools) (s : Inbound) (received_data : List UInt8) :
    Except Ending (ℕ × Option Frame × Inbound) :=
  match amqp_handle_input pools s received_data with
  | .error stop => .error (.inl stop)
  | .ok (.error e, _) => .error (.inr e)
  | .ok (.ok (k, frame), s) => .ok (k, frame, s)

/-- Every allocation of the call succeeds. -/
structure Pools.Ample (pools : Pools) : Prop where
  supply : ∀ n, pools.supply n ≠ none
  memory : pools.memory = fun _ => true

/-! ### What a connection holds -/

/-- The first bytes of the buffer are `pre`, and there is room for the rest. -/
structure Filled (s : Inbound) (pre : List UInt8) : Prop where
  take_eq : s.raw_frame.take pre.length = pre
  offset : s.inbound_offset = pre.length
  le_target : pre.length ≤ s.target_size
  target_le : s.target_size ≤ s.raw_frame.length
  not_null : s.inbound_buffer ≠ .null

/-- What `consume_data` leaves as it is. -/
structure SameFrame (s t : Inbound) : Prop where
  state : t.state = s.state
  frame_max : t.frame_max = s.frame_max
  channels : t.channels = s.channels
  target_size : t.target_size = s.target_size
  length_raw : t.raw_frame.length = s.raw_frame.length
  length_header : t.header_buffer.length = s.header_buffer.length
  buffer : s.inbound_buffer = .headerBuffer ↔ t.inbound_buffer = .headerBuffer

/-- A patch behind `pre` in a block that begins with it. -/
theorem exists_patch {block pre bs : List UInt8} (h : block.take pre.length = pre)
    (h_le : pre.length + bs.length ≤ block.length) :
    ∃ new, patch block pre.length bs = .ok new ∧ new.length = block.length ∧
      new.take (pre ++ bs).length = pre ++ bs := by
  refine ⟨_, if_pos h_le, ?_, ?_⟩
  · rw [List.length_append, List.length_append, List.length_take, List.length_drop]
    omega
  · rw [h, ← List.append_assoc, List.take_left]

/-- `consume_data` puts what fits behind what is there. -/
theorem consume_data_of_filled {s : Inbound} {pre : List UInt8} (h : Filled s pre)
    (d : List UInt8) :
    ∃ t, consume_data s d = .ok (min (s.target_size - pre.length) d.length, t,
        d.drop (min (s.target_size - pre.length) d.length)) ∧
      Filled t (pre ++ d.take (min (s.target_size - pre.length) d.length)) ∧ SameFrame s t := by
  obtain ⟨k, h_k⟩ : ∃ k, min (s.target_size - pre.length) d.length = k := ⟨_, rfl⟩
  have h_data : (d.take k).length = k := by
    rw [List.length_take]
    omega
  have h_le := h.target_le
  have h_target := h.le_target
  have h_room : pre.length + (d.take k).length ≤ s.raw_frame.length := by omega
  have h_len : (pre ++ d.take k).length = pre.length + k := by
    rw [List.length_append, h_data]
  rw [consume_data, h.offset, h_k]
  -- the piece is copied into `header_buffer` or into the block of the frame
  cases h_buffer : s.inbound_buffer with
  | null => exact absurd h_buffer h.not_null
  | headerBuffer =>
    have h_raw : s.raw_frame = s.header_buffer := by rw [Inbound.raw_frame, h_buffer]
    have h_take := h.take_eq
    rw [h_raw] at h_room h_take h_le
    obtain ⟨new, h_patch, h_new, h_new_take⟩ := exists_patch h_take h_room
    dsimp only
    rw [h_patch]
    refine ⟨_, rfl, ⟨h_new_take, h_len.symm, ?_, ?_, ?_⟩, rfl, rfl, rfl, rfl, ?_, h_new, ?_⟩
    · rw [h_len]
      change _ ≤ s.target_size
      omega
    · exact h_le.trans h_new.ge
    · exact fun h_null => by cases h_null
    · rw [h_raw]
      exact h_new
    · rw [h_buffer]
  | block bytes =>
    have h_raw : s.raw_frame = bytes := by rw [Inbound.raw_frame, h_buffer]
    have h_take := h.take_eq
    rw [h_raw] at h_room h_take h_le
    obtain ⟨new, h_patch, h_new, h_new_take⟩ := exists_patch h_take h_room
    dsimp only
    rw [h_patch]
    refine ⟨_, rfl, ⟨h_new_take, h_len.symm, ?_, ?_, ?_⟩, rfl, rfl, rfl, rfl, ?_, rfl, ?_⟩
    · rw [h_len]
      change _ ≤ s.target_size
      omega
    · exact h_le.trans h_new.ge
    · exact fun h_null => by cases h_null
    · rw [h_raw]
      exact h_new
    · exact ⟨fun h_eq => (by rw [h_buffer] at h_eq; cases h_eq), fun h_eq => (by cases h_eq)⟩

/-! ### One call -/

/-- With memory there is a pool for the channel. -/
theorem pool_of_ample {pools : Pools} (h : pools.Ample) (s : Inbound) (channel : BitVec 16)
    (n : ℕ) :
    ∃ cs n', amqp_get_or_create_channel_pool pools.supply s channel n =
      .ok ({ s with channels := cs }, n') ∧ (s.channels = [] → n' = n + 1) := by
  rw [amqp_get_or_create_channel_pool]
  split
  case isTrue h_mem => exact ⟨s.channels, n, rfl, fun h_nil => by rw [h_nil] at h_mem; cases h_mem⟩
  · cases h_supply : pools.supply n with
    | none => exact absurd h_supply (h.supply n)
    | some bytes => exact ⟨_, _, rfl, fun _ => rfl⟩

/-- What a call gives when it took `k` bytes and the frame is decoded as `r` says. -/
def Finishes (s : Inbound) (k : ℕ) (r : Except Stop (Except Status (Option Frame)))
    (x : Except Stop (Handled × Inbound)) : Prop :=
  match r with
  | .error stop => x = .error stop
  | .ok (.error e) => ∃ cs, x = .ok (.error e, { s with channels := cs })
  | .ok (.ok frame) => ∃ cs, x = .ok (.ok (k, frame), { s with channels := cs }.return_to_idle)

/-- A load or a check in front of both sides. -/
theorem Finishes.bind {β : Type} {s : Inbound} {k : ℕ} (x : Except Stop β)
    {f : β → Except Stop (Except Status (Option Frame))} {g : β → Except Stop (Handled × Inbound)}
    (h : ∀ b, x = .ok b → Finishes s k (f b) (g b)) : Finishes s k (x >>= f) (x >>= g) := by
  cases x with
  | error stop => exact rfl
  | ok b => exact h b rfl

/-- A branch on both sides. -/
theorem Finishes.ite {s : Inbound} {k : ℕ} {c : Prop} [Decidable c]
    {a b : Except Stop (Except Status (Option Frame))} {a' b' : Except Stop (Handled × Inbound)}
    (h : c → Finishes s k a a') (h' : ¬ c → Finishes s k b b') :
    Finishes s k (if c then a else b) (if c then a' else b') := by
  by_cases h_c : c
  · rw [if_pos h_c, if_pos h_c]
    exact h h_c
  · rw [if_neg h_c, if_neg h_c]
    exact h' h_c

/-- From a complete frame on, a call decodes the frame. -/
theorem finishes_handleBody {pools : Pools} (h : pools.Ample) {s : Inbound} {raw : List UInt8}
    (h_raw : s.raw_frame = raw) (h_target : s.target_size = raw.length) (n k : ℕ) :
    Finishes s k (decodeRaw raw) (handleBody pools n s k) := by
  rw [handleBody, decodeRaw, h_raw, h_target]
  -- the end byte is looked at first, then the type and the channel of the frame
  refine Finishes.bind _ fun footer _ => Finishes.ite (fun _ => ⟨s.channels, rfl⟩)
    fun _ => ?_
  refine Finishes.bind _ fun frame_type _ => Finishes.bind _ fun channel _ => ?_
  obtain ⟨cs, n', h_pool, -⟩ := pool_of_ample h s (BitVec.ofNat 16 (BigEndian.value channel)) n
  have h_raw' : ({ s with channels := cs } : Inbound).raw_frame = raw := h_raw
  have h_target' : ({ s with channels := cs } : Inbound).target_size = raw.length := h_target
  dsimp only
  rw [h_pool]
  dsimp only
  rw [h_raw', h_target', h.memory]
  cases decodePayload (fun _ => true) raw.length raw _ (BitVec.ofNat 16 _) with
  | error stop => exact rfl
  | ok res =>
    cases res with
    | error e =>
      refine ⟨cs, ?_⟩
      rw [h_target]
      rfl
    | ok frame => exact ⟨cs, rfl⟩

/-! ### What a connection holds between two calls -/

/-- Where in a frame the connection is. -/
inductive Stage (frame_max : ℤ) (s : Inbound) (pre : List UInt8) : Prop
  | header (h_state : s.state = .idle ∨ s.state = .header)
      (h_buffer : s.inbound_buffer = .headerBuffer) (h_target : s.target_size = HEADER_SIZE)
      (h_lt : pre.length < HEADER_SIZE)
  | body (h_state : s.state = .body) (h_target : s.target_size = frameSize pre + 8)
      (h_raw : s.raw_frame.length = s.target_size) (h_le : HEADER_SIZE ≤ pre.length)
      (h_le_target : pre.length ≤ s.target_size) (h_size : frameSize pre < INT32_MAX)
      (h_max : s.target_size ≤ sizeT frame_max)

/-- The connection holds the beginning `pre` of a frame. -/
structure Pending (frame_max : ℤ) (s : Inbound) (pre : List UInt8) : Prop where
  filled : Filled s pre
  frame_max_eq : s.frame_max = frame_max
  length_header : s.header_buffer.length = HEADER_SIZE + 1
  stage : Stage frame_max s pre

/-- After a frame, the connection holds nothing. -/
theorem pending_return_to_idle {frame_max : ℤ} {s : Inbound} (h_max : s.frame_max = frame_max)
    (h_len : s.header_buffer.length = HEADER_SIZE + 1) (cs : List (BitVec 16)) :
    Pending frame_max ({ s with channels := cs } : Inbound).return_to_idle [] := by
  refine ⟨⟨rfl, rfl, Nat.zero_le _, ?_, fun h => by cases h⟩, h_max, h_len,
    .header (.inl rfl) rfl rfl (Nat.zero_lt_succ _)⟩
  change HEADER_SIZE ≤ s.header_buffer.length
  rw [h_len]
  exact Nat.le_succ _

/-- The connection holds the complete frame `raw`. -/
structure Complete (frame_max : ℤ) (s : Inbound) (raw : List UInt8) : Prop where
  frame_max_eq : s.frame_max = frame_max
  length_header : s.header_buffer.length = HEADER_SIZE + 1
  state_eq : s.state = .body
  raw_frame_eq : s.raw_frame = raw
  target_eq : s.target_size = raw.length
  offset_eq : s.inbound_offset = raw.length
  not_null : s.inbound_buffer ≠ .null

/-- What a call gives when the frame that begins with `pre` continues with `d`. -/
structure Continues (frame_max : ℤ) (pre d : List UInt8) (k : ℕ)
    (x : Except Stop (Handled × Inbound)) : Prop where
  more : pre.length + d.length < frameSize pre + 8 →
    ∃ t, x = .ok (.ok (k + d.length, none), t) ∧ Pending frame_max t (pre ++ d)
  token : frameSize pre + 8 ≤ pre.length + d.length → ∃ t : Inbound,
    Complete frame_max t ((pre ++ d).take (frameSize pre + 8)) ∧
      Finishes t (k + (frameSize pre + 8 - pre.length))
        (decodeRaw ((pre ++ d).take (frameSize pre + 8))) x

/-- In the body of a frame. -/
theorem continues_of_body {pools : Pools} (h : pools.Ample) {frame_max : ℤ} {s : Inbound}
    {pre : List UInt8} (h_pending : Pending frame_max s pre) (h_state : s.state = .body)
    (d : List UInt8) (n k : ℕ) :
    Continues frame_max pre d k (do
      let (l, s, _) ← consume_data s d
      if s.inbound_offset < s.target_size then
        return (.ok (k + l, none), s)
      else
        handleBody pools n s (k + l)) := by
  obtain ⟨h_filled, h_max_eq, h_header, h_stage⟩ := h_pending
  cases h_stage with
  | header h_other =>
    rw [h_state] at h_other
    rcases h_other with h_other | h_other <;> cases h_other
  | body _ h_target h_raw h_le h_le_target h_size h_max =>
    obtain ⟨t, h_consume, h_t, h_same⟩ := consume_data_of_filled h_filled d
    have h_size' : frameSize (pre ++ d) = frameSize pre := frameSize_append _ h_le d
    have h_t_target := h_same.target_size.trans h_target
    rw [h_target] at h_consume h_t
    -- either the whole piece belongs to the frame, or the frame ends within it
    refine ⟨fun h_more => ?_, fun h_token => ?_⟩
    · have h_min : min (frameSize pre + 8 - pre.length) d.length = d.length := by omega
      rw [h_min, List.take_length] at h_t
      rw [h_min] at h_consume
      rw [h_consume]
      refine ⟨t, ?_, h_t, h_same.frame_max.trans h_max_eq, h_same.length_header.trans h_header,
        .body ?_ ?_ ?_ ?_ ?_ ?_ ?_⟩
      · change (if t.inbound_offset < t.target_size then _ else _) = _
        rw [h_t.offset, List.length_append, h_t_target, if_pos h_more]
        rfl
      · exact h_same.state.trans h_state
      · rw [h_size', h_t_target]
      · rw [h_same.length_raw, h_raw, h_target, h_t_target]
      · rw [List.length_append]
        omega
      · rw [List.length_append, h_t_target]
        exact h_more.le
      · rw [h_size']
        exact h_size
      · rw [h_t_target, ← h_target]
        exact h_max
    · have h_min : min (frameSize pre + 8 - pre.length) d.length =
          frameSize pre + 8 - pre.length := by omega
      have h_take : (pre ++ d).take (frameSize pre + 8) =
          pre ++ d.take (frameSize pre + 8 - pre.length) := by
        rw [List.take_append, List.take_of_length_le (by omega)]
      rw [h_min, ← h_take] at h_t
      rw [h_min] at h_consume
      have h_len : ((pre ++ d).take (frameSize pre + 8)).length = frameSize pre + 8 := by
        rw [List.length_take, List.length_append]
        omega
      -- the buffer is full, so that it holds the frame and nothing else
      have h_full : t.raw_frame = (pre ++ d).take (frameSize pre + 8) := by
        have h_eq := h_t.take_eq
        rw [h_len] at h_eq
        rw [← h_eq, List.take_of_length_le]
        rw [h_same.length_raw, h_raw, h_target]
      have h_target' : t.target_size = ((pre ++ d).take (frameSize pre + 8)).length := by
        rw [h_len, h_t_target]
      refine ⟨t, ⟨h_same.frame_max.trans h_max_eq, h_same.length_header.trans h_header,
        h_same.state.trans h_state, h_full, h_target', h_t.offset, h_t.not_null⟩, ?_⟩
      rw [h_consume]
      change Finishes _ _ _ (if t.inbound_offset < t.target_size then _ else _)
      rw [h_t.offset, h_target', if_neg (Nat.lt_irrefl _)]
      exact finishes_handleBody h h_full h_target' n _

/-- The connection holds the header of a frame in `header_buffer`. -/
structure AtHeader (frame_max : ℤ) (s : Inbound) (pre : List UInt8) : Prop where
  take_eq : s.header_buffer.take HEADER_SIZE = pre
  frame_max_eq : s.frame_max = frame_max
  length_header : s.header_buffer.length = HEADER_SIZE + 1
  buffer : s.inbound_buffer = .headerBuffer

namespace AtHeader

variable {frame_max : ℤ} {s : Inbound} {pre : List UInt8}

/-- The head is complete. -/
theorem length_eq (h : AtHeader frame_max s pre) : pre.length = HEADER_SIZE := by
  rw [← h.take_eq, List.length_take, h.length_header]
  exact min_eq_left (Nat.le_succ _)

/-- A load from the head gives the bytes that have arrived. -/
theorem load_eq (h : AtHeader frame_max s pre) {offset n : ℕ} (h_le : offset + n ≤ HEADER_SIZE) :
    load s.raw_frame offset n = .ok ((pre.drop offset).take n) := by
  have h_raw : s.raw_frame = s.header_buffer := by rw [Inbound.raw_frame, h.buffer]
  rw [load, h_raw, if_pos (by rw [h.length_header]; omega), ← h.take_eq, List.drop_take,
    List.take_take, min_eq_left (by omega)]

end AtHeader

/-- A buffer that is filled with the head. -/
theorem Filled.atHeader {frame_max : ℤ} {s : Inbound} {pre : List UInt8} (h : Filled s pre)
    (h_len : pre.length = HEADER_SIZE) (h_max : s.frame_max = frame_max)
    (h_header : s.header_buffer.length = HEADER_SIZE + 1)
    (h_buffer : s.inbound_buffer = .headerBuffer) : AtHeader frame_max s pre := by
  refine ⟨?_, h_max, h_header, h_buffer⟩
  have h_take := h.take_eq
  rw [Inbound.raw_frame, h_buffer, h_len] at h_take
  exact h_take

/-- The connection holds the header of a frame whose size is too large. Where the size is compared
with `frame_max`, `target_size` is set already. -/
structure Oversized (frame_max : ℤ) (s : Inbound) (pre : List UInt8) : Prop where
  state_eq : s.state = .header
  filled : Filled { s with target_size := HEADER_SIZE } pre
  length_eq : pre.length = HEADER_SIZE
  frame_max_eq : s.frame_max = frame_max
  length_header : s.header_buffer.length = HEADER_SIZE + 1
  buffer : s.inbound_buffer = .headerBuffer
  target : frameSize pre ≥ INT32_MAX ∧ s.target_size = HEADER_SIZE ∨
    frameSize pre < INT32_MAX ∧ sizeT frame_max < frameSize pre + 8 ∧
      s.target_size = frameSize pre + 8

/-- A size that is too large ends the connection. -/
theorem handleHeader_of_bad (pools : Pools) {frame_max : ℤ} {s : Inbound} {pre : List UInt8}
    (h_at : AtHeader frame_max s pre)
    (h_bad : frameSize pre ≥ INT32_MAX ∨ sizeT frame_max < frameSize pre + 8)
    (d : List UInt8) (k : ℕ) : ∃ target, handleHeader pools s k d =
        .ok (.error .badAmqpData, { s with target_size := target }) ∧
      (frameSize pre ≥ INT32_MAX ∧ target = s.target_size ∨ frameSize pre < INT32_MAX ∧
        sizeT frame_max < frameSize pre + 8 ∧ target = frameSize pre + 8) := by
  rw [handleHeader, h_at.load_eq (by decide), h_at.load_eq (by decide)]
  change ∃ target, (if frameSize pre ≥ INT32_MAX then _ else
    if sizeT s.frame_max < frameSize pre + 8 then _ else _) = _ ∧ _
  by_cases h_size : frameSize pre ≥ INT32_MAX
  · rw [if_pos h_size]
    exact ⟨s.target_size, rfl, .inl ⟨h_size, rfl⟩⟩
  · have h_fits := h_bad.resolve_left h_size
    rw [if_neg h_size, if_pos (by rw [h_at.frame_max_eq]; exact h_fits)]
    exact ⟨_, rfl, .inr ⟨Nat.lt_of_not_le h_size, h_fits, rfl⟩⟩

/-- A size that is refused ends the call with an error. -/
theorem oversized_of_bad (pools : Pools) {frame_max : ℤ} {s : Inbound} {pre : List UInt8}
    (h_at : AtHeader frame_max s pre) (h_filled : Filled s pre) (h_state : s.state = .header)
    (h_target : s.target_size = HEADER_SIZE)
    (h_bad : frameSize pre ≥ INT32_MAX ∨ sizeT frame_max < frameSize pre + 8)
    (d : List UInt8) (k : ℕ) : ∃ t, handleHeader pools s k d = .ok (.error .badAmqpData, t) ∧
      Oversized frame_max t pre := by
  have h_same : Filled { s with target_size := HEADER_SIZE } pre :=
    ⟨h_filled.take_eq, h_filled.offset, h_at.length_eq.le, h_target ▸ h_filled.target_le,
      h_filled.not_null⟩
  obtain ⟨target, h_call, h_or⟩ := handleHeader_of_bad pools h_at h_bad d k
  rw [h_target] at h_or
  exact ⟨_, h_call, h_state, h_same, h_at.length_eq, h_at.frame_max_eq, h_at.length_header,
    h_at.buffer, h_or⟩

/-- With any other size, the connection goes on with the body of the frame. Behind the header, the
new block holds what was in the memory. -/
theorem handleHeader_of_good {pools : Pools} (h : pools.Ample) {frame_max : ℤ} {s : Inbound}
    {pre : List UInt8} (h_at : AtHeader frame_max s pre) (h_size : frameSize pre < INT32_MAX)
    (h_fits : frameSize pre + 8 ≤ sizeT frame_max) (d : List UInt8) (k : ℕ) :
    ∃ cs n bytes, pools.supply n = some bytes ∧ (s.channels = [] → n = 1) ∧
      handleHeader pools s k d = (do
        let (l, s, _) ← consume_data { s with
          target_size := frameSize pre + 8
          channels := cs
          inbound_buffer := .block (pre ++ loadBytes bytes 7 (frameSize pre + 1))
          state := .body } d
        if s.inbound_offset < s.target_size then
          return (.ok (k + l, none), s)
        else
          handleBody pools (n + 1) s (k + l)) := by
  rw [handleHeader, h_at.load_eq (by decide), h_at.load_eq (by decide)]
  change ∃ cs n bytes, _ ∧ _ ∧ (if frameSize pre ≥ INT32_MAX then _ else
    if sizeT s.frame_max < frameSize pre + 8 then _ else _) = _
  rw [← h_at.frame_max_eq] at h_fits
  rw [if_neg (Nat.not_le.mpr h_size), if_neg (Nat.not_lt.mpr h_fits)]
  -- the pool of the channel, and a block of the size of the frame
  obtain ⟨u, h_u⟩ : ∃ u : Inbound, { s with
    target_size := BigEndian.value ((pre.drop 3).take 4) + HEADER_SIZE + FOOTER_SIZE } = u :=
    ⟨_, rfl⟩
  obtain ⟨cs, n, h_pool, h_new⟩ := pool_of_ample h u
    (BitVec.ofNat 16 (BigEndian.value ((pre.drop 1).take 2))) 0
  cases h_supply : pools.supply n with
  | none => exact absurd h_supply (h.supply n)
  | some bytes =>
    refine ⟨cs, n, bytes, h_supply, fun h_nil => h_new (by rw [← h_u]; exact h_nil), ?_⟩
    rw [h_u, h_pool]
    dsimp only
    have h_header : (u.header_buffer.take HEADER_SIZE) = pre := by
      rw [← h_u]
      exact h_at.take_eq
    have h_target : u.target_size = frameSize pre + 8 := by
      rw [← h_u]
      rfl
    have h_len : pre.length = 7 := h_at.length_eq
    have h_block : loadBytes bytes 0 (frameSize pre + 8) =
        loadBytes bytes 0 7 ++ loadBytes bytes 7 (frameSize pre + 1) := by
      rw [(by omega : frameSize pre + 8 = 7 + (frameSize pre + 1)), loadBytes_add]
    -- the head goes to the beginning of the new block
    have h_patch : patch (loadBytes bytes 0 u.target_size) 0 pre =
        .ok (pre ++ loadBytes bytes 7 (frameSize pre + 1)) := by
      rw [patch, h_target, length_loadBytes, if_pos (by omega), h_block, List.take_zero,
        List.nil_append, Nat.zero_add, h_len, List.drop_left' (length_loadBytes _ _ _)]
    rw [h_supply]
    dsimp only
    rw [h_header, h_patch, ← h_u]
    rfl

/-- What has arrived of a frame is at the beginning of a block that is as long as the frame. -/
theorem pending_of_block {frame_max : ℤ} {s : Inbound} {pre rest : List UInt8}
    (h_state : s.state = .body) (h_buffer : s.inbound_buffer = .block (pre ++ rest))
    (h_target : s.target_size = frameSize pre + 8)
    (h_block : (pre ++ rest).length = frameSize pre + 8)
    (h_offset : s.inbound_offset = pre.length) (h_max : s.frame_max = frame_max)
    (h_header : s.header_buffer.length = HEADER_SIZE + 1) (h_le : HEADER_SIZE ≤ pre.length)
    (h_size : frameSize pre < INT32_MAX) (h_fits : frameSize pre + 8 ≤ sizeT frame_max) :
    Pending frame_max s pre := by
  have h_raw : s.raw_frame = pre ++ rest := by rw [Inbound.raw_frame, h_buffer]
  have h_le_target : pre.length ≤ s.target_size := by
    rw [h_target, ← h_block, List.length_append]
    exact Nat.le_add_right _ _
  have h_raw_len : s.raw_frame.length = s.target_size := by rw [h_raw, h_block, h_target]
  refine ⟨⟨?_, h_offset, h_le_target, h_raw_len.ge, ?_⟩, h_max, h_header,
    .body h_state h_target h_raw_len h_le h_le_target h_size (h_target.le.trans h_fits)⟩
  · rw [h_raw, List.take_left]
  · rw [h_buffer]
    exact fun h_null => by cases h_null

/-- With the first seven bytes in `header_buffer`, the connection goes on with what follows them. -/
theorem continues_of_header {pools : Pools} (h : pools.Ample) {frame_max : ℤ} {s : Inbound}
    {pre : List UInt8} (h_at : AtHeader frame_max s pre) (h_offset : s.inbound_offset = HEADER_SIZE)
    (h_size : frameSize pre < INT32_MAX) (h_fits : frameSize pre + 8 ≤ sizeT frame_max)
    (d : List UInt8) (k : ℕ) : Continues frame_max pre d k (handleHeader pools s k d) := by
  obtain ⟨cs, n, bytes, -, -, h_eq⟩ := handleHeader_of_good h h_at h_size h_fits d k
  have h_len : pre.length = 7 := h_at.length_eq
  rw [h_eq]
  refine continues_of_body h ?_ rfl d (n + 1) k
  refine pending_of_block rfl rfl rfl ?_ ?_ h_at.frame_max_eq h_at.length_header h_len.ge h_size
    h_fits
  · rw [List.length_append, length_loadBytes]
    omega
  · exact h_offset.trans h_len.symm

/-! ### Independence of the pieces -/

/-- Before the head is complete, nothing is decided. -/
theorem scanFrame_of_lt (frame_max : ℤ) {bs : List UInt8} (h : bs.length < HEADER_SIZE) :
    scanFrame frame_max bs = .more := if_pos h

/-- Then the size may be refused. -/
theorem scanFrame_of_bad (frame_max : ℤ) (bs : List UInt8) (h : HEADER_SIZE ≤ bs.length)
    (h_bad : frameSize bs ≥ INT32_MAX ∨ sizeT frame_max < frameSize bs + 8) :
    scanFrame frame_max bs = .bad := scanFrame_bad_iff.mpr ⟨h, h_bad⟩

/-- A size that is allowed says how many bytes the frame has. -/
theorem scanFrame_of_good (frame_max : ℤ) (bs : List UInt8) (h : HEADER_SIZE ≤ bs.length)
    (h_good : ¬ (frameSize bs ≥ INT32_MAX ∨ sizeT frame_max < frameSize bs + 8)) :
    scanFrame frame_max bs =
      if bs.length < frameSize bs + 8 then .more else .token (frameSize bs + 8) := by
  rw [scanFrame, if_neg (Nat.not_lt.mpr h), if_neg h_good]

/-- A call does what the decoder of the stream says of `pre ++ d`. -/
structure Decides (frame_max : ℤ) (pre d : List UInt8)
    (x : Except Stop (Handled × Inbound)) : Prop where
  more : scanFrame frame_max (pre ++ d) = .more →
    ∃ t, x = .ok (.ok (d.length, none), t) ∧ Pending frame_max t (pre ++ d)
  bad : scanFrame frame_max (pre ++ d) = .bad → ∃ t, x = .ok (.error .badAmqpData, t) ∧
    Oversized frame_max t ((pre ++ d).take HEADER_SIZE)
  token {n} : scanFrame frame_max (pre ++ d) = .token n → ∃ t : Inbound,
    Complete frame_max t ((pre ++ d).take n) ∧
      Finishes t (n - pre.length) (decodeRaw ((pre ++ d).take n)) x

/-- What follows the header of a frame in the body is what follows it in the stream. -/
theorem Continues.decides {frame_max : ℤ} {pre d d' : List UInt8} {k : ℕ}
    {x : Except Stop (Handled × Inbound)} (h_le : HEADER_SIZE ≤ pre.length)
    (h_good : ¬ (frameSize pre ≥ INT32_MAX ∨ sizeT frame_max < frameSize pre + 8))
    (h_le_size : pre.length ≤ frameSize pre + 8) (h : Continues frame_max pre d k x)
    {pre' : List UInt8} (h_eq : pre' ++ d' = pre ++ d) (h_len : pre.length = pre'.length + k) :
    Decides frame_max pre' d' x := by
  have h_size : frameSize (pre ++ d) = frameSize pre := frameSize_append _ h_le d
  have h_total : pre'.length + d'.length = pre.length + d.length := by
    rw [← List.length_append, h_eq, List.length_append]
  have h_scan := scanFrame_of_good frame_max (pre ++ d)
    (h_le.trans (by rw [List.length_append]; exact Nat.le_add_right _ _)) (h_size ▸ h_good)
  rw [h_size, List.length_append] at h_scan
  -- the size in the head decides, and the bytes behind it do not change that
  refine ⟨fun h_more => ?_, fun h_bad => ?_, fun {n} h_token => ?_⟩
  · rw [h_eq, h_scan] at h_more
    split at h_more
    case isFalse => cases h_more
    case isTrue h_short =>
      obtain ⟨t, h_x, h_pending⟩ := h.more h_short
      refine ⟨t, ?_, h_eq ▸ h_pending⟩
      rw [h_x, (by omega : k + d.length = d'.length)]
  · rw [h_eq, h_scan] at h_bad
    split at h_bad <;> cases h_bad
  · rw [h_eq, h_scan] at h_token
    split at h_token
    · cases h_token
    case isFalse h_long =>
      cases h_token
      obtain ⟨t, h_complete, h_finishes⟩ := h.token (by omega)
      rw [h_eq]
      refine ⟨t, h_complete, ?_⟩
      rw [(by omega : frameSize pre + 8 - pre'.length = k + (frameSize pre + 8 - pre.length))]
      exact h_finishes

/-- A call that begins within the header of a frame. -/
theorem decides_of_header {pools : Pools} (h : pools.Ample) {frame_max : ℤ} {s : Inbound}
    {pre : List UInt8} (h_pending : Pending frame_max s pre) (h_state : s.state = .header)
    (d : List UInt8) :
    Decides frame_max pre d (do
      let (k, s, d) ← consume_data s d
      if s.inbound_offset < s.target_size then
        return (.ok (k, none), s)
      else
        handleHeader pools s k d) := by
  obtain ⟨h_filled, h_max_eq, h_header, h_stage⟩ := h_pending
  cases h_stage with
  | body h_other =>
    rw [h_state] at h_other
    cases h_other
  | header _ h_buffer h_target h_lt =>
    obtain ⟨t, h_consume, h_t, h_same⟩ := consume_data_of_filled h_filled d
    have h_t_target : t.target_size = 7 := h_same.target_size.trans h_target
    have h_t_max := h_same.frame_max.trans h_max_eq
    have h_t_header := h_same.length_header.trans h_header
    have h_t_buffer := h_same.buffer.mp h_buffer
    rw [HEADER_SIZE] at h_lt
    rw [h_target, HEADER_SIZE] at h_consume h_t
    rw [h_consume]
    change Decides _ _ _ (if t.inbound_offset < t.target_size then _ else _)
    rw [h_t.offset, h_t_target]
    by_cases h_short : pre.length + d.length < 7
    · -- the whole piece belongs to the header
      have h_min : min (7 - pre.length) d.length = d.length := by omega
      rw [h_min, List.take_length] at h_t ⊢
      have h_len : (pre ++ d).length < 7 := by
        rw [List.length_append]
        exact h_short
      have h_scan := scanFrame_of_lt frame_max h_len
      rw [if_pos h_len]
      refine ⟨fun _ => ⟨t, rfl, h_t, h_t_max, h_t_header,
        .header (.inr (h_same.state.trans h_state)) h_t_buffer h_t_target h_len⟩, ?_, ?_⟩
      · rw [h_scan]
        exact fun h_bad => by cases h_bad
      · intro n
        rw [h_scan]
        exact fun h_token => by cases h_token
    · -- the header is complete, and what is behind it follows in the same call
      have h_min : min (7 - pre.length) d.length = 7 - pre.length := by omega
      rw [h_min] at h_t ⊢
      obtain ⟨hdr, h_hdr⟩ : ∃ hdr, pre ++ d.take (7 - pre.length) = hdr := ⟨_, rfl⟩
      have h_len : hdr.length = 7 := by
        rw [← h_hdr, List.length_append, List.length_take]
        omega
      have h_eq : pre ++ d = hdr ++ d.drop (7 - pre.length) := by
        rw [← h_hdr, List.append_assoc, List.take_append_drop]
      rw [h_hdr] at h_t ⊢
      rw [h_len, if_neg (Nat.lt_irrefl 7)]
      have h_at : AtHeader frame_max t hdr := h_t.atHeader h_len h_t_max h_t_header h_t_buffer
      by_cases h_bad : frameSize hdr ≥ INT32_MAX ∨ sizeT frame_max < frameSize hdr + 8
      · have h_size := frameSize_append hdr h_len.ge (d.drop (7 - pre.length))
        have h_scan := scanFrame_of_bad frame_max (pre ++ d)
          (by rw [h_eq, List.length_append, h_len]; exact Nat.le_add_right _ _)
          (by rw [h_eq, h_size]; exact h_bad)
        refine ⟨?_, fun _ => ?_, ?_⟩
        · rw [h_scan]
          exact fun h_more => by cases h_more
        · have h_take : (hdr ++ d.drop (7 - pre.length)).take HEADER_SIZE = hdr :=
            List.take_left' h_len
          rw [h_eq, h_take]
          exact oversized_of_bad pools h_at h_t (h_same.state.trans h_state) h_t_target h_bad _ _
        · intro n
          rw [h_scan]
          exact fun h_token => by cases h_token
      · have h_size := Nat.lt_of_not_le fun h_le => h_bad (.inl h_le)
        have h_fits := Nat.le_of_not_lt fun h_lt => h_bad (.inr h_lt)
        refine (continues_of_header h h_at (h_t.offset.trans h_len) h_size h_fits _ _).decides
          h_len.ge h_bad ?_ h_eq ?_
        · omega
        · omega

/-- The first byte of a frame changes the state. -/
theorem Pending.header {frame_max : ℤ} {s : Inbound} {pre : List UInt8}
    (h : Pending frame_max s pre) (h_state : s.state = .idle ∨ s.state = .header) :
    Pending frame_max s.awake pre ∧ s.awake.state = .header := by
  rw [Inbound.awake]
  by_cases h_idle : s.state = .idle
  · rw [if_pos h_idle]
    obtain ⟨h_filled, h_max_eq, h_header, h_stage⟩ := h
    cases h_stage with
    | header _ h_buffer h_target h_lt =>
      exact ⟨⟨⟨h_filled.take_eq, h_filled.offset, h_filled.le_target, h_filled.target_le,
        h_filled.not_null⟩, h_max_eq, h_header, .header (.inr rfl) h_buffer h_target h_lt⟩, rfl⟩
    | body h_other =>
      rw [h_idle] at h_other
      cases h_other
  · rw [if_neg h_idle]
    exact ⟨h, h_state.resolve_left h_idle⟩

/-- One call of `amqp_handle_input`. -/
theorem decides_amqp_handle_input {pools : Pools} (h : pools.Ample) {frame_max : ℤ} {s : Inbound}
    {pre d : List UInt8} (h_pending : Pending frame_max s pre) (h_d : d ≠ []) :
    Decides frame_max pre d (amqp_handle_input pools s d) := by
  -- in the body the buffer is a block, in the head it is `header_buffer`
  cases h_pending.stage with
  | body h_state h_target h_raw h_le h_le_target h_size h_max =>
    have h_good : ¬ (frameSize pre ≥ INT32_MAX ∨ sizeT frame_max < frameSize pre + 8) := by omega
    have h_body := continues_of_body h h_pending h_state d 0 0
    have h_decides := h_body.decides h_le h_good (by omega) rfl (Nat.add_zero _).symm
    obtain ⟨t, h_consume, -, h_same⟩ := consume_data_of_filled h_pending.filled d
    have h_awake : s.awake = s := Inbound.awake_of_ne fun h_idle => by
      rw [h_state] at h_idle
      cases h_idle
    have h_t_state : t.state = .body := h_same.state.trans h_state
    rw [h_consume] at h_decides
    rw [amqp_handle_input_eq pools h_d (by rw [h_awake]; exact h_consume), handleState, h_t_state]
    change Decides _ _ _ (if t.inbound_offset < t.target_size then
      .ok (.ok (0 + _, none), t) else handleBody pools 0 t (0 + _)) at h_decides
    rw [Nat.zero_add] at h_decides
    exact h_decides
  | header h_state h_buffer h_target h_lt =>
    obtain ⟨h_header, h_header_state⟩ := h_pending.header h_state
    have h_decides := decides_of_header h h_header h_header_state d
    obtain ⟨t, h_consume, -, h_same⟩ := consume_data_of_filled h_header.filled d
    have h_t_state : t.state = .header := h_same.state.trans h_header_state
    rw [h_consume] at h_decides
    rw [amqp_handle_input_eq pools h_d h_consume, handleState, h_t_state]
    exact h_decides

/-- What the calling program sees. -/
theorem Decides.answers {pools : Pools} {frame_max : ℤ} {s : Inbound} {pre d d' : List UInt8}
    (h : Decides frame_max pre d' (amqp_handle_input pools s d)) (h_len : d'.length = d.length) :
    Answers (frameDecoder frame_max) (receive pools) (Pending frame_max) s pre.length d
      (pre ++ d') := by
  -- one case for each verdict of the scanner
  refine ⟨fun h_scan => ?_, fun h_scan => ?_, fun {n e} h_scan h_decode => ?_,
    fun {n b} h_scan h_decode => ?_⟩
  · obtain ⟨t, h_call, h_t⟩ := h.more h_scan
    refine ⟨t, ?_, h_t⟩
    rw [receive, h_call, h_len]
  · obtain ⟨t, h_call, -⟩ := h.bad h_scan
    rw [receive, h_call]
    rfl
  · obtain ⟨t, -, h_finishes⟩ := h.token h_scan
    change result (decodeRaw ((pre ++ d').take n)) = .error e at h_decode
    cases h_raw : decodeRaw ((pre ++ d').take n) with
    | error stop =>
      rw [h_raw] at h_finishes h_decode
      cases h_decode
      have h_call : amqp_handle_input pools s d = .error stop := h_finishes
      rw [receive, h_call]
    | ok res =>
      rw [h_raw] at h_finishes h_decode
      cases res with
      | error status =>
        cases h_decode
        obtain ⟨u, h_call⟩ := h_finishes
        rw [receive, h_call]
      | ok frame => cases h_decode
  · obtain ⟨t, h_complete, h_finishes⟩ := h.token h_scan
    change result (decodeRaw ((pre ++ d').take n)) = .ok b at h_decode
    cases h_raw : decodeRaw ((pre ++ d').take n) with
    | error stop =>
      rw [h_raw] at h_decode
      cases h_decode
    | ok res =>
      rw [h_raw] at h_finishes h_decode
      cases res with
      | error status => cases h_decode
      | ok frame =>
        cases h_decode
        obtain ⟨cs, h_call⟩ := h_finishes
        refine ⟨_, ?_, pending_return_to_idle h_complete.frame_max_eq h_complete.length_header cs⟩
        rw [receive, h_call]

/-- Between two frames and within a frame, `amqp_handle_input` is the decoder of the stream. -/
theorem implements_receive {pools : Pools} (h : pools.Ample) (frame_max : ℤ) :
    Implements (frameDecoder frame_max) (receive pools) (Pending frame_max) :=
  fun _ _ _ h_pending h_d => (decides_amqp_handle_input h h_pending h_d).answers rfl

/-- **The pieces do not matter**: whatever pieces the bytes arrive in, the frames that come out,
what stops the program or fails, and what is held back are those of the stream that the pieces make
up. -/
theorem feed_receive {pools : Pools} (h : pools.Ample) {frame_max : ℤ} {s : Inbound}
    (h_pending : Pending frame_max s []) (pieces : List (List UInt8)) :
    Agrees (Pending frame_max) ((frameDecoder frame_max).run pieces.flatten)
      (feed (receive pools) s pieces) :=
  feed_eq (implements_receive h frame_max) h_pending (frameDecoder frame_max).scan_nil pieces

/-- Pools that give zeroed memory whenever they are asked. -/
def Pools.zeroed : Pools := ⟨fun _ => some fun _ => 0, fun _ => true⟩

/-- The pools of the examples have memory. -/
theorem ample_zeroed : Pools.zeroed.Ample := ⟨fun _ => Option.some_ne_none _, rfl⟩

/-- A connection after its first frame. -/
def Inbound.between (frame_max : ℤ) : Inbound := (Inbound.new frame_max).return_to_idle

/-- Between two frames nothing is held back. -/
theorem pending_between (frame_max : ℤ) : Pending frame_max (.between frame_max) [] :=
  pending_return_to_idle (s := .new frame_max) rfl rfl []

theorem feed_receive_heartbeat :
    Pools.zeroed.Ample ∧ Pending 4096 (.between 4096) [] ∧
      Agrees (Pending 4096) ((frameDecoder 4096).run [8, 0, 0, 0, 0, 0, 0, 206])
        (feed (receive .zeroed) (.between 4096) [[8, 0, 0], [0, 0, 0, 0, 206]]) :=
  ⟨ample_zeroed, pending_between 4096,
    feed_receive ample_zeroed (pending_between 4096) [[8, 0, 0], [0, 0, 0, 0, 206]]⟩

end Amqp
end WateRMQ
