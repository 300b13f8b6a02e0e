import WateRMQ.Amqp.Receiving

/-!
# Malformed frames

What frames that no encoder produces do to `amqp_handle_input`. `decodeRaw_stop_iff` says which
complete frames end the program: methods and headers that are too short for what is read before
their length is looked at.

Every other frame gives an error at most, and `inputs_after_error` says what comes after an error.
The state is left as it is, so that each further call gives the same error. There is one exception:
after a frame that is larger than `frame_max`, the next call writes past the end of `header_buffer`.
-/

namespace WateRMQ
namespace Amqp

open Codec CMem Stream

/-! ### Frames that end the program -/

/-- A complete frame that ends the program. -/
def Malformed (raw : List UInt8) : Prop :=
  raw.getD (raw.length - 1) 0 = 206 ∧
    (raw.getD 0 0 = 1 ∧ raw.length < 11 ∨ raw.getD 0 0 = 2 ∧ raw.length < 20)

/-- What is given is no error. -/
theorem not_error {ε α ι : Type} {f : ι → ε} {a : α} :
    ¬ ∃ i, (.ok a : Except ε α) = .error (f i) := by
  rintro ⟨i, h⟩
  cases h

/-- Bytes that are there. -/
theorem load_of_le {block : List UInt8} {offset n : ℕ} (h : offset + n ≤ block.length) :
    load block offset n = .ok ((block.drop offset).take n) := if_pos h

/-- Bytes of which some are not there. -/
theorem load_of_lt {block : List UInt8} {offset n : ℕ} (h : block.length < offset + n) :
    load block offset n = .error (.fault .outOfBounds) := if_neg (Nat.not_le.mpr h)

/-- One byte, as the decoders of the base types read it. -/
theorem byte_eq (raw : List UInt8) {i : ℕ} (h : i < raw.length) (b : UInt8) :
    BitVec.ofNat 8 (BigEndian.value ((raw.drop i).take 1)) = b.toBitVec ↔ raw.getD i 0 = b := by
  have h_take : (raw.drop i).take 1 = [raw.getD i 0] := by
    rw [List.drop_eq_getElem_cons h, List.take_succ_cons, List.take_zero,
      List.getD_eq_getElem _ _ h]
  have h_value : BitVec.ofNat 8 (BigEndian.value [raw.getD i 0]) = (raw.getD i 0).toBitVec := by
    apply BitVec.eq_of_toNat_eq
    rw [BigEndian.value, BigEndian.value, List.length_nil, pow_zero, Nat.mul_one, Nat.add_zero,
      BitVec.toNat_ofNat, Nat.mod_eq_of_lt (raw.getD i 0).toNat_lt]
    rfl
  rw [h_take, h_value]
  exact UInt8.toBitVec_inj

/-- The payloads that end the program: what is read first lies behind their end. -/
theorem decodePayload_stop_iff {raw : List UInt8} (h_len : 8 ≤ raw.length)
    (frame_type : BitVec 8) (channel : BitVec 16) :
    (∃ stop, decodePayload (fun _ => true) raw.length raw frame_type channel = .error stop) ↔
      frame_type = 1 ∧ raw.length < 11 ∨ frame_type = 2 ∧ raw.length < 20 := by
  rw [decodePayload]
  split
  case h_1 h_type =>
    have h_eq : frame_type = 1 := BitVec.eq_of_toNat_eq h_type
    have h_ne : frame_type ≠ 2 := by
      rw [h_eq]
      decide
    by_cases h_id : raw.length < 11
    · rw [load_of_lt (by rw [HEADER_SIZE]; omega)]
      exact ⟨fun _ => .inl ⟨h_eq, h_id⟩, fun _ => ⟨_, rfl⟩⟩
    · rw [load_of_le (by rw [HEADER_SIZE]; omega), load_of_le (by
        rw [HEADER_SIZE, FOOTER_SIZE]; omega)]
      refine iff_of_false not_error ?_
      rintro (⟨-, h⟩ | ⟨h, -⟩)
      · exact absurd h h_id
      · exact absurd h h_ne
  case h_2 h_type =>
    have h_eq : frame_type = 2 := BitVec.eq_of_toNat_eq h_type
    have h_ne : frame_type ≠ 1 := by
      rw [h_eq]
      decide
    by_cases h_short : raw.length < 20
    · refine ⟨fun _ => .inr ⟨h_eq, h_short⟩, fun _ => ?_⟩
      -- the class, the size of the body or the properties lie behind the end
      cases load raw HEADER_SIZE 2 with
      | error stop => exact ⟨stop, rfl⟩
      | ok class_id =>
        cases load raw (HEADER_SIZE + 4) 8 with
        | error stop => exact ⟨stop, rfl⟩
        | ok body_size => exact ⟨_, if_pos h_short⟩
    · rw [load_of_le (by rw [HEADER_SIZE]; omega), load_of_le (by rw [HEADER_SIZE]; omega)]
      change (∃ stop, (if raw.length < 20 then _ else _) = _) ↔ _
      rw [if_neg h_short, load_of_le (by rw [HEADER_SIZE, FOOTER_SIZE]; omega)]
      refine iff_of_false not_error ?_
      rintro (⟨h, -⟩ | ⟨-, h⟩)
      · exact absurd h h_ne
      · exact absurd h h_short
  case h_3 h_type =>
    have h_eq : frame_type = 3 := BitVec.eq_of_toNat_eq h_type
    rw [load_of_le (by rw [HEADER_SIZE, FOOTER_SIZE]; omega), h_eq]
    exact iff_of_false not_error (by simp)
  case h_4 h_type =>
    have h_eq : frame_type = 8 := BitVec.eq_of_toNat_eq h_type
    rw [h_eq]
    exact iff_of_false not_error (by simp)
  case h_5 h_one h_two _ _ =>
    refine iff_of_false not_error ?_
    rintro (⟨h, -⟩ | ⟨h, -⟩)
    · exact absurd (congrArg BitVec.toNat h) h_one
    · exact absurd (congrArg BitVec.toNat h) h_two

/-- The complete frames that end the program. -/
theorem decodeRaw_stop_iff {raw : List UInt8} (h_len : 8 ≤ raw.length) :
    (∃ stop, decodeRaw raw = .error stop) ↔ Malformed raw := by
  rw [decodeRaw, Malformed, load_of_le (by omega), load_of_le (by omega), load_of_le (by omega)]
  change (∃ stop, (if BitVec.ofNat 8 (BigEndian.value ((raw.drop (raw.length - 1)).take 1)) ≠
    AMQP_FRAME_END then _ else _) = _) ↔ _
  have h_footer : BitVec.ofNat 8 (BigEndian.value ((raw.drop (raw.length - 1)).take 1)) =
      AMQP_FRAME_END ↔ raw.getD (raw.length - 1) 0 = 206 := byte_eq raw (by omega) 206
  have h_one : BitVec.ofNat 8 (BigEndian.value ((raw.drop 0).take 1)) = 1 ↔ raw.getD 0 0 = 1 :=
    byte_eq raw (by omega) 1
  have h_two : BitVec.ofNat 8 (BigEndian.value ((raw.drop 0).take 1)) = 2 ↔ raw.getD 0 0 = 2 :=
    byte_eq raw (by omega) 2
  by_cases h_end : raw.getD (raw.length - 1) 0 = 206
  · rw [if_neg (not_not.mpr (h_footer.mpr h_end))]
    refine (decodePayload_stop_iff h_len _ _).trans ?_
    rw [← h_one, ← h_two]
    exact ⟨fun h => ⟨h_end, h⟩, fun h => h.2⟩
  · rw [if_pos fun h => h_end (h_footer.mp h)]
    exact iff_of_false not_error fun h => h_end h.1

/-- The end byte of a frame is not the last byte of a method number. -/
theorem ofCode_eq_none_of_end {id : BitVec 32} (h : id.toNat % 256 = 206) :
    MethodNumber.ofCode id = none := by
  have h_code : ∀ m : MethodNumber, m.code.toNat % 256 ≠ 206 := by
    intro m
    cases m <;> decide
  refine List.find?_eq_none.mpr fun m _ h_eq => h_code m ?_
  rw [of_decide_eq_true h_eq, h]

/-- Where the number of a method takes in the end byte, nothing behind it is looked at. -/
theorem amqp_decode_method_of_end {id : BitVec 32} (h : id.toNat % 256 = 206) :
    amqp_decode_method id = fail .unknownMethod := by
  rw [amqp_decode_method, ofCode_eq_none_of_end h]

/-- A frame that arrives at a connection between two frames, in whatever pieces, ends the program
when it is malformed, and only then. -/
theorem feed_stop_iff {pools : Pools} (h : pools.Ample) {frame_max : ℤ} {s : Inbound}
    (h_pending : Pending frame_max s []) {raw : List UInt8}
    (h_raw : scanFrame frame_max raw = .token raw.length) {pieces : List (List UInt8)}
    (h_pieces : pieces.flatten = raw) :
    (∃ stop, (feed (receive pools) s pieces).2 = .error (.inl stop)) ↔ Malformed raw := by
  have h_scan := h_raw
  have h_len : 8 ≤ raw.length := by
    obtain ⟨-, h_eq, -⟩ := scanFrame_token_iff.mp h_raw
    omega
  obtain ⟨h_out, h_end⟩ := feed_eq (implements_receive h frame_max) h_pending
    (frameDecoder frame_max).scan_nil pieces
  rw [List.nil_append, h_pieces] at h_end
  rw [← decodeRaw_stop_iff h_len]
  have h_token : (frameDecoder frame_max).scan raw = .token raw.length := h_scan
  have h_decode : (frameDecoder frame_max).decode (raw.take raw.length) =
      result (decodeRaw raw) := by
    rw [List.take_length]
    rfl
  cases h_run : decodeRaw raw with
  | error stop =>
    rw [h_run] at h_decode
    rw [Decoder.run_of_error h_token h_decode] at h_end
    exact ⟨fun _ => ⟨stop, rfl⟩, fun _ => ⟨stop, h_end⟩⟩
  | ok res =>
    rw [h_run] at h_decode
    -- the frame is refused or given, and neither stops the program
    refine iff_of_false ?_ not_error
    rintro ⟨stop, h_stop⟩
    cases res with
    | error status =>
      rw [Decoder.run_of_error h_token h_decode] at h_end
      have h_eq := h_end.symm.trans h_stop
      cases h_eq
    | ok frame =>
      rw [Decoder.run_of_ok h_token h_decode, List.drop_length,
        Decoder.run_of_more (frameDecoder frame_max).scan_nil] at h_end
      obtain ⟨t, h_t, -⟩ := h_end
      rw [h_t] at h_stop
      cases h_stop

theorem feed_stop_short :
    ∃ stop, (feed (receive .zeroed) (.between 4096) [[1, 0, 0, 0], [0, 0, 0, 206]]).2 =
      .error (.inl stop) :=
  -- a method frame without the number of the method
  (feed_stop_iff ample_zeroed (pending_between 4096)
    (by decide) rfl).mpr ⟨rfl, .inl ⟨rfl, by decide⟩⟩

/-! ### What comes after an error -/

/-- Further calls of `amqp_handle_input`, whatever the earlier ones returned. -/
def inputs (pools : Pools) : Inbound → List (List UInt8) → Except Stop (List Handled × Inbound)
  | s, [] => .ok ([], s)
  | s, d :: ds => do
    let (r, s) ← amqp_handle_input pools s d
    let (rs, s) ← inputs pools s ds
    return (r :: rs, s)

/-- A call that leaves the state in `Inv` and returns `e` does so again and again. -/
theorem inputs_of_invariant {pools : Pools} {e : Status} {Inv : Inbound → Prop}
    (h_step : ∀ s d, Inv s → d ≠ [] → ∃ t, amqp_handle_input pools s d = .ok (.error e, t) ∧ Inv t)
    {s : Inbound} (h : Inv s) {ds : List (List UInt8)} (h_ds : ∀ d ∈ ds, d ≠ []) :
    ∃ t, inputs pools s ds = .ok (ds.map fun _ => .error e, t) := by
  induction ds generalizing s with
  | nil => exact ⟨s, rfl⟩
  | cons d ds ih =>
    obtain ⟨t, h_call, h_t⟩ := h_step s d h (h_ds d List.mem_cons_self)
    obtain ⟨u, h_u⟩ := ih h_t fun c h_c => h_ds c (List.mem_cons_of_mem d h_c)
    refine ⟨u, ?_⟩
    rw [inputs, h_call]
    change (inputs pools t ds >>= _) = _
    rw [h_u]
    rfl

/-- Nothing is taken when nothing is missing. -/
theorem consume_data_full {s : Inbound} {pre : List UInt8} (h : Filled s pre)
    (h_full : s.target_size = pre.length) (d : List UInt8) :
    ∃ t, consume_data s d = .ok (0, t, d) ∧ Filled t pre ∧ SameFrame s t := by
  obtain ⟨t, h_consume, h_t, h_same⟩ := consume_data_of_filled h d
  have h_min : min (s.target_size - pre.length) d.length = 0 := by omega
  rw [h_min, List.take_zero, List.append_nil] at h_t
  rw [h_min] at h_consume
  exact ⟨t, h_consume, h_t, h_same⟩

/-- A frame that is not decoded stays where it is. -/
theorem complete_again {pools : Pools} (h : pools.Ample) (frame_max : ℤ) {raw : List UInt8}
    {e : Status} (h_decode : decodeRaw raw = .ok (.error e)) (s : Inbound) (d : List UInt8)
    (h_complete : Complete frame_max s raw) (h_d : d ≠ []) :
    ∃ t, amqp_handle_input pools s d = .ok (.error e, t) ∧ Complete frame_max t raw := by
  have h_filled : Filled s raw := by
    refine ⟨?_, h_complete.offset_eq, h_complete.target_eq.ge, ?_, h_complete.not_null⟩
    · rw [h_complete.raw_frame_eq, List.take_length]
    · rw [h_complete.raw_frame_eq, h_complete.target_eq]
  obtain ⟨t, h_consume, h_t, h_same⟩ := consume_data_full h_filled h_complete.target_eq d
  have h_state : t.state = .body := h_same.state.trans h_complete.state_eq
  have h_target : t.target_size = raw.length := h_same.target_size.trans h_complete.target_eq
  have h_raw : t.raw_frame = raw := by
    have h_take := h_t.take_eq
    rw [List.take_of_length_le (by rw [h_same.length_raw, h_complete.raw_frame_eq])] at h_take
    exact h_take
  have h_idle : ¬ s.state = .idle := by
    rw [h_complete.state_eq]
    exact fun h_eq => by cases h_eq
  have h_body : amqp_handle_input pools s d = handleBody pools 0 t 0 := by
    rw [amqp_handle_input_eq pools h_d (by rw [Inbound.awake_of_ne h_idle]; exact h_consume),
      h_t.offset, h_target, if_neg (Nat.lt_irrefl _), handleState, h_state]
  have h_finishes := finishes_handleBody h h_raw h_target 0 0
  rw [h_decode] at h_finishes
  obtain ⟨cs, h_call⟩ := h_finishes
  exact ⟨{ t with channels := cs }, h_body.trans h_call,
    h_same.frame_max.trans h_complete.frame_max_eq,
    h_same.length_header.trans h_complete.length_header, h_state, h_raw, h_target, h_t.offset,
    h_t.not_null⟩

/-- A size that is not less than `INT32_MAX` is looked at again. -/
theorem oversized_again {pools : Pools} {frame_max : ℤ} {pre : List UInt8}
    (h_size : frameSize pre ≥ INT32_MAX) (s : Inbound) (d : List UInt8)
    (h_over : Oversized frame_max s pre) (h_d : d ≠ []) :
    ∃ t, amqp_handle_input pools s d = .ok (.error .badAmqpData, t) ∧
      Oversized frame_max t pre := by
  have h_target : s.target_size = HEADER_SIZE := by
    rcases h_over.target with ⟨-, h⟩ | ⟨h, -⟩
    · exact h
    · omega
  have h_filled : Filled s pre := by
    have h_f := h_over.filled
    rw [← h_target] at h_f
    exact h_f
  obtain ⟨t, h_consume, h_t, h_same⟩ :=
    consume_data_full h_filled (h_target.trans h_over.length_eq.symm) d
  have h_state : t.state = .header := h_same.state.trans h_over.state_eq
  have h_t_target : t.target_size = HEADER_SIZE := h_same.target_size.trans h_target
  have h_idle : ¬ s.state = .idle := by
    rw [h_over.state_eq]
    exact fun h_eq => by cases h_eq
  have h_head : amqp_handle_input pools s d = handleHeader pools t 0 d := by
    rw [amqp_handle_input_eq pools h_d (by rw [Inbound.awake_of_ne h_idle]; exact h_consume),
      h_t.offset, h_t_target, h_over.length_eq, if_neg (Nat.lt_irrefl _), handleState, h_state]
  have h_at : AtHeader frame_max t pre := h_t.atHeader h_over.length_eq
    (h_same.frame_max.trans h_over.frame_max_eq) (h_same.length_header.trans h_over.length_header)
    (h_same.buffer.mp h_over.buffer)
  rw [h_head]
  exact oversized_of_bad pools h_at h_t h_state h_t_target (.inl h_size) d 0

/-- A frame that is larger than `frame_max` is taken up in `header_buffer`. -/
theorem overflow_of_oversized {pools : Pools} {frame_max : ℤ} {s : Inbound} {pre : List UInt8}
    (h_over : Oversized frame_max s pre) (h_target : s.target_size = frameSize pre + 8)
    (h_size : 1 ≤ frameSize pre) {d : List UInt8} (h_d : 2 ≤ d.length) :
    amqp_handle_input pools s d = .error (.fault .outOfBounds) := by
  have h_offset : s.inbound_offset = 7 := h_over.filled.offset.trans h_over.length_eq
  have h_header : s.header_buffer.length = 8 := h_over.length_header
  have h_idle : ¬ s.state = .idle := by
    rw [h_over.state_eq]
    exact fun h_eq => by cases h_eq
  obtain ⟨k, h_k⟩ : ∃ k, min (frameSize pre + 8 - 7) d.length = k := ⟨_, rfl⟩
  have h_patch : patch s.header_buffer 7 (d.take k) = .error (.fault .outOfBounds) := by
    refine if_neg ?_
    rw [List.length_take, h_header]
    omega
  have h_consume : consume_data s d = .error (.fault .outOfBounds) := by
    rw [consume_data, h_offset, h_target, h_k, h_over.buffer]
    dsimp only
    rw [h_patch]
    rfl
  rw [amqp_handle_input, if_neg (by omega), Inbound.awake_of_ne h_idle, h_consume]
  rfl

/-- After a call that returned an error, every further call returns it again, and nothing of what
arrives is taken. After a frame that is larger than `frame_max` the next call writes past the end of
`header_buffer` instead. -/
theorem inputs_after_error {pools : Pools} (h : pools.Ample) {frame_max : ℤ} {s t : Inbound}
    {pre d : List UInt8} {e : Status} (h_pending : Pending frame_max s pre) (h_d : d ≠ [])
    (h_error : amqp_handle_input pools s d = .ok (.error e, t)) :
    (∀ ds, (∀ c ∈ ds, c ≠ []) → ∃ u, inputs pools t ds = .ok (ds.map fun _ => .error e, u)) ∨
      e = .badAmqpData ∧ HEADER_SIZE ≤ (pre ++ d).length ∧ frameSize (pre ++ d) < INT32_MAX ∧
        sizeT frame_max < frameSize (pre ++ d) + 8 ∧
        (1 ≤ frameSize (pre ++ d) → ∀ c, 2 ≤ c.length →
          amqp_handle_input pools t c = .error (.fault .outOfBounds)) := by
  have h_decides := decides_amqp_handle_input h h_pending h_d
  cases h_scan : scanFrame frame_max (pre ++ d) with
  | more =>
    obtain ⟨u, h_call, -⟩ := h_decides.more h_scan
    rw [h_error] at h_call
    cases h_call
  | token n =>
    -- the frame is complete, but it is not decoded
    obtain ⟨u, h_complete, h_finishes⟩ := h_decides.token h_scan
    cases h_decode : decodeRaw ((pre ++ d).take n) with
    | error stop =>
      rw [h_decode] at h_finishes
      have h_call : amqp_handle_input pools s d = .error stop := h_finishes
      rw [h_error] at h_call
      cases h_call
    | ok res =>
      rw [h_decode] at h_finishes
      cases res with
      | ok frame =>
        obtain ⟨cs, h_call⟩ := h_finishes
        rw [h_error] at h_call
        cases h_call
      | error e' =>
        obtain ⟨cs, h_call⟩ := h_finishes
        rw [h_error] at h_call
        cases h_call
        refine .inl fun ds h_ds => inputs_of_invariant
          (complete_again h frame_max h_decode) ?_ h_ds
        exact ⟨h_complete.frame_max_eq, h_complete.length_header, h_complete.state_eq,
          h_complete.raw_frame_eq, h_complete.target_eq, h_complete.offset_eq, h_complete.not_null⟩
  | bad =>
    obtain ⟨u, h_call, h_over⟩ := h_decides.bad h_scan
    rw [h_error] at h_call
    cases h_call
    have h_len : HEADER_SIZE ≤ (pre ++ d).length := (scanFrame_bad_iff.mp h_scan).1
    have h_size : frameSize ((pre ++ d).take HEADER_SIZE) = frameSize (pre ++ d) :=
      frameSize_take _ le_rfl h_len
    rcases h_over.target with ⟨h_large, -⟩ | ⟨h_small, h_fits, h_target⟩
    · exact .inl fun ds h_ds => inputs_of_invariant (oversized_again h_large) h_over h_ds
    · rw [h_size] at h_small h_fits
      refine .inr ⟨rfl, h_len, h_small, h_fits, fun h_one c h_c => ?_⟩
      exact overflow_of_oversized h_over h_target (h_size ▸ h_one) h_c

theorem inputs_after_end_byte :
    ∃ t, amqp_handle_input .zeroed (.between 4096) [8, 0, 0, 0, 0, 0, 0, 0] =
        .ok (.error .badAmqpData, t) ∧
      ∀ ds, (∀ c ∈ ds, c ≠ []) →
        ∃ u, inputs .zeroed t ds = .ok (ds.map fun _ => .error .badAmqpData, u) := by
  obtain ⟨t, h_error⟩ : ∃ t, amqp_handle_input .zeroed (.between 4096) [8, 0, 0, 0, 0, 0, 0, 0] =
    .ok (.error .badAmqpData, t) := ⟨_, rfl⟩
  refine ⟨t, h_error, ?_⟩
  rcases inputs_after_error ample_zeroed (pending_between 4096) (List.cons_ne_nil _ _) h_error with
    h | ⟨-, -, -, h_max, -⟩
  · exact h
  · -- the frame is not larger than `frame_max`
    exact absurd h_max (by decide)

end Amqp
end WateRMQ
