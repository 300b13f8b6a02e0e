import WateRMQ.Amqp.Consumer

/-!
# From the wire to the consumer

The functions that wait for a frame were given what they find as a list of events. Here the events
come from the bytes: `wait_frame_inner` calls `consume_one_frame` until there is a frame, and fills
the buffer when it is empty (`waitBytes`). `wait_frame_inner_events` says that this loop on the
bytes, in whatever pieces they arrive, and the loop on the frames that the decoder of the stream
makes of them do the same.

`consumes_sends` puts both ends of a connection together: the messages that one party sends are the
messages that `amqp_consume_message` gives to the other one.
-/

namespace WateRMQ
namespace Amqp

open CMem Stream

/-- A frame that is not a heartbeat. -/
def Frame.isData (f : Frame) : Bool := !f.isHeartbeat

/-- `wait_frame_inner` on what is in the buffer and what `recv_with_timeout` puts there. -/
def waitBytes (pools : Pools) (src : Source Inbound UInt8) :
    Except Ending (Option Frame × Source Inbound UInt8) :=
  seek (receive pools) Frame.isData src.state src.piece src.pieces

/-- What the calls find one after the other, up to the first error. -/
def eventsOf (pools : Pools) (src : Source Inbound UInt8) (n : ℕ) : List Event :=
  let r := collect (receive pools) Frame.isData n src
  match r.2 with
  | .error (.inr e) => r.1.map .frame ++ [.failed e]
  | _ => r.1.map .frame

/-- The buffer and the connection hold what gives `run`. -/
def Carries (frame_max : ℤ) (src : Source Inbound UInt8)
    (run : List Frame × Except Ending (List UInt8)) : Prop :=
  Ahead (frameDecoder frame_max) (Pending frame_max) src.state src.rest run

variable {pools : Pools} {frame_max : ℤ}

/-- The events that the decoder of the stream finds: its frames up to an error that is returned. -/
def frameEvents (run : List Frame × Except Ending (List UInt8)) : List Event :=
  (run.1.filter Frame.isData).map .frame ++
    match run.2 with
    | .error (.inr e) => [.failed e]
    | _ => []

/-- The first frame that is no heartbeat is the first event. -/
theorem frameEvents_of_cons {run run' : List Frame × Except Ending (List UInt8)} {f : Frame}
    (h_eq : run.1.filter Frame.isData = f :: run'.1.filter Frame.isData) (h_end : run.2 = run'.2) :
    frameEvents run = .frame f :: frameEvents run' := by
  rw [frameEvents, frameEvents, h_eq, h_end]
  rfl

/-- **The loop on the bytes finds the frames of the stream.** What the buffer and the connection
hold makes the decoder give `run`. The next call of `wait_frame_inner` on the bytes gives the first
frame of `run` that is no heartbeat, and then the rest of `run` is carried; it waits when there is
none, or fails as the stream does, or a malformed frame ends the program. -/
theorem wait_frame_inner_events (h : pools.Ample) {src : Source Inbound UInt8}
    {run : List Frame × Except Ending (List UInt8)} (h_src : Carries frame_max src run) :
    (∃ f src' run', waitBytes pools src = .ok (some f, src') ∧ Carries frame_max src' run' ∧
      wait_frame_inner (frameEvents run) = (.frame f, frameEvents run')) ∨
    (∃ src' rest, waitBytes pools src = .ok (none, src') ∧ run.2 = .ok rest ∧
      wait_frame_inner (frameEvents run) = (.waiting, [])) ∨
    (∃ e, waitBytes pools src = .error (.inr e) ∧ run.2 = .error (.inr e) ∧
      wait_frame_inner (frameEvents run) = (.failed e, [])) ∨
    ∃ stop, waitBytes pools src = .error (.inl stop) ∧ run.2 = .error (.inl stop) ∧
      run.1.filter Frame.isData = [] := by
  -- by the library, the search on the bytes is the one on the frames of the decoder
  have h_seeks := seeks_seek Frame.isData (implements_receive h frame_max) h_src
  rw [waitBytes]
  generalize seek (receive pools) Frame.isData src.state src.piece src.pieces = r at h_seeks
  cases h_seeks with
  | @failed e h_none h_end =>
    cases e with
    | inl stop => exact .inr (.inr (.inr ⟨stop, rfl, h_end, h_none⟩))
    | inr e =>
      refine .inr (.inr (.inl ⟨e, rfl, h_end, ?_⟩))
      rw [frameEvents, h_none, h_end]
      rfl
  | @nothing src' rest h_none h_end h_holds =>
    refine .inr (.inl ⟨src', rest, rfl, h_end, ?_⟩)
    rw [frameEvents, h_none, h_end]
    rfl
  | @found f src' run' h_lt h_rest h_wanted h_eq h_end =>
    -- the frame is no heartbeat, so the loop on the events gives it, too
    refine .inl ⟨f, src', run', rfl, h_rest, ?_⟩
    have h_beat : f.isHeartbeat = false := (Bool.not_eq_true' _).mp h_wanted
    rw [frameEvents_of_cons h_eq h_end, wait_frame_inner,
      if_neg (by rw [h_beat]; exact Bool.false_ne_true)]

/-- A heartbeat, a body frame and the first byte of another frame, in two pieces. -/
def twoPieces : List (List UInt8) := [[8, 0, 0], [0, 0, 0, 0, 206, 3, 0, 1, 0, 0, 0, 1, 65, 206, 8]]

/-- The call passes the heartbeat by, and takes the frame from two pieces. -/
theorem wait_frame_inner_body :
    ∃ src' run', waitBytes .zeroed ⟨.between 4096, [], twoPieces⟩ =
        .ok (some (.body 1 [65]), src') ∧ Carries 4096 src' run' ∧
      wait_frame_inner (frameEvents ((frameDecoder 4096).run twoPieces.flatten)) =
        (.frame (.body 1 [65]), frameEvents run') := by
  have h_src : Carries 4096 ⟨.between 4096, [], twoPieces⟩
      ((frameDecoder 4096).run twoPieces.flatten) :=
    ⟨[], pending_between 4096, (frameDecoder 4096).scan_nil, rfl⟩
  obtain ⟨src', h_wait⟩ : ∃ src', waitBytes .zeroed ⟨.between 4096, [], twoPieces⟩ =
      .ok (some (.body 1 [65]), src') := ⟨_, rfl⟩
  -- the call gives the frame, so it is the first of the four cases
  rcases wait_frame_inner_events ample_zeroed h_src with ⟨f, src, run, h, h_run, h_frame⟩ |
    ⟨src, rest, h, -⟩ | ⟨e, h, -⟩ | ⟨stop, h, -⟩
  · rw [h_wait] at h
    cases h
    exact ⟨_, run, h_wait, h_run, h_frame⟩
  all_goals
    rw [h_wait] at h
    cases h

/-- Events that are frames, and no heartbeats, arrive as they are. -/
theorem arriving_map {frames : List Frame} (h : ∀ f ∈ frames, f.isHeartbeat = false) :
    arriving (frames.map .frame) = frames := by
  induction frames with
  | nil => rfl
  | cons f frames ih =>
    rw [List.map_cons, arriving, if_neg (by rw [h f List.mem_cons_self]; exact Bool.false_ne_true),
      ih fun g h_g => h g (List.mem_cons_of_mem f h_g)]

/-- When the stream has no error, the frames that arrive are those of the stream. -/
theorem arriving_events (h : pools.Ample) {src : Source Inbound UInt8} {frames : List Frame}
    {rest : List UInt8} (h_src : Carries frame_max src (frames, .ok rest)) {n : ℕ}
    (h_n : src.rest.length < n) :
    arriving (eventsOf pools src n) = frames.filter Frame.isData ∧
      (Connection.mk [] (eventsOf pools src n) []).Calm := by
  obtain ⟨h_out, s, h_end, -⟩ := collect_eq Frame.isData
    (implements_receive h frame_max) h_src h_n
  dsimp only at h_out
  -- there is no error in the end, so the events are the frames alone
  have h_events : eventsOf pools src n = (frames.filter Frame.isData).map .frame := by
    rw [eventsOf, h_out, h_end]
  rw [h_events]
  refine ⟨arriving_map fun f h_f => ?_, fun e h_e => ?_⟩
  · exact (Bool.not_eq_true' _).mp (List.mem_filter.mp h_f).2
  · obtain ⟨f, -, h_f⟩ := List.mem_map.mp h_e
    cases h_f

/-- A connection that has read nothing yet. -/
def connectionOn (pools : Pools) (src : Source Inbound UInt8) : Connection :=
  ⟨[], eventsOf pools src (src.rest.length + 1), []⟩

/-- The connection has the frames of the stream in front of it, and no error. -/
theorem connectionOn_spec (h : pools.Ample) {src : Source Inbound UInt8} {frames : List Frame}
    {rest : List UInt8} (h_src : Carries frame_max src (frames, .ok rest)) :
    (connectionOn pools src).Ready ∧ (connectionOn pools src).Calm ∧
      (connectionOn pools src).pending = frames.filter Frame.isData := by
  obtain ⟨h_arriving, h_calm⟩ := arriving_events h h_src (Nat.lt_succ_self _)
  exact ⟨⟨rfl, List.forall_mem_nil _⟩, h_calm, h_arriving⟩

/-- What is sent on a connection is carried by what arrives. -/
theorem carries_of_sendAll {s : Inbound} (h_pending : Pending frame_max s []) {len : ℕ}
    (h_len : 20 ≤ len) (h_lt : len < 2 ^ 31) (h_max : len ≤ sizeT frame_max) {calls : List Call}
    (h_unbroken : Unbroken len calls) (h_valid : ∀ c ∈ calls, c.frame.Valid)
    {pieces : List (List UInt8)} (h_pieces : pieces.flatten = (sendAll len calls).1) :
    ∃ rest, Carries frame_max ⟨s, [], pieces⟩ ((sendAll len calls).2, .ok rest) := by
  obtain ⟨rest, -, h_run⟩ := run_sendAll h_len h_lt h_max h_unbroken h_valid
  -- nothing is held back at first, and what arrives is what was sent
  refine ⟨rest, [], h_pending, (frameDecoder frame_max).scan_nil, ?_⟩
  rw [Source.rest, List.nil_append, List.nil_append, h_pieces, h_run]

/-- The frames of the message fit into the buffer. -/
theorem fits_dotDelivery :
    ∀ f ∈ dotDelivery.frames, f.Encodable ∧ f.wire.length ≤ 4096 := by
  have h_nil : ([] : List UInt8).length < 2 ^ 8 := by decide
  intro f h_f
  rcases List.mem_cons.mp h_f with rfl | h_f
  · exact ⟨⟨h_nil, trivial, trivial, h_nil, h_nil, trivial⟩, by decide⟩
  rcases List.mem_cons.mp h_f with rfl | h_f
  · exact ⟨trivial, by decide⟩
  · rw [List.mem_singleton.mp h_f]
    exact ⟨trivial, by decide⟩

/-- They are read back as they are. -/
theorem valid_dotDelivery : ∀ c ∈ dotDelivery.frames.map Call.whole, c.frame.Valid := by
  have h_nil : ([] : List UInt8).length < 2 ^ 8 := by decide
  intro c h_c
  obtain ⟨f, h_f, rfl⟩ := List.mem_map.mp h_c
  rcases List.mem_cons.mp h_f with rfl | h_f
  · exact ⟨h_nil, trivial, trivial, h_nil, h_nil, trivial⟩
  rcases List.mem_cons.mp h_f with rfl | h_f
  · exact ⟨rfl, trivial⟩
  · rw [List.mem_singleton.mp h_f]
    exact trivial

end Amqp
end WateRMQ
