import WateRMQ.Amqp.FrameQueue
import WateRMQ.Amqp.Transmission

/-!
# Messages

`amqp_read_message` and `amqp_consume_message` of `amqp_consumer.c`. A message arrives as a header
with the size of the body and the body in fragments. Between them, there may be frames of other
channels and heartbeats.

`amqp_read_message_normal` says that a message that is read is put together from the frames of its
channel, and `consumes_deliveries` that one call after the other gives one message after the other.
`consumes_other` is about the frame that is not a delivery: it is put back, and every further call
finds it again.
-/

namespace WateRMQ
namespace Amqp

open CMem

/-! ### The functions of the source -/

/-- `amqp_message_t`. -/
structure Message where
  properties : Properties
  body : List UInt8

/-- `amqp_envelope_t`. -/
structure Envelope where
  channel : BitVec 16
  consumer_tag : List UInt8
  delivery_tag : BitVec 64
  redelivered : BitVec 1
  exchange : List UInt8
  routing_key : List UInt8
  message : Message

/-- `amqp_rpc_reply_t`, or a call that still waits, with what the call leaves in the object of its
caller: the result, or whether the pointer to the body is to memory that was freed again. -/
inductive Reply (α : Type)
  | waiting
  | normal (a : α)
  | libraryException (library_error : Status) (freed : Bool)
  | serverException (reply : Method) (freed : Bool)

/-- Which allocations of a call succeed: the copies in the envelope, those in the properties, and
the body. -/
structure Memory where
  envelope : Bool
  properties : Bool
  body : Bool

/-- A method that closes the channel or the connection. -/
def Method.closes (m : Method) : Bool := m.id = .channelClose ∨ m.id = .connectionClose

/-- `amqp_basic_properties_clone`. The properties of every other class are only flags, and what is
read behind them does not belong to them. -/
def amqp_basic_properties_clone (memory : Bool) (p : Properties) :
    Except Fault (Except Status Properties) :=
  if p.class_id ≠ .basic ∧ present p.flags .basic ≠ [] then .error .outOfBounds
  else if memory then .ok (.ok p)
  else .ok (.error .noMemory)

/-- The `while` loop of `amqp_read_message`, with the body so far. -/
def readBody (channel : BitVec 16) (len : ℕ) (body : List UInt8) (s : Connection) :
    Reply (List UInt8) × Connection :=
  if body.length < len then
    match _h : amqp_simple_wait_frame_on_channel channel s with
    | (.waiting, s) => (.waiting, s)
    | (.failed e, s) => (.libraryException e true, s)
    | (.frame (.body _ body_fragment), t) =>
      if len < body.length + body_fragment.length then (.libraryException .badAmqpData true, t)
      else readBody channel len (body ++ body_fragment) t
    | (.frame (.method _ m), s) =>
      if m.closes then (.serverException m true, s) else (.libraryException .badAmqpData true, s)
    | (.frame _, s) => (.libraryException .badAmqpData true, s)
  else (.normal body, s)
termination_by s.queued.length + s.events.length
decreasing_by exact length_on_channel _h

/-- `amqp_read_message`. -/
def amqp_read_message (memory : Memory) (channel : BitVec 16) (s : Connection) :
    Except Fault (Reply Message × Connection) :=
  match amqp_simple_wait_frame_on_channel channel s with
  | (.waiting, s) => .ok (.waiting, s)
  | (.failed e, s) => .ok (.libraryException e false, s)
  | (.frame (.header _ body_size p), s) => do
    let properties ← amqp_basic_properties_clone memory.properties p
    match properties with
    | .error e => return (.libraryException e false, s)
    | .ok properties =>
      if body_size ≠ 0 ∧ !memory.body then return (.libraryException .noMemory false, s)
      else
        match readBody channel body_size.toNat [] s with
        | (.waiting, s) => return (.waiting, s)
        | (.normal body, s) => return (.normal ⟨properties, body⟩, s)
        | (.libraryException e freed, s) => return (.libraryException e freed, s)
        | (.serverException m freed, s) => return (.serverException m freed, s)
  | (.frame f, s) =>
    match f with
    | .method _ m =>
      if m.closes then .ok (.serverException m false, s)
      else .ok (.libraryException .unexpectedState false, (amqp_put_back_frame s f).2)
    | _ => .ok (.libraryException .unexpectedState false, (amqp_put_back_frame s f).2)

/-- `amqp_basic_deliver_t`. -/
def deliver (consumer_tag : List UInt8) (delivery_tag : BitVec 64) (redelivered : BitVec 1)
    (exchange routing_key : List UInt8) : Method :=
  ⟨.basicDeliver, consumer_tag, delivery_tag, redelivered, exchange, routing_key, ()⟩

/-- `amqp_consume_message`. -/
def amqp_consume_message (memory : Memory) (s : Connection) :
    Except Fault (Reply Envelope × Connection) :=
  match amqp_simple_wait_frame_noblock s with
  | (.waiting, s) => .ok (.waiting, s)
  | (.failed e, s) => .ok (.libraryException e false, s)
  | (.frame (.method channel ⟨.basicDeliver, consumer_tag, delivery_tag, redelivered, exchange,
      routing_key, _⟩), s) =>
    if !memory.envelope then .ok (.libraryException .noMemory false, s)
    else do
      let r ← amqp_read_message memory channel s
      match r with
      | (.waiting, s) => return (.waiting, s)
      | (.normal message, s) => return (.normal ⟨channel, consumer_tag, delivery_tag, redelivered,
          exchange, routing_key, message⟩, s)
      | (.libraryException e freed, s) => return (.libraryException e freed, s)
      | (.serverException m freed, s) => return (.serverException m freed, s)
  | (.frame f, s) => .ok (.libraryException .unexpectedState false, (amqp_put_back_frame s f).2)

/-! ### What is put together -/

/-- The frames of a message behind the method. -/
def messageFrames (channel : BitVec 16) (body_size : BitVec 64) (p : Properties)
    (fragments : List (List UInt8)) : List Frame :=
  .header channel body_size p :: fragments.map (.body channel)

/-- A body frame of the channel. -/
theorem body_of_channel {channel : BitVec 16} {f : Frame} {c : BitVec 16} {v : List UInt8}
    (h_f : f = .body c v) (h : channel = f.channel) : f = .body channel v := by
  subst h_f
  rw [h]
  rfl

/-- A body that is read is put together from the next frames of the channel, up to its size. -/
theorem readBody_normal {channel : BitVec 16} {len : ℕ} {body full : List UInt8}
    {s t : Connection} (h : s.Ready) (h_le : body.length ≤ len)
    (h_call : readBody channel len body s = (.normal full, t)) :
    ∃ fragments : List (List UInt8), full = body ++ fragments.flatten ∧ full.length = len ∧
      t.Ready ∧ onChannel channel s.pending =
        fragments.map (.body channel) ++ onChannel channel t.pending ∧
      ∀ c, (onChannel c t.pending).Sublist (onChannel c s.pending) := by
  -- each call that gives a frame leaves fewer frames and events
  induction h_len : s.queued.length + s.events.length using Nat.strongRecOn
    generalizing s body with
  | _ m ih =>
    rw [readBody] at h_call
    split at h_call
    -- the body has its size, and nothing more is taken
    case isFalse h_full =>
      cases h_call
      exact ⟨[], (List.append_nil _).symm, by omega, h, rfl, fun c => List.Sublist.refl _⟩
    case isTrue h_part =>
      split at h_call
      case h_1 => cases h_call
      case h_2 => cases h_call
      case h_3 c v u h_wait =>
        split at h_call
        · cases h_call
        case isFalse h_fits =>
          obtain ⟨h_u, h_channel, h_pending, h_sub⟩ := on_channel_frame h h_wait
          have h_lt := length_on_channel h_wait
          -- the fragment goes behind what there is, and the rest of the body follows
          obtain ⟨fragments, h_eq, h_total, h_t, h_rest, h_sub'⟩ := ih _ (h_len ▸ h_lt) h_u
            (by rw [List.length_append]; omega) h_call rfl
          refine ⟨v :: fragments, ?_, h_total, h_t, ?_, fun c => (h_sub' c).trans (h_sub c)⟩
          · rw [h_eq, List.flatten_cons, List.append_assoc]
          · rw [h_pending, body_of_channel rfl h_channel, h_rest]
            rfl
      case h_4 => split at h_call <;> cases h_call
      case h_5 => cases h_call

/-- A message that is read is put together from frames of its channel: the next one is its header,
with its properties and the size of its body, and the body lies in those that follow it. -/
theorem amqp_read_message_normal {memory : Memory} {channel : BitVec 16} {s t : Connection}
    {message : Message} (h : s.Ready)
    (h_call : amqp_read_message memory channel s = .ok (.normal message, t)) :
    ∃ body_size fragments, message.body = fragments.flatten ∧
      message.body.length = body_size.toNat ∧ t.Ready ∧ onChannel channel s.pending =
        messageFrames channel body_size message.properties fragments ++
          onChannel channel t.pending ∧
      ∀ c, (onChannel c t.pending).Sublist (onChannel c s.pending) := by
  rw [amqp_read_message] at h_call
  split at h_call
  case h_1 => cases h_call
  case h_2 => cases h_call
  case h_3 c body_size p u h_wait =>
    obtain ⟨h_u, h_channel, h_pending, h_sub⟩ := on_channel_frame h h_wait
    obtain ⟨properties, h_clone, h_rest⟩ := bind_eq_ok.mp h_call
    cases properties with
    | error e => cases h_rest
    | ok properties =>
      -- a clone that does not fail is the same
      have h_same : properties = p := by
        rw [amqp_basic_properties_clone] at h_clone
        split at h_clone
        · cases h_clone
        split at h_clone <;> cases h_clone
        rfl
      dsimp only at h_rest
      split at h_rest
      · cases h_rest
      -- only a body that was read to its end makes a message
      cases h_body : readBody channel body_size.toNat [] u with
      | mk r v =>
        rw [h_body] at h_rest
        cases r with
        | waiting => cases h_rest
        | libraryException e freed => cases h_rest
        | serverException m freed => cases h_rest
        | normal body =>
          cases h_rest
          obtain ⟨fragments, h_eq, h_total, h_t, h_frames, h_sub'⟩ :=
            readBody_normal h_u (Nat.zero_le _) h_body
          refine ⟨body_size, fragments, h_eq, h_total, h_t, ?_, fun c => (h_sub' c).trans (h_sub c)⟩
          have h_header : Frame.header c body_size p = .header channel body_size p := by
            rw [h_channel]
            rfl
          rw [h_pending, h_frames, h_header, h_same]
          rfl
  case h_4 =>
    split at h_call
    · split at h_call <;> cases h_call
    · cases h_call

/-! ### What arrives is read -/

/-- Calls on the channel give the frames of the channel one after the other: `V s frames` says that
they are the next ones in `s`. -/
def Gives (channel : BitVec 16) (V : Connection → List Frame → Prop) : Prop :=
  ∀ s f rest, V s (f :: rest) → f.channel = channel →
    ∃ t, amqp_simple_wait_frame_on_channel channel s = (.frame f, t) ∧ V t rest

/-- In the frames of the channel, wherever they are. -/
theorem gives_onChannel (channel : BitVec 16) :
    Gives channel fun s frames => s.Ready ∧ s.Calm ∧ onChannel channel s.pending = frames := by
  rintro s f rest ⟨h, h_calm, h_first⟩ -
  exact on_channel_calm h h_calm h_first

/-- In all frames, where the next one is on the channel. -/
theorem gives_pending (channel : BitVec 16) :
    Gives channel fun s frames => s.Ready ∧ s.Calm ∧ s.pending = frames := by
  rintro s f rest ⟨h, h_calm, h_first⟩ rfl
  exact on_channel_first h h_calm h_first

section Complete

variable {channel : BitVec 16} {V : Connection → List Frame → Prop}

/-- The loop takes one body frame. -/
theorem readBody_body {len : ℕ} {body v : List UInt8} {c : BitVec 16} {s t : Connection}
    (h_wait : amqp_simple_wait_frame_on_channel channel s = (.frame (.body c v), t))
    (h_part : body.length < len) (h_fits : body.length + v.length ≤ len) :
    readBody channel len body s = readBody channel len (body ++ v) t := by
  rw [readBody, if_pos h_part]
  split
  case h_1 u h_other => rw [h_wait] at h_other; cases h_other
  case h_2 e u h_other => rw [h_wait] at h_other; cases h_other
  case h_3 d w u h_same =>
    rw [h_wait] at h_same
    cases h_same
    rw [if_neg (Nat.not_lt.mpr h_fits)]
  case h_4 d m u h_other => rw [h_wait] at h_other; cases h_other
  case h_5 f u h_body _ h_other =>
    rw [h_wait] at h_other
    cases h_other
    exact absurd rfl (h_body c v)

/-- The fragments of a body are read to the last one. -/
theorem readBody_of_gives (h : Gives channel V) {fragments : List (List UInt8)} {rest : List Frame}
    (h_fragments : [] ∉ fragments) (body : List UInt8) {s : Connection}
    (h_s : V s (fragments.map (.body channel) ++ rest)) :
    ∃ t, readBody channel (body.length + fragments.flatten.length) body s =
      (.normal (body ++ fragments.flatten), t) ∧ V t rest := by
  induction fragments generalizing body s with
  | nil =>
    refine ⟨s, ?_, h_s⟩
    rw [List.flatten_nil, List.append_nil, List.length_nil, Nat.add_zero, readBody,
      if_neg (Nat.lt_irrefl _)]
  | cons v fragments ih =>
    obtain ⟨h_v, h_rest⟩ := not_or.mp (fun h_mem => h_fragments (List.mem_cons.mpr h_mem))
    -- an empty fragment would not bring the body any nearer to its size
    have h_pos : 0 < v.length := List.length_pos_iff.mpr fun h_nil => h_v h_nil.symm
    obtain ⟨t, h_wait, h_t⟩ := h s _ _ h_s rfl
    obtain ⟨u, h_read, h_u⟩ := ih h_rest (body ++ v) h_t
    refine ⟨u, ?_, h_u⟩
    rw [List.flatten_cons, List.length_append, readBody_body h_wait (by omega) (by omega),
      ← Nat.add_assoc, ← List.length_append, h_read, List.append_assoc]

/-- The allocations of the call succeed. -/
def Memory.ample : Memory := ⟨true, true, true⟩

/-- A message whose frames are the next ones of the channel is read. -/
theorem amqp_read_message_of_gives (h : Gives channel V) {body_size : BitVec 64} {p : Properties}
    {fragments : List (List UInt8)} {rest : List Frame} (h_fragments : [] ∉ fragments)
    (h_size : fragments.flatten.length = body_size.toNat) (h_class : p.class_id = .basic)
    {s : Connection} (h_s : V s (messageFrames channel body_size p fragments ++ rest)) :
    ∃ t, amqp_read_message .ample channel s = .ok (.normal ⟨p, fragments.flatten⟩, t) ∧
      V t rest := by
  obtain ⟨t, h_wait, h_t⟩ := h s _ _ h_s rfl
  obtain ⟨u, h_read, h_u⟩ := readBody_of_gives h h_fragments [] h_t
  refine ⟨u, ?_, h_u⟩
  -- with memory the copy of basic properties succeeds
  have h_clone : amqp_basic_properties_clone true p = .ok (.ok p) := by
    rw [amqp_basic_properties_clone, if_neg fun h_not => h_not.1 h_class, if_pos rfl]
  rw [List.length_nil, Nat.zero_add, h_size, List.nil_append] at h_read
  rw [amqp_read_message, h_wait]
  change (amqp_basic_properties_clone true p >>= _) = _
  rw [h_clone]
  change (if body_size ≠ 0 ∧ (!true) = true then _ else _) = _
  rw [if_neg fun h_not => Bool.false_ne_true h_not.2, h_read]
  rfl

end Complete

/-- The header and the body of a message on channel 1, with a frame of channel 2 between them. -/
def dotQueued : Connection :=
  ⟨[], [.frame (.header 1 1 ⟨.basic, 0#32, ()⟩), .frame (.body 2 [47]), .frame (.body 1 [46])], []⟩

theorem ready_dotQueued : dotQueued.Ready := ⟨rfl, List.forall_mem_nil _⟩

theorem calm_dotQueued : dotQueued.Calm := by
  intro e h_e
  simp [dotQueued] at h_e

theorem first_dotQueued : onChannel 1 dotQueued.pending =
    messageFrames 1 1 ⟨.basic, 0#32, ()⟩ [[46]] ++ [] := rfl

theorem amqp_read_message_dot :
    ∃ t body_size fragments, amqp_read_message .ample 1 dotQueued =
        .ok (.normal ⟨⟨.basic, 0#32, ()⟩, [46]⟩, t) ∧
      onChannel 1 dotQueued.pending =
        messageFrames 1 body_size ⟨.basic, 0#32, ()⟩ fragments ++ onChannel 1 t.pending := by
  have h_fragments : [] ∉ [[(46 : UInt8)]] := by decide
  obtain ⟨t, h_call, -⟩ := amqp_read_message_of_gives (gives_onChannel 1) h_fragments rfl rfl
    ⟨ready_dotQueued, calm_dotQueued, first_dotQueued⟩
  obtain ⟨body_size, fragments, -, -, -, h_pending, -⟩ :=
    amqp_read_message_normal ready_dotQueued h_call
  exact ⟨t, body_size, fragments, h_call, h_pending⟩

/-! ### One message after the other -/

/-- A message on its way: what the consumer is to get, and the fragments of its body. -/
structure Delivery where
  envelope : Envelope
  fragments : List (List UInt8)
  flatten : fragments.flatten = envelope.message.body
  nonempty : [] ∉ fragments
  size : envelope.message.body.length < 2 ^ 64
  class_id : envelope.message.properties.class_id = .basic

/-- The frames of a delivery. -/
def Delivery.frames (d : Delivery) : List Frame :=
  let e := d.envelope
  .method e.channel
    (deliver e.consumer_tag e.delivery_tag e.redelivered e.exchange e.routing_key) ::
    messageFrames e.channel (BitVec.ofNat 64 e.message.body.length) e.message.properties d.fragments

/-- The delivery of one character. -/
def dotDelivery : Delivery where
  envelope := ⟨1, [], 1, 0, [], [], ⟨⟨.basic, 0#32, ()⟩, [46]⟩⟩
  fragments := [[46]]
  flatten := rfl
  nonempty := by decide
  size := by decide
  class_id := rfl

/-- Calls of `amqp_consume_message` one after the other. -/
def consumes : List Memory → Connection → Except Fault (List (Reply Envelope) × Connection)
  | [], s => .ok ([], s)
  | memory :: memories, s => do
    let r ← amqp_consume_message memory s
    let rest ← consumes memories r.2
    return (r.1 :: rest.1, rest.2)

/-- A delivery whose frames are the next ones is consumed. -/
theorem amqp_consume_message_delivery (d : Delivery) {rest : List Frame} {s : Connection}
    (h : s.Ready) (h_calm : s.Calm) (h_pending : s.pending = d.frames ++ rest) :
    ∃ t, amqp_consume_message .ample s = .ok (.normal d.envelope, t) ∧ t.Ready ∧ t.Calm ∧
      t.pending = rest := by
  obtain ⟨⟨channel, consumer_tag, delivery_tag, redelivered, exchange, routing_key,
    properties, body⟩,
    fragments, h_flatten, h_nonempty, h_size, h_class⟩ := d
  dsimp only at h_flatten h_size h_class
  subst h_flatten
  obtain ⟨t, h_wait, h_t⟩ := noblock_calm h h_calm h_pending
  -- the message is on the channel of the method
  obtain ⟨u, h_read, h_u⟩ := amqp_read_message_of_gives (gives_pending channel) h_nonempty
    (by rw [BitVec.toNat_ofNat, Nat.mod_eq_of_lt h_size]) h_class h_t
  refine ⟨u, ?_, h_u⟩
  rw [amqp_consume_message, h_wait]
  change (amqp_read_message .ample channel t >>= _) = _
  rw [h_read]
  rfl

/-- Deliveries whose frames are the next ones are consumed, one with each call and in their order,
each with its whole body. Nothing behind them is touched. -/
theorem consumes_deliveries (deliveries : List Delivery) {rest : List Frame} {s : Connection}
    (h : s.Ready) (h_calm : s.Calm)
    (h_pending : s.pending = deliveries.flatMap Delivery.frames ++ rest) :
    ∃ t, consumes (List.replicate deliveries.length .ample) s =
      .ok (deliveries.map (fun d => .normal d.envelope), t) ∧ t.Ready ∧ t.Calm ∧
        t.pending = rest := by
  induction deliveries generalizing s with
  | nil => exact ⟨s, rfl, h, h_calm, h_pending⟩
  | cons d deliveries ih =>
    rw [List.flatMap_cons, List.append_assoc] at h_pending
    obtain ⟨t, h_first, h_t, h_t_calm, h_t_pending⟩ :=
      amqp_consume_message_delivery d h h_calm h_pending
    obtain ⟨u, h_rest, h_u⟩ := ih h_t h_t_calm h_t_pending
    refine ⟨u, ?_, h_u⟩
    change (amqp_consume_message .ample s >>= _) = _
    rw [h_first]
    change (consumes (List.replicate deliveries.length .ample) t >>= _) = _
    rw [h_rest]
    rfl

/-! ### A frame that is not a delivery -/

/-- A frame that `amqp_consume_message` takes. -/
def Frame.isDelivery : Frame → Bool
  | .method _ m => m.id = .basicDeliver
  | _ => false

/-- Heartbeats do not arrive. -/
theorem not_heartbeat_of_arriving {events : List Event} {f : Frame} (h : f ∈ arriving events) :
    f.isHeartbeat = false := by
  induction events with
  | nil => cases h
  | cons event events ih =>
    cases event with
    | more => exact ih h
    | failed e => exact ih h
    | frame g =>
      rw [arriving] at h
      split at h
      · exact ih h
      case isFalse h_beat =>
        rcases List.mem_cons.mp h with rfl | h
        · exact Bool.eq_false_iff.mpr h_beat
        · exact ih h

/-- A frame that is waited for is no heartbeat. -/
theorem not_heartbeat_of_pending {s : Connection} {f : Frame} (h : f ∈ s.pending) :
    f.isHeartbeat = false := by
  rcases List.mem_append.mp h with h | h
  · exact (Bool.not_eq_true' _).mp (List.mem_filter.mp h).2
  · exact not_heartbeat_of_arriving h

/-- A frame that is put back is the next one. -/
theorem amqp_put_back_frame_spec {s : Connection} (h : s.Ready) {f : Frame}
    (h_beat : f.isHeartbeat = false) :
    (amqp_put_back_frame s f).2.Ready ∧ (amqp_put_back_frame s f).2.events = s.events ∧
      (amqp_put_back_frame s f).2.pending = f :: s.pending := by
  obtain ⟨queued, events, links⟩ := s
  obtain ⟨h_links, h_queued⟩ := h
  cases h_links
  refine ⟨⟨rfl, fun g h_g => ?_⟩, rfl, ?_⟩
  · rcases List.mem_cons.mp h_g with rfl | h_g
    · exact h_beat
    · exact h_queued g h_g
  · change (f :: queued).filter _ ++ _ = _
    rw [List.filter_cons_of_pos (by rw [h_beat]; rfl)]
    rfl

/-- When the next frame is not a delivery, it is put back, and nothing is consumed. -/
theorem amqp_consume_message_other (memory : Memory) {f : Frame} {rest : List Frame}
    {s : Connection} (h : s.Ready) (h_calm : s.Calm) (h_pending : s.pending = f :: rest)
    (h_f : f.isDelivery = false) :
    ∃ t, amqp_consume_message memory s = .ok (.libraryException .unexpectedState false, t) ∧
      t.Ready ∧
      t.Calm ∧ t.pending = s.pending := by
  have h_beat : f.isHeartbeat = false :=
    not_heartbeat_of_pending (by rw [h_pending]; exact List.mem_cons_self)
  obtain ⟨t, h_wait, h_t, h_t_calm, h_t_pending⟩ := noblock_calm h h_calm h_pending
  obtain ⟨h_back, h_events, h_back_pending⟩ := amqp_put_back_frame_spec h_t h_beat
  refine ⟨(amqp_put_back_frame t f).2, ?_, h_back, fun e => ?_, ?_⟩
  · rw [amqp_consume_message, h_wait]
    split
    case h_1 u h_eq => cases h_eq
    case h_2 e u h_eq => cases h_eq
    case h_3 h_eq =>
      cases h_eq
      cases h_f
    case h_4 g u _ h_eq =>
      cases h_eq
      rfl
  · rw [h_events]
    exact h_t_calm e
  · rw [h_back_pending, h_t_pending, h_pending]

/-- A frame that is not a delivery stays in front: every call after it finds it again, until another
function takes it. -/
theorem consumes_other (memories : List Memory) {f : Frame} {rest : List Frame} {s : Connection}
    (h : s.Ready) (h_calm : s.Calm) (h_pending : s.pending = f :: rest)
    (h_f : f.isDelivery = false) :
    ∃ t, consumes memories s =
      .ok (List.replicate memories.length (.libraryException .unexpectedState false), t) ∧
        t.Ready ∧ t.Calm ∧ t.pending = s.pending := by
  induction memories generalizing s with
  | nil => exact ⟨s, rfl, h, h_calm, rfl⟩
  | cons memory memories ih =>
    obtain ⟨t, h_first, h_t, h_t_calm, h_t_pending⟩ :=
      amqp_consume_message_other memory h h_calm h_pending h_f
    obtain ⟨u, h_rest, h_u, h_u_calm, h_u_pending⟩ :=
      ih h_t h_t_calm (h_t_pending.trans h_pending)
    refine ⟨u, ?_, h_u, h_u_calm, h_u_pending.trans h_t_pending⟩
    change (amqp_consume_message memory s >>= _) = _
    rw [h_first]
    change (consumes memories t >>= _) = _
    rw [h_rest]
    rfl

theorem consumes_other_body :
    ∃ t, consumes [.ample, .ample] ⟨[], [.frame (.body 1 [65])], []⟩ =
      .ok ([.libraryException .unexpectedState false,
        .libraryException .unexpectedState false], t) ∧
        t.pending = [.body 1 [65]] := by
  have h_calm : (⟨[], [.frame (.body 1 [65])], []⟩ : Connection).Calm := by
    intro e h_e
    cases List.mem_singleton.mp h_e
  obtain ⟨t, h_run, -, -, h_t⟩ := consumes_other [.ample, .ample] ⟨rfl, List.forall_mem_nil _⟩
    h_calm
    rfl rfl
  exact ⟨t, h_run, h_t⟩

end Amqp
end WateRMQ
