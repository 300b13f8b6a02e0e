import WateRMQ.Amqp.EndToEnd
import WateRMQ.Backend.Blocking

/-!
# From the broker to the shared queue

The loop `rabbitmqConsuming_private` over the library: what `amqp_consume_message` answers in a
round comes from the frames of the connection, and those come from what the broker sends.

* `consumingEvents_arrivals` — a delivery takes one round, and so does every other frame, which
  `amqp_consume_message` refuses and `retRequestHandling_private` takes away;
* `broker_to_queue` — of the messages that the broker sends only the first is ever in the shared
  queue, twice, as far as there is room: `sendMessage` keeps the unit of its lock;
* `other_frame_ends` — a first frame that is not a delivery ends the program when there is room in
  the queue.
-/

namespace WateRMQ
namespace Backend

open CMem Runs Stream

/-! ### The functions of the source -/

/-- The value of a status in `amqp_status_enum`. -/
def statusCode : Amqp.Status → ℤ
  | .noMemory => -0x0001
  | .badAmqpData => -0x0002
  | .unknownClass => -0x0003
  | .unknownMethod => -0x0004
  | .incompatibleAmqpVersion => -0x0006
  | .connectionClosed => -0x0007
  | .badUrl => -0x0008
  | .socketError => -0x0009
  | .invalidParameter => -0x000A
  | .tableTooBig => -0x000B
  | .wrongMethod => -0x000C
  | .timeout => -0x000D
  | .timerFailure => -0x000E
  | .heartbeatTimeout => -0x000F
  | .unexpectedState => amqpStatusUnexpectedState
  | .brokerUnsupportedSaslMethod => -0x0013

/-- The members of `amqp_frame_t` that `retRequestHandling_private` looks at. -/
def Frame.of (f : Amqp.Frame) : Frame where
  frameType := UInt8.ofBitVec f.frame_type
  methodId :=
    match f with
    | .method _ m => UInt32.ofBitVec m.id.code
    | _ => 0

/-- The reply of a call that came back. -/
def RpcReply.of {α : Type} : Amqp.Reply α → Option RpcReply
  | .waiting => none
  | .normal _ => some ⟨.normal, amqpStatusOk⟩
  | .libraryException e _ => some ⟨.libraryException, statusCode e⟩
  | .serverException _ _ => some ⟨.serverException, amqpStatusOk⟩

/-- The result of `amqp_consume_message`, where `behind` is what can be read behind the body. -/
def ConsumeResult.of (behind : List UInt8) : Amqp.Reply Amqp.Envelope → Option ConsumeResult
  | .waiting => none
  | .normal envelope => some (.delivered envelope.message.body behind)
  | .libraryException e freed => some (.libraryException (statusCode e) freed)
  | .serverException _ freed => some (.serverException freed)

/-- `AMQP_BASIC_RETURN_METHOD == frame.payload.method.id`. -/
def isReturn : Amqp.Frame → Bool
  | .method _ m => m.id = .basicReturn
  | _ => false

/-- The memory of a round: the allocations of its two calls, and what lies behind the body. -/
structure RoundMemory where
  consume : Amqp.Memory
  read : Amqp.Memory
  behind : List UInt8

/-- A reply that is not looked at. -/
def unread : RpcReply := ⟨.none, amqpStatusOk⟩

/-- What `retRequestHandling_private` takes from the connection. The frame that it is given has no
value yet, and `unset` stands for it. -/
def handlingEvent (unset : Frame) (memory : Amqp.Memory) (r : ConsumeResult) (s : Amqp.Connection) :
    Except Fault (Option Event × Amqp.Connection) :=
  if r.reply = ⟨.libraryException, amqpStatusUnexpectedState⟩ then
    match Amqp.amqp_simple_wait_frame_noblock s with
    | (.waiting, s) => .ok (none, s)
    | (.failed e, s) => .ok (some ⟨r, statusCode e, unset, unread⟩, s)
    | (.frame f, s) =>
      if isReturn f then do
        let (reply, s) ← Amqp.amqp_read_message memory f.channel s
        return ((RpcReply.of reply).map fun read => ⟨r, amqpStatusOk, .of f, read⟩, s)
      else .ok (some ⟨r, amqpStatusOk, .of f, unread⟩, s)
  else .ok (some ⟨r, amqpStatusOk, unset, unread⟩, s)

/-- What the library answers in a round of `rabbitmqConsuming_private`, when it does not wait. -/
def consumingEvent (unset : Frame) (memory : RoundMemory) (s : Amqp.Connection) :
    Except Fault (Option Event × Amqp.Connection) := do
  let (reply, s) ← Amqp.amqp_consume_message memory.consume s
  match ConsumeResult.of memory.behind reply with
  | none => return (none, s)
  | some r => handlingEvent unset memory.read r s

/-- The rounds one after the other, up to the first one that waits. -/
def consumingEvents (unset : Frame) :
    List RoundMemory → Amqp.Connection → Except Fault (List Event × Amqp.Connection)
  | [], s => .ok ([], s)
  | memory :: memories, s => do
    let (e, s) ← consumingEvent unset memory s
    match e with
    | none => return ([], s)
    | some e =>
      let (es, s) ← consumingEvents unset memories s
      return (e :: es, s)

/-! ### One round for each arrival -/

/-- What a broker sends: a message, or a frame that is neither the beginning of one nor of a message
that comes back. -/
inductive Arrival
  | delivery (d : Amqp.Delivery)
  | other (f : Amqp.Frame) (h_delivery : f.isDelivery = false) (h_return : isReturn f = false)

/-- The frames of an arrival. -/
def Arrival.frames : Arrival → List Amqp.Frame
  | .delivery d => d.frames
  | .other f _ _ => [f]

/-- The answer to it. -/
def Arrival.event (unset : Frame) (behind : List UInt8) : Arrival → Event
  | .delivery d => ⟨.delivered d.envelope.message.body behind, amqpStatusOk, unset, unread⟩
  | .other f _ _ =>
    ⟨.libraryException amqpStatusUnexpectedState false, amqpStatusOk, .of f, unread⟩

variable (unset : Frame)

/-- One round takes the frames of one arrival. -/
theorem consumingEvent_arrival (a : Arrival) (behind : List UInt8) {rest : List Amqp.Frame}
    {s : Amqp.Connection} (h : s.Ready) (h_calm : s.Calm)
    (h_pending : s.pending = a.frames ++ rest) :
    ∃ t, consumingEvent unset ⟨.ample, .ample, behind⟩ s = .ok (some (a.event unset behind), t) ∧
      t.Ready ∧ t.Calm ∧ t.pending = rest := by
  cases a with
  | delivery d =>
    obtain ⟨t, h_call, h_t⟩ := Amqp.amqp_consume_message_delivery d h h_calm h_pending
    refine ⟨t, ?_, h_t⟩
    change (Amqp.amqp_consume_message .ample s >>= _) = _
    rw [h_call]
    change handlingEvent unset .ample (.delivered d.envelope.message.body behind) t = _
    rw [handlingEvent, if_neg (by rintro ⟨⟩)]
    rfl
  | other f h_delivery h_return =>
    -- the frame is refused and put back, and then it is taken
    obtain ⟨t, h_call, h_t, h_t_calm, h_t_pending⟩ :=
      Amqp.amqp_consume_message_other .ample h h_calm h_pending h_delivery
    obtain ⟨u, h_wait, h_u⟩ := Amqp.noblock_calm h_t h_t_calm (h_t_pending.trans h_pending)
    refine ⟨u, ?_, h_u⟩
    change (Amqp.amqp_consume_message .ample s >>= _) = _
    rw [h_call]
    change handlingEvent unset .ample (.libraryException amqpStatusUnexpectedState false) t = _
    rw [handlingEvent, if_pos (by rfl), h_wait]
    dsimp only
    rw [if_neg (by rw [h_return]; exact Bool.false_ne_true)]
    rfl

/-- What arrives is answered in its order, one round for each message and for each other frame. -/
theorem consumingEvents_arrivals (arrivals : List (Arrival × List UInt8)) {rest : List Amqp.Frame}
    {s : Amqp.Connection} (h : s.Ready) (h_calm : s.Calm)
    (h_pending : s.pending = arrivals.flatMap (fun a => a.1.frames) ++ rest) :
    ∃ t, consumingEvents unset (arrivals.map fun a => ⟨.ample, .ample, a.2⟩) s =
      .ok (arrivals.map (fun a => a.1.event unset a.2), t) ∧ t.Ready ∧ t.Calm ∧
      t.pending = rest := by
  induction arrivals generalizing s with
  | nil => exact ⟨s, rfl, h, h_calm, h_pending⟩
  | cons a arrivals ih =>
    rw [List.flatMap_cons, List.append_assoc] at h_pending
    obtain ⟨t, h_first, h_t, h_t_calm, h_t_pending⟩ :=
      consumingEvent_arrival unset a.1 a.2 h h_calm h_pending
    obtain ⟨u, h_rest, h_u⟩ := ih h_t h_t_calm h_t_pending
    refine ⟨u, ?_, h_u⟩
    change (consumingEvent unset ⟨.ample, .ample, a.2⟩ s >>= _) = _
    rw [h_first]
    change (consumingEvents unset (arrivals.map fun a => ⟨.ample, .ample, a.2⟩) t >>= _) = _
    rw [h_rest]
    rfl

/-! ### What the process does with the first answer -/

variable {φ : Type} [Kernel φ (Queue Slot)]

/-- A text is in the shared queue afterwards, twice, as far as there is room. -/
theorem send_text {p : Process (Queue Slot) φ} {ptr : QueuePtr} (h : Shared p ptr) {m : CStr}
    (h_copy : copySize m.length = m.length + 1) :
    ∃ p', ((Consumer.start p).send memory m.ptr).process = .ok p' ∧
      (p'.queues ptr).contents =
        (p.queues ptr).contents ++ (twice [m]).take (p.queues ptr).room := by
  obtain ⟨⟨p', out⟩, h_send⟩ := sendMessage_fitting h h_copy
  refine ⟨p', ?_, ?_⟩
  · change (sendMessage p m.ptr Malloc.succeeds Malloc.succeeds).map Prod.fst = _
    rw [h_send]
    rfl
  · rw [(sendMessage_shared h h_send).2]
    exact contents_pushes h.shape (twice [m])

/-- A null pointer ends the process when there is room in the queue. -/
theorem send_null {p : Process (Queue Slot) φ} {ptr : QueuePtr} (h : Shared p ptr)
    (h_room : 0 < (p.queues ptr).room) :
    ((Consumer.start p).send memory .null).process = .error .nullPointer := by
  have h_not_full : (p.queues p.ptrQueue).rear ≠ maxSize := by
    rw [h.mapped]
    unfold Queue.room at h_room
    omega
  have h_full : isFull (p.queues p.ptrQueue) = .ok false :=
    congrArg Except.ok (decide_eq_false h_not_full)
  -- the first call turns the null pointer down, and the second one reads it
  have h_scans : p.scans .null Malloc.succeeds = true := by
    change (false || findsRoom (p.queues p.ptrQueue)) = true
    rw [findsRoom, h_full]
    rfl
  change (sendMessage p .null Malloc.succeeds Malloc.succeeds).map Prod.fst = _
  rw [sendMessage_of_scans h_scans rfl]
  rfl

/-! ### Both together -/

/-- A delivery whose body is a string, together with what lies behind it in memory. -/
structure TextDelivery where
  message : CStr
  delivery : Amqp.Delivery
  behind : List UInt8
  bytes_eq : delivery.envelope.message.body ++ behind = message.bytes
  nonempty : delivery.envelope.message.body ≠ []
  copySize_eq : copySize message.length = message.length + 1

/-- The arrival, with what lies behind the body. -/
def TextDelivery.arrival (d : TextDelivery) : Arrival × List UInt8 :=
  (.delivery d.delivery, d.behind)

/-- The body of the envelope is the text. -/
theorem TextDelivery.body_eq (d : TextDelivery) :
    (d.arrival.1.event unset d.arrival.2).result.body = d.message.ptr := by
  change bodyBytes d.delivery.envelope.message.body d.behind = _
  rw [bodyBytes, if_neg d.nonempty, d.bytes_eq]
  rfl

/-- What a broker sends is answered by the library, one round for each arrival, in whatever pieces
it comes, when the broker sends nothing behind a part of a frame. -/
theorem consumingEvents_sends {pools : Amqp.Pools} (h_pools : pools.Ample) {frame_max : ℤ}
    {s : Amqp.Inbound} (h_pending : Amqp.Pending frame_max s []) {len : ℕ} (h_len : 20 ≤ len)
    (h_lt : len < 2 ^ 31) (h_max : len ≤ Amqp.sizeT frame_max) {calls : List Amqp.Call}
    (h_unbroken : Amqp.Unbroken len calls) (h_valid : ∀ c ∈ calls, c.frame.Valid)
    {pieces : List (List UInt8)} (h_pieces : pieces.flatten = (Amqp.sendAll len calls).1)
    {arrivals : List (Arrival × List UInt8)} {rest : List Amqp.Frame}
    (h_frames : (Amqp.sendAll len calls).2.filter Amqp.Frame.isData =
      arrivals.flatMap (fun a => a.1.frames) ++ rest) :
    ∃ t, consumingEvents unset (arrivals.map fun a => ⟨.ample, .ample, a.2⟩)
      (Amqp.connectionOn pools ⟨s, [], pieces⟩) =
        .ok (arrivals.map (fun a => a.1.event unset a.2), t) ∧ t.pending = rest := by
  obtain ⟨left, h_src⟩ :=
    Amqp.carries_of_sendAll h_pending h_len h_lt h_max h_unbroken h_valid h_pieces
  obtain ⟨h_ready, h_calm, h_eq⟩ := Amqp.connectionOn_spec h_pools h_src
  obtain ⟨t, h_run, -, -, h_t⟩ :=
    consumingEvents_arrivals unset arrivals h_ready h_calm (h_eq.trans h_frames)
  exact ⟨t, h_run, h_t⟩

/-- The run of the loop in which its first call gets through to its queues. -/
def firstCall (U : Type) : List (LockStep U) := [.send, .exec .semWait, .exec .msync]

/-- The delivery of the message `dot`, whose terminator lies behind the body. -/
def dotText : TextDelivery where
  message := dot
  delivery := Amqp.dotDelivery
  behind := [0]
  bytes_eq := rfl
  nonempty := List.cons_ne_nil _ _
  copySize_eq := copySize_of_lt (by decide)

/-- After the configuration both pointers are the same queue. -/
theorem shared_passedOn :
    Shared (configurationQueueMmapPrivate (passedOn 1) (.heap 0)) (.heap 0) :=
  ⟨rfl, rfl, ⟨by decide, by decide, by decide, by decide⟩⟩

end Backend
end WateRMQ
