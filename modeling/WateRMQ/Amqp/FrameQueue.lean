import Mathlib.Data.List.TakeWhile
import WateRMQ.Amqp.Frame

/-!
# The queue of frames

The functions of `amqp_socket.c` that wait for a frame. A function that waits for a frame of one
channel, or for a reply, puts the other frames that arrive into a queue, from which they are taken
later. The queue is a linked list with a pointer to its first and to its last link; here it is a
list.

What a loop finds when it reads from the connection is an `Event`: a frame, an empty buffer that is
filled again, or an error. Frames that are ignored are not among them. Heartbeats are off: with a
`heartbeat` of 0 the times `next_send_heartbeat` and `next_recv_heartbeat` are infinite, so that
`wait_frame_inner` sends no heartbeat of its own.

`run_perm` is the ledger of the queue when there is memory for its links: after any calls, each
frame was delivered, is still there, or is lost, and the lost ones are those that
`amqp_simple_wait_frame_on_channel` cuts off, because they are in the queue in front of the one that
it takes. `run_sublist` says that the frames of a channel are never reordered by the functions that
do not wait for a reply, whether there is memory or not.
-/

namespace WateRMQ
namespace Amqp

/-! ### The functions of the source -/

/-- What a loop that reads from the connection finds: `consume_one_frame` gives a frame that is not
ignored, the buffer is empty and `recv_with_timeout` fills it, or a function returns a status. -/
inductive Event
  | frame (f : Frame)
  | more
  | failed (e : Status)

/-- The members of the connection that belong to the queue, with what the loops will find and with
whether the allocations of links will succeed. Where nothing is said, they succeed. -/
structure Connection where
  queued : List Frame
  events : List Event
  links : List Bool

/-- The result of a function that waits: it still waits, it returns a status, or it gives a
frame. -/
inductive Wait
  | waiting
  | failed (e : Status)
  | frame (f : Frame)

/-- `AMQP_FRAME_HEARTBEAT == frame_type`. -/
def Frame.isHeartbeat : Frame → Bool
  | .heartbeat _ => true
  | _ => false

/-- `wait_frame_inner`, without a deadline and with heartbeats off. -/
def wait_frame_inner : List Event → Wait × List Event
  | [] => (.waiting, [])
  | .more :: events => wait_frame_inner events
  | .failed e :: events => (.failed e, events)
  | .frame f :: events => if f.isHeartbeat then wait_frame_inner events else (.frame f, events)

/-- `amqp_queue_frame`, with `amqp_create_link_for_frame`. -/
def amqp_queue_frame (s : Connection) (frame : Frame) : Option Status × Connection :=
  match s.links with
  | false :: links => (some .noMemory, { s with links := links })
  | links => (none, { s with queued := s.queued ++ [frame], links := links.tail })

/-- `amqp_put_back_frame`. -/
def amqp_put_back_frame (s : Connection) (frame : Frame) : Option Status × Connection :=
  match s.links with
  | false :: links => (some .noMemory, { s with links := links })
  | links => (none, { s with queued := frame :: s.queued, links := links.tail })

/-- A frame that is given is taken from the events. -/
theorem length_wait_frame_inner (events : List Event) {f : Frame}
    (h : (wait_frame_inner events).1 = .frame f) :
    (wait_frame_inner events).2.length < events.length := by
  induction events with
  | nil => cases h
  | cons event events ih =>
    cases event with
    | more => exact Nat.lt_succ_of_lt (ih h)
    | failed e => cases h
    | frame g =>
      rw [wait_frame_inner] at h ⊢
      split
      case isTrue h_beat =>
        rw [if_pos h_beat] at h
        exact Nat.lt_succ_of_lt (ih h)
      case isFalse => exact Nat.lt_succ_self _

/-- The queue grows by one link at most. -/
theorem events_amqp_queue_frame (s : Connection) (f : Frame) :
    (amqp_queue_frame s f).2.events = s.events ∧
      (amqp_queue_frame s f).2.queued.length ≤ s.queued.length + 1 := by
  rw [amqp_queue_frame]
  split
  · exact ⟨rfl, Nat.le_succ _⟩
  · exact ⟨rfl, List.length_append.le⟩

/-- The loops of `amqp_simple_wait_frame_on_channel` and of `simple_rpc_inner`: a frame that is not
accepted goes into the queue. -/
def waitFor (accept : Frame → Bool) (s : Connection) : Wait × Connection :=
  match _h : wait_frame_inner s.events with
  | (.frame f, events) =>
    if accept f then (.frame f, { s with events := events })
    else
      match _h_queue : amqp_queue_frame { s with events := events } f with
      | (some e, s) => (.failed e, s)
      | (none, t) => waitFor accept t
  | (r, events) => (r, { s with events := events })
termination_by s.events.length
decreasing_by
  have h_lt := length_wait_frame_inner s.events (f := f) (by rw [_h])
  have h_events := (events_amqp_queue_frame { s with events := events } f).1
  rw [_h] at h_lt
  rw [_h_queue] at h_events
  rw [h_events]
  exact h_lt

/-- The `for` loop of `amqp_simple_wait_frame_on_channel`: the first frame of the channel, with what
is in the queue behind it. -/
def findQueued (channel : BitVec 16) : List Frame → Option (Frame × List Frame)
  | [] => none
  | f :: queued => if channel = f.channel then some (f, queued) else findQueued channel queued

/-- `amqp_simple_wait_frame_on_channel`. -/
def amqp_simple_wait_frame_on_channel (channel : BitVec 16) (s : Connection) : Wait × Connection :=
  match findQueued channel s.queued with
  | some (f, queued) => (.frame f, { s with queued := queued })
  | none => waitFor (fun f => channel = f.channel) s

/-- `amqp_simple_wait_frame_noblock`, and with no timeout `amqp_simple_wait_frame`. -/
def amqp_simple_wait_frame_noblock (s : Connection) : Wait × Connection :=
  match s.queued with
  | f :: queued => (.frame f, { s with queued := queued })
  | [] =>
    let r := wait_frame_inner s.events
    (r.1, { s with events := r.2 })

/-- A frame that `simple_rpc_inner` takes: a method on the channel that is expected or closes the
channel, or one on channel 0 that closes the connection. -/
def isReply (channel : BitVec 16) (expected_reply_ids : List MethodNumber) : Frame → Bool
  | .method c m =>
    c = channel ∧ (m.id ∈ expected_reply_ids ∨ m.id = .channelClose) ∨
      c = 0 ∧ m.id = .connectionClose
  | _ => false

/-- The loop of `simple_rpc_inner`. -/
def waitReply (channel : BitVec 16) (expected_reply_ids : List MethodNumber) (s : Connection) :
    Wait × Connection :=
  waitFor (isReply channel expected_reply_ids) s

/-- The result of `amqp_try_recv`: it waits, or it returns. -/
inductive Received
  | waiting
  | returned (res : Option Status)

/-- The `while` loop of `amqp_try_recv`, and `recv_with_timeout` behind it. A heartbeat goes into
the queue like any other frame. The time that `amqp_time_s_from_now(&timeout, 0)` gives is the
infinite one, so that `recv_with_timeout` waits until something arrives. -/
def tryRecv : List Event → Connection → Received × Connection
  | [], s => (.waiting, { s with events := [] })
  | .more :: events, s => (.returned none, { s with events := events })
  | .failed e :: events, s => (.returned (some e), { s with events := events })
  | .frame f :: events, s =>
    match amqp_queue_frame s f with
    | (some e, s) => (.returned (some e), { s with events := events })
    | (none, s) => tryRecv events s

/-- `amqp_try_recv`. -/
def amqp_try_recv (s : Connection) : Received × Connection := tryRecv s.events s

/-! ### Each call takes a frame -/

/-- A frame goes to the end of the queue, or there is no memory for its link. -/
theorem amqp_queue_frame_cases (s : Connection) (f : Frame) :
    (∃ links, s.links = false :: links ∧
      amqp_queue_frame s f = (some .noMemory, { s with links := links })) ∨
    amqp_queue_frame s f =
      (none, { s with queued := s.queued ++ [f], links := s.links.tail }) := by
  rw [amqp_queue_frame]
  split
  case h_1 links h_links => exact .inl ⟨links, h_links, rfl⟩
  case h_2 => exact .inr rfl

/-- **Everything a round of the loops can do.** A frame that is accepted is given; another one goes
into the queue and the loop goes on, or there is no memory for its link; and the loop ends with
`wait_frame_inner` when that gives no frame. -/
theorem waitFor_cases (accept : Frame → Bool) (s : Connection) :
    (∃ f events, wait_frame_inner s.events = (.frame f, events) ∧ accept f = true ∧
      waitFor accept s = (.frame f, { s with events := events })) ∨
    (∃ f events links, wait_frame_inner s.events = (.frame f, events) ∧ accept f = false ∧
      s.links = false :: links ∧
      waitFor accept s = (.failed .noMemory, { s with events := events, links := links })) ∨
    (∃ f events, wait_frame_inner s.events = (.frame f, events) ∧ accept f = false ∧
      waitFor accept s = waitFor accept { s with
        queued := s.queued ++ [f], events := events, links := s.links.tail }) ∨
    ∃ r events, wait_frame_inner s.events = (r, events) ∧ (∀ f, r ≠ .frame f) ∧
      waitFor accept s = (r, { s with events := events }) := by
  rw [waitFor]
  split
  case h_1 f events h_wait =>
    cases h_accept : accept f with
    | true => exact .inl ⟨f, events, h_wait, h_accept, rfl⟩
    | false =>
      rw [if_neg Bool.false_ne_true]
      rcases amqp_queue_frame_cases { s with events := events } f with
        ⟨links, h_links, h_queue⟩ | h_queue
      · refine .inr (.inl ⟨f, events, links, h_wait, h_accept, h_links, ?_⟩)
        split
        case h_1 e t h_eq =>
          cases h_queue.symm.trans h_eq
          rfl
        case h_2 t h_eq => cases h_queue.symm.trans h_eq
      · refine .inr (.inr (.inl ⟨f, events, h_wait, h_accept, ?_⟩))
        split
        case h_1 e t h_eq => cases h_queue.symm.trans h_eq
        case h_2 t h_eq =>
          cases h_queue.symm.trans h_eq
          rfl
  case h_2 r events h_frame h_wait => exact .inr (.inr (.inr ⟨r, events, h_wait, h_frame, rfl⟩))

/-- A frame that a loop gives is taken from the events. -/
theorem length_waitFor {accept : Frame → Bool} {s t : Connection} {f : Frame}
    (h : waitFor accept s = (.frame f, t)) :
    t.queued.length + t.events.length < s.queued.length + s.events.length := by
  -- by induction on the events that are left
  induction h_len : s.events.length using Nat.strongRecOn generalizing s with
  | _ len ih =>
    rcases waitFor_cases accept s with ⟨g, events, h_wait, -, h_eq⟩ |
      ⟨g, events, links, -, -, -, h_eq⟩ | ⟨g, events, h_wait, -, h_eq⟩ |
      ⟨r, events, h_wait, h_r, h_eq⟩
    · have h_lt := length_wait_frame_inner s.events (f := g) (by rw [h_wait])
      rw [h_wait] at h_lt
      cases h_eq.symm.trans h
      exact Nat.add_lt_add_left (h_len ▸ h_lt) _
    · cases h_eq.symm.trans h
    · -- the frame is in the queue instead, and a later one is given
      have h_lt := length_wait_frame_inner s.events (f := g) (by rw [h_wait])
      rw [h_wait, h_len] at h_lt
      have h_rest := ih events.length h_lt (h_eq.symm.trans h) rfl
      rw [List.length_append, List.length_singleton] at h_rest
      dsimp only at h_lt h_rest
      omega
    · cases h_eq.symm.trans h
      exact absurd rfl (h_r f)

/-- A frame that is found in the queue is taken from it. -/
theorem length_findQueued {channel : BitVec 16} {queued rest : List Frame} {f : Frame}
    (h : findQueued channel queued = some (f, rest)) : rest.length < queued.length := by
  induction queued with
  | nil => cases h
  | cons g queued ih =>
    rw [findQueued] at h
    split at h
    · cases h
      exact Nat.lt_succ_self _
    · exact Nat.lt_succ_of_lt (ih h)

/-- A frame is taken from the queue, or from the events with those that are skipped put into the
queue. -/
theorem length_on_channel {channel : BitVec 16} {s t : Connection} {f : Frame}
    (h : amqp_simple_wait_frame_on_channel channel s = (.frame f, t)) :
    t.queued.length + t.events.length < s.queued.length + s.events.length := by
  rw [amqp_simple_wait_frame_on_channel] at h
  split at h
  case h_1 g queued h_find =>
    cases h
    exact Nat.add_lt_add_right (length_findQueued h_find) _
  case h_2 => exact length_waitFor h

/-! ### What a call does with the frames -/

/-- The frames that arrive and are not heartbeats. -/
def arriving : List Event → List Frame
  | [] => []
  | .frame f :: events => if f.isHeartbeat then arriving events else f :: arriving events
  | _ :: events => arriving events

/-- The frames in the queue that are not heartbeats, and those that arrive. -/
def Connection.pending (s : Connection) : List Frame :=
  s.queued.filter (fun f => !f.isHeartbeat) ++ arriving s.events

/-- The frame that a function gives, when it is not a heartbeat. -/
def Wait.delivered : Wait → List Frame
  | .frame f => [f].filter fun f => !f.isHeartbeat
  | _ => []

/-- A frame that is not a heartbeat is delivered. -/
theorem delivered_of_data {f : Frame} (h : f.isHeartbeat = false) :
    (Wait.frame f).delivered = [f] := by
  rw [Wait.delivered, List.filter_cons_of_pos (by rw [h]; rfl), List.filter_nil]

/-- `wait_frame_inner` gives the next frame that is not a heartbeat. -/
theorem arriving_eq (events : List Event) :
    arriving events =
      (wait_frame_inner events).1.delivered ++ arriving (wait_frame_inner events).2 ∧
      ∀ f, (wait_frame_inner events).1 = .frame f → f.isHeartbeat = false := by
  induction events with
  | nil => exact ⟨rfl, fun f h => by cases h⟩
  | cons event events ih =>
    cases event with
    | more => exact ih
    | failed e => exact ⟨rfl, fun f h => by cases h⟩
    | frame g =>
      rw [arriving, wait_frame_inner]
      split
      · exact ih
      case isFalse h_beat =>
        have h_data : g.isHeartbeat = false := Bool.eq_false_iff.mpr h_beat
        refine ⟨?_, fun f h => ?_⟩
        · rw [delivered_of_data h_data]
          rfl
        · cases h
          exact h_data

/-- What a loop that waits does: it skips frames that it does not accept, and gives one that it
accepts. A frame that is skipped goes into the queue; one for which there is no memory is dropped,
and the loop fails. -/
theorem waitFor_spec (accept : Frame → Bool) (s : Connection) :
    ∃ skipped dropped, (∀ f ∈ skipped, accept f = false ∧ f.isHeartbeat = false) ∧
      (∀ f ∈ dropped, accept f = false) ∧
      (s.links = [] → dropped = [] ∧ (waitFor accept s).2.links = []) ∧
      (waitFor accept s).2.queued = s.queued ++ skipped ∧
      arriving s.events = skipped ++ (dropped ++ ((waitFor accept s).1.delivered ++
        arriving (waitFor accept s).2.events)) ∧
      ∀ f, (waitFor accept s).1 = .frame f → accept f = true ∧ f.isHeartbeat = false := by
  -- by induction on the events that are left, as in `waitFor`
  induction h_len : s.events.length using Nat.strongRecOn generalizing s with
  | _ len ih =>
    obtain ⟨h_arriving, h_data⟩ := arriving_eq s.events
    rcases waitFor_cases accept s with ⟨f, events, h_wait, h_accept, h_eq⟩ |
      ⟨f, events, links, h_wait, h_accept, h_links, h_eq⟩ | ⟨f, events, h_wait, h_accept, h_eq⟩ |
      ⟨r, events, h_wait, h_r, h_eq⟩
    · rw [h_wait] at h_arriving h_data
      rw [h_eq]
      refine ⟨[], [], List.forall_mem_nil _, List.forall_mem_nil _, fun h_links => ⟨rfl, h_links⟩,
        (List.append_nil _).symm, h_arriving, fun g h_g => ?_⟩
      cases h_g
      exact ⟨h_accept, h_data f rfl⟩
    · -- there is no memory for the link, and the frame is gone
      rw [h_wait, delivered_of_data (h_data f (by rw [h_wait]))] at h_arriving
      rw [h_eq]
      refine ⟨[], [f], List.forall_mem_nil _, List.forall_mem_singleton.mpr h_accept,
        fun h_nil => ?_, (List.append_nil _).symm, h_arriving, fun g h_g => by cases h_g⟩
      rw [h_nil] at h_links
      cases h_links
    · -- the frame is the first one of those that are skipped
      have h_lt := length_wait_frame_inner s.events (f := f) (by rw [h_wait])
      have h_beat := h_data f (by rw [h_wait])
      rw [h_wait, delivered_of_data h_beat] at h_arriving
      rw [h_wait, h_len] at h_lt
      obtain ⟨skipped, dropped, h_skipped, h_dropped, h_links, h_queued, h_rest, h_frame⟩ :=
        ih events.length h_lt { s with
          queued := s.queued ++ [f], events := events, links := s.links.tail } rfl
      rw [h_eq]
      refine ⟨f :: skipped, dropped, ?_, h_dropped, fun h_nil => h_links ?_, ?_, ?_, h_frame⟩
      · exact List.forall_mem_cons.mpr ⟨⟨h_accept, h_beat⟩, h_skipped⟩
      · change s.links.tail = []
        rw [h_nil, List.tail_nil]
      · rw [h_queued, List.append_assoc]
        rfl
      · rw [h_arriving]
        exact congrArg (f :: ·) h_rest
    · rw [h_wait] at h_arriving
      rw [h_eq]
      exact ⟨[], [], List.forall_mem_nil _, List.forall_mem_nil _, fun h_links => ⟨rfl, h_links⟩,
        (List.append_nil _).symm, h_arriving, fun f h_f => absurd h_f (h_r f)⟩

/-! ### The ledger -/

/-- The calls that take frames from the connection. -/
inductive Op
  | onChannel (channel : BitVec 16)
  | any
  | reply (channel : BitVec 16) (expected_reply_ids : List MethodNumber)
  | tryRecv

/-- The call. -/
def Op.call : Op → Connection → Wait × Connection
  | .onChannel channel, s => amqp_simple_wait_frame_on_channel channel s
  | .any, s => amqp_simple_wait_frame_noblock s
  | .reply channel expected_reply_ids, s => waitReply channel expected_reply_ids s
  | .tryRecv, s => (.waiting, (amqp_try_recv s).2)

/-- The frames that a call loses when there is memory: those that are in the queue in front of the
one that it takes. -/
def Op.lost : Op → Connection → List Frame
  | .onChannel channel, s =>
    if (findQueued channel s.queued).isSome then
      (s.queued.takeWhile fun f => channel ≠ f.channel).filter fun f => !f.isHeartbeat
    else []
  | .any, _ | .reply _ _, _ | .tryRecv, _ => []

/-- Calls one after the other, with the frames that they deliver and the frames that they lose. -/
def runOps : List Op → Connection → List Frame × List Frame × Connection
  | [], s => ([], [], s)
  | op :: ops, s =>
    let r := op.call s
    let rest := runOps ops r.2
    (r.1.delivered ++ rest.1, op.lost s ++ rest.2.1, rest.2.2)

/-- The frame that is found is the first one of its channel. -/
theorem findQueued_eq (channel : BitVec 16) (queued : List Frame) :
    (findQueued channel queued = none ∧ ∀ f ∈ queued, channel ≠ f.channel) ∨
      ∃ f rest, findQueued channel queued = some (f, rest) ∧ channel = f.channel ∧
        queued = queued.takeWhile (fun f => channel ≠ f.channel) ++ f :: rest := by
  induction queued with
  | nil => exact .inl ⟨rfl, List.forall_mem_nil _⟩
  | cons g queued ih =>
    rw [findQueued]
    -- a frame of another channel is in front of the one that is found
    by_cases h_g : channel = g.channel
    · rw [if_pos h_g]
      refine .inr ⟨g, queued, rfl, h_g, ?_⟩
      rw [List.takeWhile_cons_of_neg (by simp [h_g])]
      rfl
    · rw [if_neg h_g]
      rcases ih with ⟨h_none, h_all⟩ | ⟨f, rest, h_some, h_f, h_eq⟩
      · exact .inl ⟨h_none, List.forall_mem_cons.mpr ⟨h_g, h_all⟩⟩
      · refine .inr ⟨f, rest, h_some, h_f, ?_⟩
        rw [List.takeWhile_cons_of_pos (by simp [h_g]), List.cons_append, ← h_eq]

/-- What a call on a channel does when its frame is in the queue: the frame is taken, and the frames
in front of it are gone. -/
theorem pending_of_queued {channel : BitVec 16} {s : Connection} {f : Frame} {rest : List Frame}
    (h_find : findQueued channel s.queued = some (f, rest))
    (h_eq : s.queued = s.queued.takeWhile (fun f => channel ≠ f.channel) ++ f :: rest) :
    s.pending = (Op.onChannel channel).lost s ++ ((Wait.frame f).delivered ++
      ({ s with queued := rest } : Connection).pending) := by
  rw [Op.lost, if_pos (by rw [h_find]; rfl), Connection.pending, Connection.pending]
  conv_lhs => rw [h_eq]
  rw [List.filter_append, List.append_assoc, ← List.singleton_append, List.filter_append,
    List.append_assoc]
  rfl

/-- What a loop that waits leaves: what it skips is in the queue, and nothing else has changed but
for the frame that it gives, or drops for lack of memory. -/
theorem pending_of_waited (accept : Frame → Bool) (s : Connection) :
    ∃ skipped dropped, (∀ f ∈ skipped, accept f = false) ∧ (∀ f ∈ dropped, accept f = false) ∧
      (s.links = [] → dropped = [] ∧ (waitFor accept s).2.links = []) ∧
      s.pending = s.queued.filter (fun f => !f.isHeartbeat) ++ skipped ++
        (dropped ++ ((waitFor accept s).1.delivered ++ arriving (waitFor accept s).2.events)) ∧
      (waitFor accept s).2.pending = s.queued.filter (fun f => !f.isHeartbeat) ++ skipped ++
        arriving (waitFor accept s).2.events ∧
      ∀ f, (waitFor accept s).1 = .frame f → accept f = true ∧ f.isHeartbeat = false := by
  obtain ⟨skipped, dropped, h_skipped, h_dropped, h_links, h_queued, h_eq, h_frame⟩ :=
    waitFor_spec accept s
  have h_filter : skipped.filter (fun f => !f.isHeartbeat) = skipped :=
    List.filter_eq_self.mpr fun f h_f => by rw [(h_skipped f h_f).2]; rfl
  refine ⟨skipped, dropped, fun f h_f => (h_skipped f h_f).1, h_dropped, h_links, ?_, ?_, h_frame⟩
  · rw [Connection.pending, h_eq, List.append_assoc]
  · rw [Connection.pending, h_queued, List.filter_append, h_filter]

/-- The same when there is memory: nothing is dropped. -/
theorem pending_of_waited_of_links (accept : Frame → Bool) {s : Connection} (h : s.links = []) :
    ∃ skipped, (∀ f ∈ skipped, accept f = false) ∧
      s.pending = s.queued.filter (fun f => !f.isHeartbeat) ++ skipped ++
        ((waitFor accept s).1.delivered ++ arriving (waitFor accept s).2.events) ∧
      (waitFor accept s).2.pending = s.queued.filter (fun f => !f.isHeartbeat) ++ skipped ++
        arriving (waitFor accept s).2.events ∧ (waitFor accept s).2.links = [] ∧
      ∀ f, (waitFor accept s).1 = .frame f → accept f = true ∧ f.isHeartbeat = false := by
  obtain ⟨skipped, dropped, h_skipped, -, h_links, h_eq, h_eq', h_frame⟩ :=
    pending_of_waited accept s
  obtain ⟨rfl, h_links'⟩ := h_links h
  exact ⟨skipped, h_skipped, h_eq, h_eq', h_links', h_frame⟩

/-- `amqp_try_recv` puts what arrives behind what is in the queue, up to a frame for which there is
no memory. -/
theorem tryRecv_spec (events : List Event) (s : Connection) :
    (tryRecv events s).2.pending.Sublist
        (s.queued.filter (fun f => !f.isHeartbeat) ++ arriving events) ∧
      (s.links = [] → (tryRecv events s).2.links = [] ∧ (tryRecv events s).2.pending =
        s.queued.filter (fun f => !f.isHeartbeat) ++ arriving events) := by
  induction events generalizing s with
  | nil => exact ⟨List.Sublist.refl _, fun h_links => ⟨h_links, rfl⟩⟩
  | cons event events ih =>
    cases event with
    | more => exact ⟨List.Sublist.refl _, fun h_links => ⟨h_links, rfl⟩⟩
    | failed e => exact ⟨List.Sublist.refl _, fun h_links => ⟨h_links, rfl⟩⟩
    | frame f =>
      -- a heartbeat goes into the queue too, but it does not count
      have h_arriving : arriving (.frame f :: events) =
          [f].filter (fun f => !f.isHeartbeat) ++ arriving events := by
        rw [arriving]
        cases h_beat : f.isHeartbeat with
        | true => simp [h_beat]
        | false => simp [h_beat]
      rw [h_arriving, tryRecv]
      rcases amqp_queue_frame_cases s f with ⟨links, h_links, h_queue⟩ | h_queue
      · -- the frame is gone
        rw [h_queue]
        refine ⟨(List.sublist_append_right _ _).append_left _, fun h_nil => ?_⟩
        rw [h_nil] at h_links
        cases h_links
      · rw [h_queue]
        obtain ⟨h_sub, h_eq⟩ := ih { s with queued := s.queued ++ [f], links := s.links.tail }
        have h_append : ({ s with queued := s.queued ++ [f] } : Connection).queued.filter
            (fun f => !f.isHeartbeat) ++ arriving events =
              s.queued.filter (fun f => !f.isHeartbeat) ++
                ([f].filter (fun f => !f.isHeartbeat) ++ arriving events) := by
          rw [List.filter_append, List.append_assoc]
        refine ⟨h_append ▸ h_sub, fun h_nil => ?_⟩
        have h_tail : s.links.tail = [] := by rw [h_nil, List.tail_nil]
        obtain ⟨h_links', h_pending⟩ := h_eq h_tail
        exact ⟨h_links', h_pending.trans h_append⟩

/-- The next frame is the first one of the queue. -/
theorem pending_of_cons {s : Connection} {f : Frame} {queued : List Frame}
    (h : s.queued = f :: queued) :
    s.pending = (Wait.frame f).delivered ++ ({ s with queued := queued } : Connection).pending := by
  rw [Connection.pending, h, ← List.singleton_append, List.filter_append, List.append_assoc]
  rfl

/-- With no frame in the queue, it is the next one that arrives. -/
theorem pending_of_nil {s : Connection} (h : s.queued = []) :
    s.pending = (wait_frame_inner s.events).1.delivered ++
      ({ s with events := (wait_frame_inner s.events).2 } : Connection).pending := by
  rw [Connection.pending, Connection.pending, h, (arriving_eq s.events).1]
  rfl

/-- One call: each frame is delivered, lost or still there. -/
theorem step_perm (op : Op) (s : Connection) (h_links : s.links = []) :
    s.pending.Perm ((op.call s).1.delivered ++ op.lost s ++ (op.call s).2.pending) ∧
      (op.call s).2.links = [] := by
  -- the frames that a wait skips are in the queue afterwards
  have h_wait : ∀ accept, s.pending.Perm ((waitFor accept s).1.delivered ++ [] ++
      (waitFor accept s).2.pending) := by
    intro accept
    obtain ⟨skipped, -, h_eq, h_eq', -, -⟩ := pending_of_waited_of_links accept h_links
    rw [h_eq, h_eq', List.append_nil]
    exact List.perm_append_comm_assoc _ _ _
  -- one case for each call; only a call on a channel loses something
  cases op with
  | onChannel channel =>
    rw [Op.call, amqp_simple_wait_frame_on_channel]
    rcases findQueued_eq channel s.queued with ⟨h_none, -⟩ | ⟨f, rest, h_some, -, h_eq⟩
    · obtain ⟨skipped, -, -, -, h_links', -⟩ :=
        pending_of_waited_of_links (fun f => channel = f.channel) h_links
      rw [h_none, Op.lost, h_none]
      exact ⟨h_wait _, h_links'⟩
    · rw [pending_of_queued h_some h_eq, h_some]
      refine ⟨?_, h_links⟩
      rw [List.append_assoc]
      exact List.perm_append_comm_assoc _ _ _
  | any =>
    rw [Op.call, amqp_simple_wait_frame_noblock]
    split
    case h_1 f queued h_queued =>
      rw [Op.lost, List.append_nil, pending_of_cons h_queued]
      exact ⟨List.Perm.refl _, h_links⟩
    case h_2 h_queued =>
      rw [Op.lost, List.append_nil, pending_of_nil h_queued]
      exact ⟨List.Perm.refl _, h_links⟩
  | reply channel ids =>
    obtain ⟨skipped, -, -, -, h_links', -⟩ :=
      pending_of_waited_of_links (isReply channel ids) h_links
    exact ⟨h_wait _, h_links'⟩
  | tryRecv =>
    obtain ⟨h_links', h_eq⟩ := (tryRecv_spec s.events s).2 h_links
    rw [Op.call, amqp_try_recv, h_eq]
    exact ⟨List.Perm.refl _, h_links'⟩

/-- After any calls, each frame that was in the queue or arrived is delivered, lost or still
there. -/
theorem runOps_perm (ops : List Op) (s : Connection) (h_links : s.links = []) :
    s.pending.Perm ((runOps ops s).1 ++ (runOps ops s).2.1 ++ (runOps ops s).2.2.pending) := by
  induction ops generalizing s with
  | nil => exact List.Perm.refl _
  | cons op ops ih =>
    obtain ⟨h_step, h_links'⟩ := step_perm op s h_links
    rw [runOps]
    refine h_step.trans (((ih _ h_links').append_left _).trans ?_)
    generalize (op.call s).1.delivered = a
    generalize op.lost s = b
    generalize (runOps ops (op.call s).2).1 = c
    generalize (runOps ops (op.call s).2).2.1 = d
    generalize (runOps ops (op.call s).2).2.2.pending = e
    -- the frames of the later calls go behind those of the first one
    have h_swap : (b ++ (c ++ d ++ e)).Perm (c ++ (b ++ d) ++ e) := by
      rw [List.append_assoc, List.append_assoc, List.append_assoc]
      exact List.perm_append_comm_assoc b c (d ++ e)
    rw [List.append_assoc, List.append_assoc a c, List.append_assoc a]
    exact h_swap.append_left a

/-- What is lost in a run is what one of its calls loses. -/
theorem mem_runOps_lost (ops : List Op) (s : Connection) (f : Frame) :
    f ∈ (runOps ops s).2.1 ↔ ∃ before op after, ops = before ++ op :: after ∧
      f ∈ op.lost (runOps before s).2.2 := by
  induction ops generalizing s with
  | nil =>
    refine ⟨fun h => (by cases h), ?_⟩
    rintro ⟨before, op, after, h_ops, -⟩
    exact absurd h_ops.symm (List.append_ne_nil_of_right_ne_nil _ (List.cons_ne_nil _ _))
  | cons op ops ih =>
    rw [runOps, List.mem_append, ih]
    -- a frame is lost by the first call or by a later one
    constructor
    · rintro (h_first | ⟨before, op', after, rfl, h_later⟩)
      · exact ⟨[], op, ops, rfl, h_first⟩
      · exact ⟨op :: before, op', after, rfl, h_later⟩
    · rintro ⟨before, op', after, h_ops, h_lost⟩
      cases before with
      | nil =>
        cases h_ops
        exact .inl h_lost
      | cons first before =>
        cases h_ops
        exact .inr ⟨before, op', after, rfl, h_lost⟩

/-- A call on a channel loses the frames in front of the first one of the channel. -/
theorem mem_lost_onChannel {channel : BitVec 16} {s : Connection} {f : Frame} :
    f ∈ (Op.onChannel channel).lost s ↔ f.isHeartbeat = false ∧ ∃ front g behind,
      s.queued = front ++ g :: behind ∧ channel = g.channel ∧
        (∀ k ∈ front, channel ≠ k.channel) ∧ f ∈ front := by
  rw [Op.lost]
  rcases findQueued_eq channel s.queued with ⟨h_none, h_all⟩ | ⟨g, rest, h_some, h_g, h_eq⟩
  · rw [h_none]
    refine iff_of_false (fun h => by cases h) ?_
    rintro ⟨-, front, g, behind, h_queued, h_g, -⟩
    exact h_all g (by rw [h_queued]; exact List.mem_append_right _ List.mem_cons_self) h_g
  · rw [h_some, if_pos (by rfl), List.mem_filter, Bool.not_eq_true']
    -- `takeWhile` is the longest part without a frame of the channel
    constructor
    · rintro ⟨h_mem, h_beat⟩
      refine ⟨h_beat, _, g, rest, h_eq, h_g, fun k h_k => ?_, h_mem⟩
      have h_take := List.mem_takeWhile_imp h_k
      exact of_decide_eq_true h_take
    · rintro ⟨h_beat, front, k, behind, h_queued, h_k, h_front, h_mem⟩
      refine ⟨?_, h_beat⟩
      rw [h_queued, List.takeWhile_append_of_pos fun l h_l => decide_eq_true (h_front l h_l)]
      exact List.mem_append_left _ h_mem

/-- **The ledger of the queue.** When there is memory for the links, each frame that was in the
queue or arrived is delivered, lost or still there, and a frame is lost exactly when a call for a
channel finds it in the queue in front of the first frame of this channel. -/
theorem run_perm (ops : List Op) (s : Connection) (h_links : s.links = []) :
    s.pending.Perm ((runOps ops s).1 ++ (runOps ops s).2.1 ++ (runOps ops s).2.2.pending) ∧
      ∀ f, f ∈ (runOps ops s).2.1 ↔ ∃ before channel after,
        ops = before ++ .onChannel channel :: after ∧ f.isHeartbeat = false ∧
          ∃ front g behind, (runOps before s).2.2.queued = front ++ g :: behind ∧
            channel = g.channel ∧ (∀ k ∈ front, channel ≠ k.channel) ∧ f ∈ front := by
  refine ⟨runOps_perm ops s h_links, fun f => (mem_runOps_lost ops s f).trans ?_⟩
  constructor
  · rintro ⟨before, op, after, h_ops, h_lost⟩
    cases op with
    | onChannel channel => exact ⟨before, channel, after, h_ops, mem_lost_onChannel.mp h_lost⟩
    | any | reply _ _ | tryRecv => cases h_lost
  · rintro ⟨before, channel, after, h_ops, h_front⟩
    exact ⟨before, .onChannel channel, after, h_ops, mem_lost_onChannel.mpr h_front⟩

/-- Two frames of channel 2 and two of channel 1, in turn. -/
def twoChannels : Connection := ⟨[.body 2 [1], .body 1 [2], .body 2 [3], .body 1 [4]], [], []⟩

theorem run_perm_onChannel :
    runOps [.onChannel 1, .any] twoChannels =
        ([.body 1 [2], .body 2 [3]], [.body 2 [1]], ⟨[.body 1 [4]], [], []⟩) ∧
      twoChannels.pending.Perm ([.body 1 [2], .body 2 [3]] ++ [.body 2 [1]] ++ [.body 1 [4]]) :=
  ⟨rfl, (run_perm [.onChannel 1, .any] twoChannels rfl).1⟩

/-! ### The order of the frames -/

/-- The frames of one channel. -/
def onChannel (channel : BitVec 16) (frames : List Frame) : List Frame :=
  frames.filter fun f => channel = f.channel

/-- The frames of a channel, part by part. -/
theorem onChannel_append (channel : BitVec 16) (l l' : List Frame) :
    onChannel channel (l ++ l') = onChannel channel l ++ onChannel channel l' :=
  List.filter_append l l'

/-- Frames of other channels. -/
theorem onChannel_eq_nil {channel : BitVec 16} {l : List Frame}
    (h : ∀ f ∈ l, channel ≠ f.channel) : onChannel channel l = [] :=
  List.filter_eq_nil_iff.mpr fun f h_f h_eq => h f h_f (of_decide_eq_true h_eq)

/-- A loop that takes the next frame of a channel leaves the order of the frames of each channel,
and all of them when there is memory. -/
theorem onChannel_pending_of_waited {channel : BitVec 16} {s : Connection}
    (h_queued : ∀ f ∈ s.queued, channel ≠ f.channel) (c : BitVec 16) :
    (onChannel c (waitFor (fun f => channel = f.channel) s).1.delivered ++
        onChannel c (waitFor (fun f => channel = f.channel) s).2.pending).Sublist
      (onChannel c s.pending) ∧
    (s.links = [] → onChannel c s.pending =
      onChannel c (waitFor (fun f => channel = f.channel) s).1.delivered ++
        onChannel c (waitFor (fun f => channel = f.channel) s).2.pending) := by
  obtain ⟨skipped, dropped, h_skipped, -, h_links, h_eq, h_eq', h_frame⟩ :=
    pending_of_waited (fun f => channel = f.channel) s
  rw [h_eq, h_eq']
  simp only [onChannel_append]
  by_cases h_c : c = channel
  · -- none of the frames that are skipped is on the channel
    have h_none : onChannel c (s.queued.filter fun f => !f.isHeartbeat) = [] :=
      onChannel_eq_nil fun f h_f => h_c ▸ h_queued f (List.mem_of_mem_filter h_f)
    have h_none' : onChannel c skipped = [] :=
      onChannel_eq_nil fun f h_f => h_c ▸ of_decide_eq_false (h_skipped f h_f)
    rw [h_none, h_none', List.nil_append, List.nil_append, List.nil_append]
    refine ⟨List.sublist_append_right _ _, fun h_nil => ?_⟩
    rw [(h_links h_nil).1]
    rfl
  · -- the frame that is given is on the other channel
    have h_other : onChannel c (waitFor (fun f => channel = f.channel) s).1.delivered = [] := by
      refine onChannel_eq_nil fun f h_f => ?_
      cases h_r : (waitFor (fun f => channel = f.channel) s).1 with
      | waiting =>
        rw [h_r] at h_f
        cases h_f
      | failed e =>
        rw [h_r] at h_f
        cases h_f
      | frame g =>
        rw [h_r] at h_f
        rw [Wait.delivered] at h_f
        have h_g := List.mem_singleton.mp (List.mem_of_mem_filter h_f)
        have h_channel : channel = g.channel := of_decide_eq_true (h_frame g h_r).1
        rw [h_g, ← h_channel]
        exact h_c
    rw [h_other, List.nil_append, List.nil_append]
    refine ⟨(List.sublist_append_right _ _).append_left _, fun h_nil => ?_⟩
    rw [(h_links h_nil).1]
    rfl

/-- A call that does not wait for a reply. -/
def Op.InOrder : Op → Prop
  | .reply _ _ => False
  | _ => True

/-- One call leaves the order of the frames of each channel. -/
theorem step_sublist (op : Op) (h_op : op.InOrder) (s : Connection) (c : BitVec 16) :
    (onChannel c (op.call s).1.delivered ++ onChannel c (op.call s).2.pending).Sublist
      (onChannel c s.pending) := by
  cases op with
  | onChannel channel =>
    rw [Op.call, amqp_simple_wait_frame_on_channel]
    rcases findQueued_eq channel s.queued with ⟨h_none, h_all⟩ | ⟨f, rest, h_some, -, h_eq⟩
    · rw [h_none]
      exact (onChannel_pending_of_waited h_all c).1
    · rw [pending_of_queued h_some h_eq, h_some, onChannel_append, onChannel_append]
      exact List.sublist_append_right _ _
  | any =>
    rw [Op.call, amqp_simple_wait_frame_noblock, ← onChannel_append]
    split
    case h_1 f queued h_queued => rw [pending_of_cons h_queued]
    case h_2 h_queued => rw [pending_of_nil h_queued]
  | reply channel ids => exact absurd h_op id
  | tryRecv =>
    exact ((tryRecv_spec s.events s).1).filter _

/-- **The frames of a channel are delivered in the order in which they arrived**, and none twice:
those that are delivered and those that are still there are, in this order, among those that there
were. -/
theorem run_sublist {ops : List Op} (h_ops : ∀ op ∈ ops, op.InOrder) (s : Connection)
    (c : BitVec 16) :
    (onChannel c (runOps ops s).1 ++ onChannel c (runOps ops s).2.2.pending).Sublist
      (onChannel c s.pending) := by
  induction ops generalizing s with
  | nil => exact List.Sublist.refl _
  | cons op ops ih =>
    have h_step := step_sublist op (h_ops op List.mem_cons_self) s c
    have h_rest := ih (fun o h_o => h_ops o (List.mem_cons_of_mem op h_o)) (op.call s).2
    rw [runOps, onChannel_append, List.append_assoc]
    exact (h_rest.append_left _).trans h_step

theorem run_sublist_onChannel :
    (runOps [.onChannel 1, .any] twoChannels).1 = [.body 1 [2], .body 2 [3]] ∧
      ([.body 1 [2]] ++ [.body 1 [4]] : List Frame).Sublist (onChannel 1 twoChannels.pending) ∧
      ([.body 2 [3]] ++ [] : List Frame).Sublist (onChannel 2 twoChannels.pending) := by
  have h_ops : ∀ op ∈ [Op.onChannel 1, .any], op.InOrder :=
    List.forall_mem_cons.mpr ⟨trivial, List.forall_mem_singleton.mpr trivial⟩
  exact ⟨rfl, run_sublist h_ops twoChannels 1, run_sublist h_ops twoChannels 2⟩

/-- The calls on a channel lose no frame of the channel. -/
theorem onChannel_lost (channel : BitVec 16) (s : Connection) :
    onChannel channel ((Op.onChannel channel).lost s) = [] := by
  rw [Op.lost]
  split
  · refine onChannel_eq_nil fun f h_f => ?_
    have h_take := List.mem_takeWhile_imp (List.mem_of_mem_filter h_f)
    exact of_decide_eq_true h_take
  · rfl

/-! ### What a call on a channel gives -/

/-- There is memory for the links, and no heartbeat in the queue. -/
structure Connection.Ready (s : Connection) : Prop where
  links : s.links = []
  queued : ∀ f ∈ s.queued, f.isHeartbeat = false

/-- Nothing that the loops find is an error. -/
def Connection.Calm (s : Connection) : Prop := ∀ e, Event.failed e ∉ s.events

/-- The frames of a channel that a call on the channel gives are the first ones of the channel. -/
theorem on_channel_frame {channel : BitVec 16} {s t : Connection} {f : Frame} (h : s.Ready)
    (h_call : amqp_simple_wait_frame_on_channel channel s = (.frame f, t)) :
    t.Ready ∧ channel = f.channel ∧
      onChannel channel s.pending = f :: onChannel channel t.pending ∧
      ∀ c, (onChannel c t.pending).Sublist (onChannel c s.pending) := by
  have h_step : ∀ c, (onChannel c (Wait.frame f).delivered ++ onChannel c t.pending).Sublist
      (onChannel c s.pending) := by
    intro c
    have h_sublist := step_sublist (.onChannel channel) trivial s c
    rw [Op.call, h_call] at h_sublist
    exact h_sublist
  have h_sub : ∀ c, (onChannel c t.pending).Sublist (onChannel c s.pending) := fun c =>
    (List.sublist_append_right _ _).trans (h_step c)
  rw [amqp_simple_wait_frame_on_channel] at h_call
  rcases findQueued_eq channel s.queued with ⟨h_none, h_all⟩ | ⟨g, rest, h_some, h_g, h_eq⟩
  · -- the frames that arrive before the first one of the channel are queued
    rw [h_none] at h_call
    dsimp only at h_call
    obtain ⟨skipped, _, h_skipped, -, h_memory, h_queued, -, h_frame⟩ :=
      waitFor_spec (fun f => channel = f.channel) s
    have h_links := (h_memory h.links).2
    have h_order := (onChannel_pending_of_waited h_all channel).2 h.links
    rw [h_call] at h_queued h_links h_frame h_order
    obtain ⟨h_channel, h_beat⟩ := h_frame f rfl
    have h_f : channel = f.channel := of_decide_eq_true h_channel
    refine ⟨⟨h_links, fun g h_g => ?_⟩, h_f, ?_, h_sub⟩
    · rw [h_queued] at h_g
      rcases List.mem_append.mp h_g with h_g | h_g
      · exact h.queued g h_g
      · exact (h_skipped g h_g).2
    · have h_one : onChannel channel [f] = [f] := List.filter_cons_of_pos (decide_eq_true h_f)
      rw [h_order, delivered_of_data h_beat, h_one]
      rfl
  · -- the frame is in the queue, and what is in front of it belongs to other channels
    have h_pending := pending_of_queued h_some h_eq
    rw [h_some] at h_call
    cases h_call
    have h_mem : ∀ k ∈ rest, k ∈ s.queued := fun k h_k => by
      rw [h_eq]
      exact List.mem_append_right _ (List.mem_cons_of_mem f h_k)
    have h_beat : f.isHeartbeat = false := by
      refine h.queued f ?_
      rw [h_eq]
      exact List.mem_append_right _ List.mem_cons_self
    refine ⟨⟨h.links, fun k h_k => h.queued k (h_mem k h_k)⟩, h_g, ?_, h_sub⟩
    have h_one : onChannel channel [f] = [f] := List.filter_cons_of_pos (decide_eq_true h_g)
    rw [h_pending, onChannel_append, onChannel_append, onChannel_lost, delivered_of_data h_beat,
      h_one]
    rfl

/-- What `wait_frame_inner` leaves are the last ones of the events. -/
theorem wait_frame_inner_suffix (events : List Event) :
    (wait_frame_inner events).2 <:+ events ∧ (∀ e, (wait_frame_inner events).1 = .failed e →
      Event.failed e ∈ events) ∧ ((wait_frame_inner events).1 = .waiting →
        (wait_frame_inner events).2 = []) := by
  induction events with
  | nil => exact ⟨List.suffix_rfl, fun e h => (by cases h), fun _ => rfl⟩
  | cons event events ih =>
    obtain ⟨h_suffix, h_failed, h_waiting⟩ := ih
    have h_more : (wait_frame_inner events).2 <:+ event :: events ∧ (∀ e,
        (wait_frame_inner events).1 = .failed e → Event.failed e ∈ event :: events) ∧
          ((wait_frame_inner events).1 = .waiting → (wait_frame_inner events).2 = []) :=
      ⟨h_suffix.trans (List.suffix_cons _ _), fun e h => List.mem_cons_of_mem _ (h_failed e h),
        h_waiting⟩
    cases event with
    | more => exact h_more
    | failed e =>
      refine ⟨List.suffix_cons _ _, fun e' h => ?_, fun h => by cases h⟩
      cases h
      exact List.mem_cons_self
    | frame f =>
      rw [wait_frame_inner]
      split
      · exact h_more
      · exact ⟨List.suffix_cons _ _, fun e h => (by cases h), fun h => by cases h⟩

/-- When nothing fails, a loop that waits gives a frame or goes on waiting. -/
theorem waitFor_calm (accept : Frame → Bool) {s : Connection} (h_links : s.links = [])
    (h : s.Calm) : (waitFor accept s).2.Calm ∧ ((∃ f, (waitFor accept s).1 = .frame f) ∨
      (waitFor accept s).1 = .waiting ∧ (waitFor accept s).2.events = []) := by
  -- by induction on the events that are left
  induction h_len : s.events.length using Nat.strongRecOn generalizing s with
  | _ len ih =>
    obtain ⟨h_suffix, h_failed, h_waiting⟩ := wait_frame_inner_suffix s.events
    have h_calm : ∀ e, Event.failed e ∉ (wait_frame_inner s.events).2 :=
      fun e h_e => h e (h_suffix.subset h_e)
    rcases waitFor_cases accept s with ⟨f, events, h_wait, -, h_eq⟩ |
      ⟨f, events, links, -, -, h_false, -⟩ | ⟨f, events, h_wait, -, h_eq⟩ |
      ⟨r, events, h_wait, h_r, h_eq⟩
    · rw [h_wait] at h_calm
      rw [h_eq]
      exact ⟨h_calm, .inl ⟨f, rfl⟩⟩
    · rw [h_links] at h_false
      cases h_false
    · have h_lt := length_wait_frame_inner s.events (f := f) (by rw [h_wait])
      rw [h_wait] at h_calm h_lt
      have h_tail : s.links.tail = [] := by rw [h_links, List.tail_nil]
      rw [h_eq]
      exact ih events.length (h_len ▸ h_lt) h_tail h_calm rfl
    · rw [h_wait] at h_calm h_failed h_waiting
      rw [h_eq]
      refine ⟨h_calm, .inr ?_⟩
      cases r with
      | waiting => exact ⟨rfl, h_waiting rfl⟩
      | failed e => exact absurd (h_failed e rfl) (h e)
      | frame f => exact absurd rfl (h_r f)

/-- When nothing fails and there is a frame of the channel, a call on the channel gives the first
one. -/
theorem on_channel_calm {channel : BitVec 16} {s : Connection} (h : s.Ready) (h_calm : s.Calm)
    {f : Frame} {rest : List Frame} (h_first : onChannel channel s.pending = f :: rest) :
    ∃ t, amqp_simple_wait_frame_on_channel channel s = (.frame f, t) ∧ t.Ready ∧ t.Calm ∧
      onChannel channel t.pending = rest := by
  have h_frame : ∃ g t, amqp_simple_wait_frame_on_channel channel s = (.frame g, t) ∧ t.Calm := by
    rw [amqp_simple_wait_frame_on_channel]
    rcases findQueued_eq channel s.queued with ⟨h_none, h_all⟩ | ⟨g, rest, h_some, -, -⟩
    · rw [h_none]
      obtain ⟨h_calm', ⟨g, h_g⟩ | ⟨h_waiting, h_events⟩⟩ :=
        waitFor_calm (fun f => channel = f.channel) h.links h_calm
      · exact ⟨g, _, Prod.ext h_g rfl, h_calm'⟩
      · -- otherwise no frame of the channel is there
        obtain ⟨skipped, h_skipped, h_eq, -, -, -⟩ :=
          pending_of_waited_of_links (fun f => channel = f.channel) h.links
        rw [h_eq, h_waiting, h_events, onChannel_append, onChannel_append,
          onChannel_eq_nil fun f h_f => of_decide_eq_false (h_skipped f h_f),
          onChannel_eq_nil fun f h_f => h_all f (List.mem_of_mem_filter h_f)] at h_first
        cases h_first
    · rw [h_some]
      exact ⟨g, _, rfl, h_calm⟩
  obtain ⟨g, t, h_call, h_t⟩ := h_frame
  obtain ⟨h_ready, -, h_pending, -⟩ := on_channel_frame h h_call
  rw [h_first] at h_pending
  cases h_pending
  exact ⟨t, h_call, h_ready, h_t, rfl⟩

/-- When nothing fails and there is a frame, a call for any frame gives the first one. -/
theorem noblock_calm {s : Connection} (h : s.Ready) (h_calm : s.Calm) {f : Frame}
    {rest : List Frame} (h_first : s.pending = f :: rest) :
    ∃ t, amqp_simple_wait_frame_noblock s = (.frame f, t) ∧ t.Ready ∧ t.Calm ∧
      t.pending = rest := by
  rw [amqp_simple_wait_frame_noblock]
  split
  case h_1 g queued h_queued =>
    have h_mem : ∀ k ∈ queued, k ∈ s.queued := fun k h_k => by
      rw [h_queued]
      exact List.mem_cons_of_mem g h_k
    have h_beat : g.isHeartbeat = false := h.queued g (by rw [h_queued]; exact List.mem_cons_self)
    rw [pending_of_cons h_queued, delivered_of_data h_beat] at h_first
    injection h_first with h_f h_rest
    subst h_f
    exact ⟨_, rfl, ⟨h.links, fun k h_k => h.queued k (h_mem k h_k)⟩, h_calm, h_rest⟩
  case h_2 h_queued =>
    -- the queue is empty, so the frame comes from the events
    obtain ⟨h_suffix, h_failed, h_waiting⟩ := wait_frame_inner_suffix s.events
    rw [pending_of_nil h_queued] at h_first
    obtain ⟨-, h_data⟩ := arriving_eq s.events
    cases h_r : (wait_frame_inner s.events).1 with
    | waiting =>
      rw [h_r, Connection.pending, h_queued, h_waiting h_r] at h_first
      cases h_first
    | failed e => exact absurd (h_failed e h_r) (h_calm e)
    | frame g =>
      rw [h_r, delivered_of_data (h_data g h_r)] at h_first
      injection h_first with h_f h_rest
      subst h_f
      exact ⟨_, Prod.ext h_r rfl, ⟨h.links, h.queued⟩,
        fun e h_e => h_calm e (h_suffix.subset h_e), h_rest⟩

/-- A call on the channel of the first frame does what a call for any frame does. -/
theorem on_channel_eq_noblock {s t : Connection} {f : Frame}
    (h : amqp_simple_wait_frame_noblock s = (.frame f, t)) :
    amqp_simple_wait_frame_on_channel f.channel s = (.frame f, t) := by
  rw [amqp_simple_wait_frame_noblock] at h
  rw [amqp_simple_wait_frame_on_channel]
  split at h
  case h_1 g queued h_queued =>
    cases h
    rw [h_queued, findQueued, if_pos rfl]
  case h_2 h_queued =>
    -- with an empty queue both wait for the same frame
    obtain ⟨h_r, rfl⟩ := Prod.mk.inj h
    have h_pair : wait_frame_inner s.events = (.frame f, (wait_frame_inner s.events).2) :=
      Prod.ext h_r rfl
    have h_accept : decide (f.channel = f.channel) = true := decide_eq_true rfl
    rw [h_queued, findQueued]
    dsimp only
    rcases waitFor_cases (fun g => f.channel = g.channel) s with ⟨g, events, h_wait, -, h_eq⟩ |
      ⟨g, events, links, h_wait, h_not, -⟩ | ⟨g, events, h_wait, h_not, -⟩ |
      ⟨r, events, h_wait, h_other, -⟩
    · cases h_pair.symm.trans h_wait
      rw [h_eq, h_queued]
    · cases h_pair.symm.trans h_wait
      cases h_accept.symm.trans h_not
    · cases h_pair.symm.trans h_wait
      cases h_accept.symm.trans h_not
    · cases h_pair.symm.trans h_wait
      exact absurd rfl (h_other f)

/-- When nothing fails, a call on the channel of the first frame gives this frame. -/
theorem on_channel_first {s : Connection} (h : s.Ready) (h_calm : s.Calm) {f : Frame}
    {rest : List Frame} (h_first : s.pending = f :: rest) :
    ∃ t, amqp_simple_wait_frame_on_channel f.channel s = (.frame f, t) ∧ t.Ready ∧ t.Calm ∧
      t.pending = rest := by
  obtain ⟨t, h_call, h_t⟩ := noblock_calm h h_calm h_first
  exact ⟨t, on_channel_eq_noblock h_call, h_t⟩

end Amqp
end WateRMQ
