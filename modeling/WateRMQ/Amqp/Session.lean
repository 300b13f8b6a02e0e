import WateRMQ.Lib.Prog
import WateRMQ.Amqp.Consumer
import WateRMQ.Amqp.Sending

/-!
# Requests and replies

The functions of `amqp_socket.c` that send a method and wait for the answer. What the socket and the
clock do in a call is a parameter of the call; what arrives is in the connection. Heartbeats are
off, so that a function that waits sends nothing.

`simple_rpc_inner` gives the first method that is a reply, or that closes the channel or the
connection. Every other frame that arrives before it goes into the queue.
`amqp_simple_rpc_decoded_ends` says that nothing but the reply is taken, and that what is on the
wire is the beginning of the request, however the call ends.
-/

namespace WateRMQ
namespace Amqp

open CMem Prog

/-! ### The functions of the source -/

/-- `library_error`: a status, or the number of bytes of the protocol header that the socket
took. -/
inductive LibraryError
  | status (e : Status)
  | partOfHeader (n : ℕ)

/-- `amqp_rpc_reply_t`. The reply of `amqp_login` is not a method. -/
inductive RpcReply
  | none
  | normal (reply : Option Method)
  | libraryException (library_error : LibraryError)
  | serverException (reply : Method)

/-- The members of `amqp_connection_state_t` for the functions that send and wait, with what the
program has sent and whether the socket was closed. -/
structure Session where
  connection : Connection
  sent : List UInt8
  socket_closed : Bool
  outbound_buffer_len : ℕ
  channel_max : ℤ
  frame_max : ℤ
  heartbeat : ℤ
  server_properties : Table
  client_properties : Table
  most_recent_api_result : RpcReply

/-- A call that does not come back: the program is stopped, or it waits. -/
inductive Interrupted
  | stop (s : Stop)
  | waiting

/-- What ends a function: it does not come back, it goes to `error_res`, or it returns a reply. -/
inductive Halt
  | interrupted (i : Interrupted)
  | error (e : LibraryError)
  | reply (r : RpcReply)

/-- What the socket, the clock and the outbound buffer are in a call of `amqp_send_frame_inner`.
What `amqp_try_recv` returns comes from the connection. -/
structure Write where
  attempts : List Attempt
  outbound_buffer : Bytes

/-- The loop of `amqp_send_frame_inner` with the connection, which `amqp_try_recv` reads from. -/
def sendLoopOn : List Attempt → List UInt8 → Connection → List UInt8 × Outcome × Connection
  | [], _, c => ([], .waiting, c)
  | a :: attempts, encoded, c =>
    match amqp_try_send a.events encoded with
    | (sent, .waiting) => (sent, .waiting, c)
    | (sent, .failed e) => (sent, .returned (some e), c)
    | (sent, .taken) =>
      if encoded.length ≠ sent.length then
        if a.at_deadline then (sent, .returned (some .timeout), c)
        else
          match amqp_try_recv c with
          | (.waiting, c) => (sent, .waiting, c)
          | (.returned (some .timeout), c) => (sent, .returned (some .heartbeatTimeout), c)
          | (.returned (some e), c) => (sent, .returned (some e), c)
          | (.returned none, c) =>
            let r := sendLoopOn attempts (encoded.drop sent.length) c
            (sent ++ r.1, r.2)
      else (sent, .returned a.timer, c)

namespace Session

/-- What a call that sends and reads leaves: the connection `c`, and the bytes `sent` more on the
wire. -/
def after (s : Session) (c : Connection) (sent : List UInt8) : Session :=
  { s with connection := c, sent := s.sent ++ sent }

/-- Two calls one after the other. -/
theorem after_after (s : Session) (c d : Connection) (b b' : List UInt8) :
    (s.after c b).after d b' = s.after d (b ++ b') := by
  rw [after, after, after, List.append_assoc]

end Session

/-- `amqp_send_method_inner`, with `amqp_send_frame_inner`. -/
def amqp_send_method_inner (write : Write) (channel : BitVec 16) (m : Method) :
    Prog Session Halt Unit := fun s =>
  match amqp_frame_to_bytes (.method channel m) write.outbound_buffer s.outbound_buffer_len with
  | .error (.fault f) => (.error (.interrupted (.stop (.fault f))), s)
  | .error (.status e) => (.error (.error (.status e)), s)
  | .ok (mem, n) =>
    match sendLoopOn write.attempts (loadBytes mem 0 n) s.connection with
    | (sent, .waiting, c) => (.error (.interrupted .waiting), s.after c sent)
    | (sent, .returned none, c) => (.ok (), s.after c sent)
    | (sent, .returned (some e), c) => (.error (.error (.status e)), s.after c sent)

/-- `amqp_simple_wait_method_list`, where `clock` is what `amqp_time_tv_until` returns. The frame
that is not one of the expected methods is gone. -/
def amqp_simple_wait_method_list (clock : Option Status) (expected_channel : BitVec 16)
    (expected_methods : List MethodNumber) : Prog Session Halt Method := fun s =>
  match clock with
  | some e => (.error (.error (.status e)), s)
  | none =>
    match amqp_simple_wait_frame_noblock s.connection with
    | (.waiting, c) => (.error (.interrupted .waiting), s.after c [])
    | (.failed e, c) => (.error (.error (.status e)), s.after c [])
    | (.frame (.method channel m), c) =>
      if expected_channel = channel ∧ m.id ∈ expected_methods then (.ok m, s.after c [])
      else (.error (.error (.status .wrongMethod)), s.after c [])
    | (.frame _, c) => (.error (.error (.status .wrongMethod)), s.after c [])

/-- `return amqp_rpc_reply_error(status)`. -/
def Halt.returned : Halt → Halt
  | .error e => .reply (.libraryException e)
  | h => h

/-- `simple_rpc_inner` from `retry` on. Only methods are replies. -/
def waitForReply (channel : BitVec 16) (expected_reply_ids : List MethodNumber) :
    Prog Session Halt Method := fun s =>
  match waitReply channel expected_reply_ids s.connection with
  | (.waiting, c) => (.error (.interrupted .waiting), s.after c [])
  | (.failed e, c) =>
    (.error (.reply (.libraryException (.status e))),
      { s.after c [] with socket_closed := s.socket_closed || e = .timeout })
  | (.frame (.method _ m), c) =>
    if m.id ∈ expected_reply_ids then (.ok m, s.after c [])
    else (.error (.reply (.serverException m)), s.after c [])
  | (.frame _, c) => (.error (.interrupted .waiting), s.after c [])

/-- `simple_rpc_inner`. -/
def simple_rpc_inner (write : Write) (channel : BitVec 16) (request : Method)
    (expected_reply_ids : List MethodNumber) : Prog Session Halt Method := do
  mapStop Halt.returned (amqp_send_method_inner write channel request)
  waitForReply channel expected_reply_ids

/-- The reply that a function returns. `error_res` closes the socket. -/
def replyOf (x : Prog Session Halt (Option Method)) : Prog Session Interrupted RpcReply := fun s =>
  match x s with
  | (.ok m, t) => (.ok (.normal m), t)
  | (.error (.interrupted i), t) => (.error i, t)
  | (.error (.error e), t) => (.ok (.libraryException e), { t with socket_closed := true })
  | (.error (.reply r), t) => (.ok r, t)

/-- What a call of `amqp_simple_rpc_decoded` meets: what `amqp_time_from_now` returns, and the
socket. -/
structure RpcEnv where
  clock : Option Status
  write : Write

/-- `amqp_simple_rpc_decoded`. -/
def amqp_simple_rpc_decoded (env : RpcEnv) (channel : BitVec 16) (request : Method)
    (reply_id : MethodNumber) : Prog Session Interrupted (Option Method) := do
  let result ← (match env.clock with
    | some e => pure (.libraryException (.status e))
    | none => replyOf (some <$> simple_rpc_inner env.write channel request [reply_id]))
  modify fun s => { s with most_recent_api_result := result }
  match result with
  | .normal m => return m
  | _ => return none

/-! ### What is sent -/

/-- What a call sends is the beginning of the frame, and all of it when the call succeeds. What it
reads from the connection is in the queue afterwards, when there is memory. -/
theorem sendLoopOn_spec (attempts : List Attempt) (bs : List UInt8) (c : Connection) :
    (sendLoopOn attempts bs c).1 <+: bs ∧
      ((sendLoopOn attempts bs c).2.1 = .returned none → (sendLoopOn attempts bs c).1 = bs) ∧
      (c.links = [] → (sendLoopOn attempts bs c).2.2.links = [] ∧
        (sendLoopOn attempts bs c).2.2.pending = c.pending) := by
  induction attempts generalizing bs c with
  | nil => exact ⟨List.nil_prefix, fun h => (by cases h), fun h => ⟨h, rfl⟩⟩
  | cons a attempts ih =>
    have h_begins := amqp_try_send_prefix a.events bs
    rw [sendLoopOn]
    cases h_try : amqp_try_send a.events bs with
    | mk sent res =>
      rw [h_try] at h_begins
      cases res with
      | waiting => exact ⟨h_begins, fun h => (by cases h), fun h => ⟨h, rfl⟩⟩
      | failed e => exact ⟨h_begins, fun h => (by cases h), fun h => ⟨h, rfl⟩⟩
      | taken =>
        dsimp only at h_begins ⊢
        -- a part was sent: the time is over, or something is received and the rest is sent
        by_cases h_all : bs.length ≠ sent.length
        swap
        · rw [if_neg h_all]
          have h_eq : sent = bs := h_begins.eq_of_length (not_not.mp h_all).symm
          exact ⟨h_begins, fun _ => h_eq, fun h => ⟨h, rfl⟩⟩
        rw [if_pos h_all]
        split
        · exact ⟨h_begins, fun h => (by cases h), fun h => ⟨h, rfl⟩⟩
        have h_recv' := (tryRecv_spec c.events c).2
        rw [amqp_try_recv]
        split
        case h_1 d h_recv =>
          rw [h_recv] at h_recv'
          exact ⟨h_begins, fun h => (by cases h), h_recv'⟩
        case h_2 d h_recv =>
          rw [h_recv] at h_recv'
          exact ⟨h_begins, fun h => (by cases h), h_recv'⟩
        case h_3 e d _ h_recv =>
          rw [h_recv] at h_recv'
          exact ⟨h_begins, fun h => (by cases h), h_recv'⟩
        case h_4 d h_recv =>
          -- what has arrived is in the queue now, and the rest of the frame is sent
          rw [h_recv] at h_recv'
          obtain ⟨rest, rfl⟩ := h_begins
          rw [List.drop_left]
          obtain ⟨⟨left, h_left⟩, h_ok, h_kept⟩ := ih rest d
          refine ⟨⟨left, ?_⟩, fun h => ?_, fun h => ?_⟩
          · rw [List.append_assoc, h_left]
          · rw [h_ok h]
          · obtain ⟨h_links, h_pending⟩ := h_recv' h
            obtain ⟨h_links', h_pending'⟩ := h_kept h_links
            exact ⟨h_links', h_pending'.trans h_pending⟩

/-- What a call that has got the frame `f` did to the connection: it took the first frame that is
not a heartbeat. -/
def Connection.Takes (f : Frame) (c d : Connection) : Prop :=
  c.links = [] → d.links = [] ∧ c.pending = f :: d.pending

/-- `s` has sent a beginning of `bs` more. -/
def Session.Sends (s : Session) (bs : List UInt8) (t : Session) : Prop :=
  ∃ b, t.sent = s.sent ++ b ∧ b <+: bs

/-- What is sent is the beginning of the method, and all of it when the call succeeds. -/
theorem amqp_send_method_inner_ends (write : Write) (channel : BitVec 16) (m : Method)
    (s : Session) :
    Ends (amqp_send_method_inner write channel m) s
      (fun _ t => ∃ c, t = s.after c (Frame.method channel m).wire ∧
        (s.connection.links = [] → c.links = [] ∧ c.pending = s.connection.pending))
      (fun e t => s.Sends (Frame.method channel m).wire t ∧ ∀ r, e ≠ .reply r) := by
  have h_none : s.Sends (Frame.method channel m).wire s :=
    ⟨[], (List.append_nil _).symm, List.nil_prefix⟩
  cases h_bytes : amqp_frame_to_bytes (.method channel m) write.outbound_buffer
      s.outbound_buffer_len with
  | error e =>
    cases e with
    | fault f =>
      exact ends_of_error (by rw [amqp_send_method_inner, h_bytes])
        ⟨h_none, fun r h_r => by cases h_r⟩
    | status e =>
      exact ends_of_error (by rw [amqp_send_method_inner, h_bytes])
        ⟨h_none, fun r h_r => by cases h_r⟩
  | ok res =>
    -- what is in the outbound buffer is the encoding of the method
    obtain ⟨mem, n⟩ := res
    obtain ⟨h_begins, h_ok, h_kept⟩ :=
      sendLoopOn_spec write.attempts (Frame.method channel m).wire s.connection
    rw [← encoded_method h_bytes] at h_begins h_ok h_kept ⊢
    cases h_loop : sendLoopOn write.attempts (loadBytes mem 0 n) s.connection with
    | mk sent res =>
      obtain ⟨outcome, c⟩ := res
      rw [h_loop] at h_begins h_ok h_kept
      cases outcome with
      | waiting =>
        exact ends_of_error (by rw [amqp_send_method_inner, h_bytes]; dsimp only; rw [h_loop])
          ⟨⟨sent, rfl, h_begins⟩, fun r h_r => by cases h_r⟩
      | returned res =>
        cases res with
        | none =>
          have h_sent : sent = loadBytes mem 0 n := h_ok rfl
          subst h_sent
          exact ends_of_ok (by rw [amqp_send_method_inner, h_bytes]; dsimp only; rw [h_loop])
            ⟨c, rfl, h_kept⟩
        | some e =>
          exact ends_of_error (by rw [amqp_send_method_inner, h_bytes]; dsimp only; rw [h_loop])
            ⟨⟨sent, rfl, h_begins⟩, fun r h_r => by cases h_r⟩

/-! ### What is taken -/

/-- A call for any frame takes the next one. -/
theorem noblock_takes {c d : Connection} {f : Frame} (h_beat : f.isHeartbeat = false)
    (h : amqp_simple_wait_frame_noblock c = (.frame f, d)) : c.Takes f d := by
  intro h_links
  rw [amqp_simple_wait_frame_noblock] at h
  split at h
  case h_1 g queued h_queued =>
    cases h
    refine ⟨h_links, ?_⟩
    rw [pending_of_cons h_queued, delivered_of_data h_beat]
    rfl
  case h_2 h_queued =>
    obtain ⟨h_r, h_d⟩ := Prod.mk.inj h
    refine ⟨h_d ▸ h_links, ?_⟩
    rw [pending_of_nil h_queued, h_r, delivered_of_data h_beat, h_d]
    rfl

/-- The method that is expected is the next frame. -/
theorem amqp_simple_wait_method_list_ends (clock : Option Status) (channel : BitVec 16)
    (expected_methods : List MethodNumber) (s : Session) :
    Ends (amqp_simple_wait_method_list clock channel expected_methods) s
      (fun m t => m.id ∈ expected_methods ∧ ∃ c, t = s.after c [] ∧
        s.connection.Takes (.method channel m) c)
      (fun _ t => t.sent = s.sent) := by
  have h_sent : ∀ c, (s.after c []).sent = s.sent := fun c => List.append_nil _
  cases clock with
  | some e => exact ends_of_error rfl rfl
  | none =>
    cases h_wait : amqp_simple_wait_frame_noblock s.connection with
    | mk res c =>
      cases res with
      | waiting => exact ends_of_error (by rw [amqp_simple_wait_method_list, h_wait]) (h_sent c)
      | failed e => exact ends_of_error (by rw [amqp_simple_wait_method_list, h_wait]) (h_sent c)
      | frame f =>
        cases f with
        | method channel' m =>
          by_cases h_expected : channel = channel' ∧ m.id ∈ expected_methods
          · refine ends_of_ok
              (by rw [amqp_simple_wait_method_list, h_wait]; exact if_pos h_expected)
              ⟨h_expected.2, c, rfl, noblock_takes rfl ?_⟩
            rw [h_wait, h_expected.1]
          · exact ends_of_error
              (by rw [amqp_simple_wait_method_list, h_wait]; exact if_neg h_expected) (h_sent c)
        | _ => exact ends_of_error (by rw [amqp_simple_wait_method_list, h_wait]) (h_sent c)

/-- The loop of `simple_rpc_inner` takes a reply, and leaves what was in front of it and behind. -/
theorem waitReply_takes {channel : BitVec 16} {expected_reply_ids : List MethodNumber}
    {c d : Connection} {f : Frame} (h : waitReply channel expected_reply_ids c = (.frame f, d))
    (h_links : c.links = []) : isReply channel expected_reply_ids f = true ∧ d.links = [] ∧
      ∃ before rest, c.pending = before ++ f :: rest ∧ d.pending = before ++ rest := by
  obtain ⟨skipped, -, h_eq, h_eq', h_links', h_frame⟩ :=
    pending_of_waited_of_links (isReply channel expected_reply_ids) h_links
  rw [waitReply] at h
  rw [h] at h_eq h_eq' h_links' h_frame
  obtain ⟨h_accept, h_data⟩ := h_frame f rfl
  refine ⟨h_accept, h_links', _, _, ?_, h_eq'⟩
  rw [h_eq, delivered_of_data h_data]
  rfl

/-- A reply is a method on its channel, or it closes the connection. -/
theorem method_of_isReply {channel channel' : BitVec 16} {expected_reply_ids : List MethodNumber}
    {m : Method} (h : isReply channel expected_reply_ids (.method channel' m) = true) :
    channel' = channel ∧ (m.id ∈ expected_reply_ids ∨ m.id = .channelClose) ∨
      channel' = 0 ∧ m.id = .connectionClose := of_decide_eq_true h

/-- What a call that has got its reply did to the connection: it took the reply alone, wherever it
was among the frames that arrived. -/
def Connection.TakesReply (channel : BitVec 16) (m : Method) (c d : Connection) : Prop :=
  c.links = [] → d.links = [] ∧ ∃ channel' before rest,
    (channel' = channel ∨ m.id = .connectionClose) ∧
      c.pending = before ++ .method channel' m :: rest ∧ d.pending = before ++ rest

/-- A reply that is a method is on its channel, or closes the connection. -/
theorem waitReply_takesReply {channel channel' : BitVec 16} {expected : List MethodNumber}
    {c d : Connection} {m : Method}
    (h : waitReply channel expected c = (.frame (.method channel' m), d)) :
    c.TakesReply channel m d := by
  intro h_links
  obtain ⟨h_reply, h_links', before, rest, h_eq, h_eq'⟩ := waitReply_takes h h_links
  refine ⟨h_links', channel', before, rest, ?_, h_eq, h_eq'⟩
  rcases method_of_isReply h_reply with ⟨h_channel, -⟩ | ⟨-, h_close⟩
  · exact .inl h_channel
  · exact .inr h_close

/-- The reply is taken, and so is a method that closes the channel or the connection instead. -/
theorem waitForReply_ends (channel : BitVec 16) (expected : List MethodNumber) (s : Session) :
    Ends (waitForReply channel expected) s
      (fun m t => m.id ∈ expected ∧ ∃ c, t = s.after c [] ∧ s.connection.TakesReply channel m c)
      (fun e t => t.sent = s.sent ∧ (∀ m, e ≠ .reply (.normal m)) ∧
        ∀ m, e = .reply (.serverException m) →
          m.id ∉ expected ∧ s.connection.TakesReply channel m t.connection) := by
  have h_sent : ∀ c, (s.after c []).sent = s.sent := fun c => List.append_nil _
  cases h_wait : waitReply channel expected s.connection with
  | mk res c =>
    cases res with
    | waiting =>
      exact ends_of_error (by rw [waitForReply, h_wait])
        ⟨h_sent c, fun m h_m => (by cases h_m), fun m h_m => by cases h_m⟩
    | failed e =>
      have h_run : waitForReply channel expected s =
          (.error (.reply (.libraryException (.status e))),
            { s.after c [] with socket_closed := s.socket_closed || e = .timeout }) := by
        rw [waitForReply, h_wait]
      exact ends_of_error h_run
        ⟨h_sent c, fun m h_m => (by cases h_m), fun m h_m => by cases h_m⟩
    | frame f =>
      cases f with
      | method channel' m =>
        -- a method that closes the channel or the connection is no reply
        by_cases h_mem : m.id ∈ expected
        · exact ends_of_ok (by rw [waitForReply, h_wait]; exact if_pos h_mem)
            ⟨h_mem, c, rfl, waitReply_takesReply h_wait⟩
        · refine ends_of_error (by rw [waitForReply, h_wait]; exact if_neg h_mem)
            ⟨h_sent c, fun m' h_m => (by cases h_m), fun m' h_m => ?_⟩
          cases h_m
          exact ⟨h_mem, waitReply_takesReply h_wait⟩
      | _ =>
        exact ends_of_error (by rw [waitForReply, h_wait])
          ⟨h_sent c, fun m h_m => (by cases h_m), fun m h_m => by cases h_m⟩

/-- What was put into the queue in front of the call does not matter. -/
theorem Connection.TakesReply.trans {channel : BitVec 16} {m : Method} {b c d : Connection}
    (h : b.links = [] → c.links = [] ∧ c.pending = b.pending) (h' : c.TakesReply channel m d) :
    b.TakesReply channel m d := by
  intro h_links
  obtain ⟨h_c, h_pending⟩ := h h_links
  rw [← h_pending]
  exact h' h_c

/-- A request and its reply: what is on the wire is the beginning of the request, however the call
ends. When it ends with a reply, or with a method that closes the channel or the connection instead,
the request was sent whole, and this method is all that was taken from the frames that arrived. -/
theorem simple_rpc_inner_ends (write : Write) (channel : BitVec 16) (request : Method)
    (expected : List MethodNumber) (s : Session) :
    Ends (simple_rpc_inner write channel request expected) s
      (fun m t => m.id ∈ expected ∧ ∃ c, t = s.after c (Frame.method channel request).wire ∧
        s.connection.TakesReply channel m c)
      (fun e t => s.Sends (Frame.method channel request).wire t ∧ (∀ m, e ≠ .reply (.normal m)) ∧
        ∀ m, e = .reply (.serverException m) → m.id ∉ expected ∧
          t.sent = s.sent ++ (Frame.method channel request).wire ∧
          s.connection.TakesReply channel m t.connection) := by
  have h_send := amqp_send_method_inner_ends write channel request s
  refine Ends.bind (Ends.mapStop (h_send.mono (fun _ _ h => h) fun e t h => ?_)) ?_
  · -- a call that fails before the request is sent has no reply
    have h_none : ∀ r, e.returned = .reply r → ∃ e, r = .libraryException e := by
      intro r h_r
      cases e with
      | interrupted i => cases h_r
      | error e =>
        cases h_r
        exact ⟨e, rfl⟩
      | reply r' => exact absurd rfl (h.2 r')
    refine ⟨h.1, fun m h_m => ?_, fun m h_m => ?_⟩
    · obtain ⟨e', h_e⟩ := h_none _ h_m
      cases h_e
    · obtain ⟨e', h_e⟩ := h_none _ h_m
      cases h_e
  · rintro - t ⟨c, rfl, h_kept⟩
    refine (waitForReply_ends channel expected _).mono ?_ ?_
    · rintro m u ⟨h_mem, d, rfl, h_takes⟩
      refine ⟨h_mem, d, ?_, .trans h_kept h_takes⟩
      rw [s.after_after c d, List.append_nil]
    · rintro e u ⟨h_sent, h_normal, h_exception⟩
      refine ⟨⟨_, h_sent, List.prefix_rfl⟩, h_normal, fun m h_m => ?_⟩
      obtain ⟨h_not, h_takes⟩ := h_exception m h_m
      exact ⟨h_not, h_sent, .trans h_kept h_takes⟩

/-- What holds when a function ends holds of the reply that is made of it. -/
theorem replyOf_ends {x : Prog Session Halt (Option Method)} {s : Session}
    {Q : Option Method → Session → Prop} {E : Halt → Session → Prop}
    {R : RpcReply → Session → Prop} {I : Interrupted → Session → Prop} (h : Ends x s Q E)
    (h_ok : ∀ m t, Q m t → R (.normal m) t)
    (h_error : ∀ e t, E (.error e) t → R (.libraryException e) { t with socket_closed := true })
    (h_reply : ∀ r t, E (.reply r) t → R r t) (h_stop : ∀ i t, E (.interrupted i) t → I i t) :
    Ends (replyOf x) s R I := by
  cases h_x : x s with
  | mk res t =>
    cases res with
    | ok m => exact ends_of_ok (by rw [replyOf, h_x]) (h_ok m t (h.ok m t h_x))
    | error e =>
      have h_e := h.stopped e t h_x
      cases e with
      | interrupted i => exact ends_of_error (by rw [replyOf, h_x]) (h_stop i t h_e)
      | error e => exact ends_of_ok (by rw [replyOf, h_x]) (h_error e t h_e)
      | reply r => exact ends_of_ok (by rw [replyOf, h_x]) (h_reply r t h_e)

/-- **A remote procedure call**: what is on the wire is the beginning of the request, however the
call ends. A reply that is given is the one that was asked for; then the request was sent whole, and
the reply alone was taken from the frames that arrived. -/
theorem amqp_simple_rpc_decoded_ends (env : RpcEnv) (channel : BitVec 16) (request : Method)
    (reply_id : MethodNumber) (s : Session) :
    Ends (amqp_simple_rpc_decoded env channel request reply_id) s
      (fun reply t => s.Sends (Frame.method channel request).wire t ∧
        ∀ m, reply = some m → m.id = reply_id ∧
          t.sent = s.sent ++ (Frame.method channel request).wire ∧
          s.connection.TakesReply channel m t.connection)
      (fun _ t => s.Sends (Frame.method channel request).wire t) := by
  -- when the clock fails nothing is sent, and the request follows otherwise
  obtain ⟨clock, write⟩ := env
  have h_rpc := simple_rpc_inner_ends write channel request [reply_id] s
  -- the reply is stored in the state before it is looked at
  refine Ends.bind (Q := fun r t => s.Sends (Frame.method channel request).wire t ∧
    ∀ m, r = .normal (some m) → m.id = reply_id ∧
      t.sent = s.sent ++ (Frame.method channel request).wire ∧
      s.connection.TakesReply channel m t.connection) ?_ ?_
  · cases clock with
    | some e =>
      exact ends_pure ⟨⟨[], (List.append_nil _).symm, List.nil_prefix⟩, fun m h_m => by cases h_m⟩
    | none =>
      have h_map : Ends (some <$> simple_rpc_inner write channel request [reply_id]) s
          (fun reply t => s.Sends (Frame.method channel request).wire t ∧
            ∀ m, reply = some m → m.id = reply_id ∧
              t.sent = s.sent ++ (Frame.method channel request).wire ∧
              s.connection.TakesReply channel m t.connection)
          (fun e t => s.Sends (Frame.method channel request).wire t ∧
            ∀ m, e ≠ .reply (.normal m)) := by
        refine Ends.bind (h_rpc.mono (fun _ _ h_t => h_t) fun _ _ h_e => ⟨h_e.1, h_e.2.1⟩) ?_
        rintro m t ⟨h_id, c, rfl, h_takes⟩
        refine ends_pure ⟨⟨_, rfl, List.prefix_rfl⟩, fun m' h_m => ?_⟩
        cases h_m
        exact ⟨List.mem_singleton.mp h_id, rfl, h_takes⟩
      refine replyOf_ends h_map ?_ ?_ ?_ fun _ _ h_e => h_e.1
      · rintro reply t ⟨h_sends, h_reply⟩
        exact ⟨h_sends, fun m h_m => h_reply m (RpcReply.normal.inj h_m)⟩
      · rintro e t ⟨⟨b, h_sent, h_begins⟩, -⟩
        exact ⟨⟨b, h_sent, h_begins⟩, fun m h_m => by cases h_m⟩
      · rintro r t ⟨h_sends, h_normal⟩
        exact ⟨h_sends, fun m h_m => absurd (congrArg Halt.reply h_m) (h_normal (some m))⟩
  · rintro r t h_r
    refine Ends.bind (Q := fun _ u => u = { t with most_recent_api_result := r })
      (ends_modify rfl) ?_
    rintro - u rfl
    cases r with
    | normal reply =>
      exact ends_pure ⟨h_r.1, fun m h_m => h_r.2 m (congrArg RpcReply.normal h_m)⟩
    | _ => exact ends_pure ⟨h_r.1, fun m h_m => by cases h_m⟩

end Amqp
end WateRMQ
