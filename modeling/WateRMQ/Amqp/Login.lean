import Mathlib.Data.List.TakeWhile
import WateRMQ.Amqp.Capabilities
import WateRMQ.Amqp.Session

/-!
# Logging in

`amqp_login_inner` of `amqp_socket.c`, with the functions that it calls. A client sends the header
of the protocol and waits for `Connection.Start`, answers it and waits for `Connection.Tune`,
answers with the limits that both sides accept, and opens the virtual host. The client asks for no
heartbeats, so that there are none while it waits for the answer to its last request.

* `findMechanism_iff` — a mechanism is in the list when it stands between spaces;
* `negotiate_spec` — the limits after the tuning. The client's size of frames and its heartbeat
  count alone when they are 0, which stands for no limit;
* `amqp_login_inner_ends` — what is on the wire is at any time the beginning of the three answers,
  and a login that succeeds has taken the three methods of the server and nothing else.
-/

namespace WateRMQ
namespace Amqp

open CMem Prog

/-! ### The functions of the source -/

/-- `amqp_cstring_bytes` of a literal. -/
def cstring (s : String) : List UInt8 := s.toList.map fun c => UInt8.ofNat c.toNat

/-- `amqp_sasl_method_enum`, with the arguments that belong to the method. -/
inductive Sasl
  | plain (username password : CStr)
  | external (identity : CStr)
  | undefined

/-- `sasl_method_name`. -/
def sasl_method_name : Sasl → Except Stop (List UInt8)
  | .plain _ _ => .ok (cstring "PLAIN")
  | .external _ => .ok (cstring "EXTERNAL")
  | .undefined => .error .abort

/-- The loop of `sasl_mechanism_in_list`, on what is left of the list. -/
def findMechanism (mechanism start : List UInt8) : Bool :=
  let supported_mechanism := start.takeWhile (· ≠ 32)
  if mechanism = supported_mechanism then true
  else
    match _h : start.dropWhile (· ≠ 32) with
    | [] => false
    | _ :: rest => findMechanism mechanism rest
termination_by start.length
decreasing_by
  have h_le := List.length_dropWhile_le (fun b : UInt8 => decide (b ≠ 32)) start
  rw [_h, List.length_cons] at h_le
  exact h_le

/-- `sasl_mechanism_in_list`. -/
def sasl_mechanism_in_list (mechanisms : List UInt8) (method : Sasl) : Except Stop Bool := do
  let mechanism ← sasl_method_name method
  return mechanisms ≠ [] && findMechanism mechanism mechanisms

/-- `sasl_response`, where `memory` says whether the allocation succeeds. The pool gives nothing for
an identity without characters. -/
def sasl_response (memory : Bool) : Sasl → Except Stop (Option (List UInt8))
  | .plain username password =>
    .ok (if memory then some (0 :: username.chars ++ 0 :: password.chars) else none)
  | .external identity => .ok (if memory && identity.chars ≠ [] then some identity.chars else none)
  | .undefined => .error .abort

/-- The members of `amqp_connection_tune_t` and `amqp_connection_tune_ok_t`. -/
structure Tune where
  channel_max : BitVec 16
  frame_max : BitVec 32
  heartbeat : BitVec 16

/-- The server's limit counts when it is not 0 and lower than the client's. -/
def lower {w : ℕ} (client server : BitVec w) : BitVec w :=
  if server ≠ 0 ∧ server < client then server else client

/-- What `amqp_login_inner` makes of the client's limits and the server's. -/
def negotiate (client server : Tune) : Tune where
  channel_max :=
    if server.channel_max ≠ 0 ∧
      (server.channel_max < client.channel_max ∨ client.channel_max = 0) then server.channel_max
    else if server.channel_max = 0 ∧ client.channel_max = 0 then 0xFFFF
    else client.channel_max
  frame_max := lower client.frame_max server.frame_max
  heartbeat := lower client.heartbeat server.heartbeat

/-- Strings that the preprocessor puts in. -/
structure Build where
  AMQ_PLATFORM : String
  AMQ_COPYRIGHT : String

/-- `default_table`. -/
def default_table (build : Build) : Table := [
  (cstring "product", .utf8 (cstring "rabbitmq-c")),
  (cstring "version", .utf8 (cstring "0.11.0")),
  (cstring "platform", .utf8 (cstring build.AMQ_PLATFORM)),
  (cstring "copyright", .utf8 (cstring build.AMQ_COPYRIGHT)),
  (cstring "information", .utf8 (cstring "See https://github.com/alanxz/rabbitmq-c")),
  (cstring "capabilities", .table [
    (cstring "authentication_failure_close", .boolean true),
    (cstring "exchange_exchange_bindings", .boolean true)])]

/-- The answer to `Connection.Start`. -/
def startOk (client_properties : Table) (mechanism response : List UInt8) : Method :=
  ⟨.connectionStartOk, client_properties, mechanism, response, cstring "en_US", ()⟩

/-- The answer to `Connection.Tune`. -/
def tuneOk (tune : Tune) : Method :=
  ⟨.connectionTuneOk, tune.channel_max, tune.frame_max, tune.heartbeat, ()⟩

/-- The request for the virtual host. -/
def openMethod (vhost : CStr) : Method := ⟨.connectionOpen, vhost.chars, [], 1#1, ()⟩

/-- A function that fails goes to `error_res`. -/
def onStatus (res : Option Status) : Prog Session Halt Unit :=
  res.elim (pure ()) fun e => stop (.error (.status e))

/-- `header` of `send_header_inner`. -/
def protocolHeader : List UInt8 := [0x41, 0x4D, 0x51, 0x50, 0, 0, 9, 1]

/-- `send_header_inner`. When the socket took only a part, its result is the number of the bytes,
and 0 is `AMQP_STATUS_OK`. -/
def send_header_inner (events : List SocketEvent) : Prog Session Halt Unit := fun s =>
  match amqp_try_send events protocolHeader with
  | (sent, .waiting) => (.error (.interrupted .waiting), s.after s.connection sent)
  | (sent, .failed e) => (.error (.error (.status e)), s.after s.connection sent)
  | (sent, .taken) =>
    if sent.length = protocolHeader.length ∨ sent.length = 0 then
      (.ok (), s.after s.connection sent)
    else (.error (.error (.partOfHeader sent.length)), s.after s.connection sent)

/-- What `amqp_tune_connection` meets: whether the reader is between two frames, the results of
`amqp_time_s_from_now`, and whether `realloc` gives a buffer. -/
structure TuneEnv where
  idle : Bool
  send_timer : Option Status
  recv_timer : Option Status
  memory : Bool

/-- `ENFORCE_STATE(state, CONNECTION_STATE_IDLE)`. -/
def enforceIdle (idle : Bool) : Prog Session Halt Unit := check idle (.interrupted (.stop .abort))

/-- `amqp_tune_connection`. -/
def amqp_tune_connection (env : TuneEnv) (channel_max frame_max heartbeat : ℤ) :
    Prog Session Halt Unit := do
  enforceIdle env.idle
  modify fun s => { s with
    channel_max := channel_max, frame_max := frame_max, heartbeat := max heartbeat 0 }
  onStatus env.send_timer
  onStatus env.recv_timer
  modify fun s => { s with outbound_buffer_len := sizeT frame_max }
  check env.memory (.error (.status .noMemory))

/-- What a login meets: the results of the clock, the socket in each call, the allocations, and
whether the reader is between two frames when the pools are released. -/
structure LoginEnv where
  clock : Option Status
  header : List SocketEvent
  start_clock : Option Status
  properties_memory : ℕ → Bool
  channel_pool : Bool
  response_memory : Bool
  merge_memory : ℕ → Bool
  start_ok : Write
  start_ok_idle : Bool
  tune_clock : Option Status
  tune : TuneEnv
  tune_ok : Write
  tune_ok_idle : Bool
  open_write : Write

/-- `AMQP_PROTOCOL_VERSION_MAJOR` and `AMQP_PROTOCOL_VERSION_MINOR`. -/
def sameVersion (version_major version_minor : BitVec 8) : Bool :=
  version_major = 0 ∧ version_minor = 9

/-- A failure inside of a function that does not read from the connection. -/
def Halt.ofFailure : Failure → Halt
  | .fault f => .interrupted (.stop (.fault f))
  | .status e => .error (.status e)

/-- `simple_wait_method_inner` for `Connection.Start`, and what is done with it. -/
def receiveStart (env : LoginEnv) (sasl : Sasl) : Prog Session Halt Unit := do
  let method ← amqp_simple_wait_method_list env.start_clock 0 [.connectionStart]
  match method with
  | ⟨.connectionStart, version_major, version_minor, server_properties, mechanisms, _⟩ =>
    check (sameVersion version_major version_minor) (.error (.status .incompatibleAmqpVersion))
    let server_properties ← ofExcept Halt.ofFailure
      ((amqp_table_clone server_properties).result env.properties_memory)
    modify fun s => { s with server_properties := server_properties }
    let supported ← ofExcept (fun e => .interrupted (.stop e))
      (sasl_mechanism_in_list mechanisms sasl)
    check supported (.error (.status .brokerUnsupportedSaslMethod))
  | _ => stop (.error (.status .wrongMethod))

/-- `Connection.StartOk` is made and sent. -/
def sendStartOk (env : LoginEnv) (build : Build) (client_properties : Option Table) (sasl : Sasl) :
    Prog Session Halt Unit := do
  check env.channel_pool (.error (.status .noMemory))
  let response ← ofExcept (fun e => .interrupted (.stop e)) (sasl_response env.response_memory sasl)
  match response with
  | none => stop (.error (.status .noMemory))
  | some response_bytes =>
    let client_properties ← ofExcept Halt.ofFailure
      ((amqp_merge_capabilities (default_table build) client_properties).result env.merge_memory)
    modify fun s => { s with client_properties := client_properties }
    let mechanism ← ofExcept (fun e => .interrupted (.stop e)) (sasl_method_name sasl)
    amqp_send_method_inner env.start_ok 0 (startOk client_properties mechanism response_bytes)

/-- `amqp_simple_wait_method_list` for `Connection.Tune` or `Connection.Close`, with what the server
asks for. -/
def receiveTune (env : LoginEnv) : Prog Session Halt Tune := do
  let method ← amqp_simple_wait_method_list env.tune_clock 0 [.connectionTune, .connectionClose]
  match method with
  | ⟨.connectionTune, channel_max, frame_max, heartbeat, _⟩ =>
    return ⟨channel_max, frame_max, heartbeat⟩
  | ⟨.connectionClose, decoded⟩ => stop (.reply (.serverException ⟨.connectionClose, decoded⟩))
  | _ => stop (.error (.status .wrongMethod))

/-- The connection is tuned, and `Connection.TuneOk` is sent. -/
def sendTuneOk (env : LoginEnv) (tune : Tune) : Prog Session Halt Unit := do
  amqp_tune_connection env.tune tune.channel_max.toNat tune.frame_max.toInt tune.heartbeat.toNat
  amqp_send_method_inner env.tune_ok 0 (tuneOk tune)

/-- The arguments of `amqp_login_inner` that are `int`, when they are not refused. -/
def clientTune (channel_max frame_max heartbeat : BitVec 32) : Option Tune :=
  if channel_max.toInt < 0 ∨ 0xFFFF < channel_max.toInt then none
  else if frame_max.toInt < 0 then none
  else if heartbeat.toInt < 0 ∨ 0xFFFF < heartbeat.toInt then none
  else some ⟨channel_max.setWidth 16, frame_max, heartbeat.setWidth 16⟩

/-- `amqp_login_inner`. The reply of a login is without a method. -/
def amqp_login_inner (env : LoginEnv) (build : Build) (vhost : CStr)
    (channel_max frame_max heartbeat : BitVec 32) (client_properties : Option Table) (sasl : Sasl) :
    Prog Session Halt (Option Method) :=
  match clientTune channel_max frame_max heartbeat with
  | none => stop (.reply (.libraryException (.status .invalidParameter)))
  | some client => do
    onStatus env.clock
    send_header_inner env.header
    receiveStart env sasl
    sendStartOk env build client_properties sasl
    enforceIdle env.start_ok_idle
    let server ← receiveTune env
    sendTuneOk env (negotiate client server)
    enforceIdle env.tune_ok_idle
    let _ ← simple_rpc_inner env.open_write 0 (openMethod vhost) [.connectionOpenOk]
    return none

/-- `amqp_login`. -/
def amqp_login (env : LoginEnv) (build : Build) (vhost : CStr)
    (channel_max frame_max heartbeat : BitVec 32) (sasl : Sasl) :
    Prog Session Interrupted RpcReply :=
  replyOf (amqp_login_inner env build vhost channel_max frame_max heartbeat (some []) sasl)

/-! ### The mechanism -/

/-- The first mechanism of a list, and those behind the space that follows it. -/
theorem splitOn_space (start : List UInt8) :
    (start.dropWhile (fun b => b ≠ 32) = [] ∧
      start.splitOn 32 = [start.takeWhile fun b => b ≠ 32]) ∨
    ∃ rest, start.dropWhile (fun b => b ≠ 32) = 32 :: rest ∧
      start.splitOn 32 = (start.takeWhile fun b => b ≠ 32) :: rest.splitOn 32 := by
  have h_not : (32 : UInt8) ∉ start.takeWhile (fun b => b ≠ 32) := by
    intro h_mem
    simpa using List.mem_takeWhile_imp h_mem
  have h_parts : start.takeWhile (fun b => b ≠ 32) ++ start.dropWhile (fun b => b ≠ 32) = start :=
    List.takeWhile_append_dropWhile
  cases h_rest : start.dropWhile (fun b => b ≠ 32) with
  | nil =>
    rw [h_rest, List.append_nil] at h_parts
    rw [h_parts] at h_not ⊢
    exact .inl ⟨rfl, List.splitOn_eq_singleton h_not⟩
  | cons b rest =>
    have h_space : b = 32 := by
      have h_head := List.head_dropWhile_not (fun b : UInt8 => decide (b ≠ 32))
        (l := start) (by rw [h_rest]; exact List.cons_ne_nil _ _)
      simp only [h_rest, List.head_cons] at h_head
      exact not_not.mp (of_decide_eq_false h_head)
    subst h_space
    refine .inr ⟨rest, rfl, ?_⟩
    rw [h_rest] at h_parts
    conv_lhs => rw [← h_parts]
    exact List.splitOn_append_cons_self_of_not_mem h_not rest

/-- The loop finds what stands between two spaces. -/
theorem findMechanism_iff (mechanism start : List UInt8) :
    findMechanism mechanism start = true ↔ mechanism ∈ start.splitOn 32 := by
  induction h_len : start.length using Nat.strongRecOn generalizing start with
  | _ len ih =>
    have h_le := List.length_dropWhile_le (fun b : UInt8 => decide (b ≠ 32)) start
    rw [findMechanism]
    rcases splitOn_space start with ⟨h_rest, h_split⟩ | ⟨rest, h_rest, h_split⟩
    · rw [h_split, List.mem_singleton]
      by_cases h_eq : mechanism = start.takeWhile fun b => b ≠ 32
      · rw [if_pos h_eq]
        exact iff_of_true rfl h_eq
      · rw [if_neg h_eq]
        refine iff_of_false ?_ h_eq
        split
        · exact Bool.false_ne_true
        case h_2 b rest h_cons =>
          rw [h_rest] at h_cons
          cases h_cons
    · rw [h_rest, List.length_cons] at h_le
      -- the loop goes on behind the space, where the list is shorter
      rw [h_split, List.mem_cons, ← ih rest.length (by omega) rest rfl]
      by_cases h_eq : mechanism = start.takeWhile fun b => b ≠ 32
      · rw [if_pos h_eq]
        exact iff_of_true rfl (.inl h_eq)
      · rw [if_neg h_eq, or_iff_right h_eq]
        split
        case h_1 h_nil =>
          rw [h_rest] at h_nil
          cases h_nil
        case h_2 b rest' h_cons =>
          rw [h_rest] at h_cons
          cases h_cons
          exact Iff.rfl

/-- The names of the methods have characters. -/
theorem sasl_method_name_ne_nil {method : Sasl} {mechanism : List UInt8}
    (h : sasl_method_name method = .ok mechanism) : mechanism ≠ [] := by
  cases method with
  | plain username password =>
    cases h
    exact List.cons_ne_nil _ _
  | external identity =>
    cases h
    exact List.cons_ne_nil _ _
  | undefined => cases h

/-- A mechanism is in the list when it stands there between spaces. -/
theorem sasl_mechanism_in_list_eq (mechanisms : List UInt8) (method : Sasl) :
    sasl_mechanism_in_list mechanisms method =
      (sasl_method_name method).map fun mechanism =>
        decide (mechanism ∈ mechanisms.splitOn 32) := by
  unfold sasl_mechanism_in_list
  cases h_name : sasl_method_name method with
  | error e => rfl
  | ok mechanism =>
    have h_ne := sasl_method_name_ne_nil h_name
    refine congrArg Except.ok (Bool.eq_iff_iff.mpr ?_)
    rw [Bool.and_eq_true, findMechanism_iff, decide_eq_true_iff, decide_eq_true_iff]
    refine ⟨And.right, fun h => ⟨?_, h⟩⟩
    -- nothing is in a list without characters
    rintro rfl
    rw [List.splitOn_nil, List.mem_singleton] at h
    exact h_ne h

/-- From a response of the method PLAIN, the user and the password can be read back. -/
theorem sasl_response_plain {memory : Bool} {username password : CStr} {response : List UInt8}
    (h : sasl_response memory (.plain username password) = .ok (some response)) :
    response.splitOn 0 = [[], username.chars, password.chars] := by
  cases memory with
  | false => cases h
  | true =>
    cases h
    change (([] : List UInt8) ++ 0 :: (username.chars ++ 0 :: password.chars)).splitOn 0 = _
    rw [List.splitOn_append_cons_self_of_not_mem List.not_mem_nil,
      List.splitOn_append_cons_self_of_not_mem username.noNul,
      List.splitOn_eq_singleton password.noNul]

/-! ### The limits -/

/-- The numbers that a limit allows. 0 stands for no limit. -/
def Allows {w : ℕ} (n : BitVec w) (k : ℕ) : Prop := n = 0 ∨ k ≤ n.toNat

/-- No limit allows every number. -/
theorem allows_zero {w : ℕ} (k : ℕ) : Allows (0 : BitVec w) k := .inl rfl

/-- A limit allows what is not above it. -/
theorem allows_iff {w : ℕ} {n : BitVec w} (h : n ≠ 0) (k : ℕ) : Allows n k ↔ k ≤ n.toNat :=
  or_iff_right h

/-- The lower limit allows what both limits allow. -/
theorem allows_of_lt {w : ℕ} {m n : BitVec w} (h_m : m ≠ 0) (h_n : n ≠ 0) (h : m < n) (k : ℕ) :
    Allows m k ↔ Allows n k ∧ Allows m k := by
  rw [allows_iff h_m, allows_iff h_n]
  rw [BitVec.lt_def] at h
  exact ⟨fun h_k => ⟨h_k.trans h.le, h_k⟩, And.right⟩

/-- The same when the other limit is not the lower one. -/
theorem allows_of_not_lt {w : ℕ} {m n : BitVec w} (h_m : m ≠ 0) (h_n : n ≠ 0) (h : ¬ m < n)
    (k : ℕ) :
    Allows n k ↔ Allows n k ∧ Allows m k := by
  rw [allows_iff h_m, allows_iff h_n]
  rw [BitVec.lt_def, not_lt] at h
  exact ⟨fun h_k => ⟨h_k, h_k.trans h⟩, And.left⟩

/-- `lower` keeps both limits unless the client has none and the server has one. -/
theorem allows_lower_iff {w : ℕ} (client server : BitVec w) :
    (∀ k, Allows (lower client server) k ↔ Allows client k ∧ Allows server k) ↔
      client ≠ 0 ∨ server = 0 := by
  rw [lower]
  by_cases h_server : server = 0
  · -- without a limit of the server the client's counts
    subst h_server
    rw [if_neg (fun h => h.1 rfl)]
    exact iff_of_true (fun k => (and_iff_left (allows_zero k)).symm) (.inr rfl)
  by_cases h_client : client = 0
  · subst h_client
    rw [if_neg (fun h => BitVec.not_lt_zero h.2)]
    refine iff_of_false (fun h => ?_) (fun h => h.elim (fun h_ne => h_ne rfl) h_server)
    -- one more than the server allows
    have h_more := ((h (server.toNat + 1)).mp (allows_zero _)).2
    exact Nat.not_succ_le_self _ ((allows_iff h_server _).mp h_more)
  · refine iff_of_true (fun k => ?_) (.inl h_client)
    by_cases h_lt : server < client
    · rw [if_pos ⟨h_server, h_lt⟩]
      exact allows_of_lt h_server h_client h_lt k
    · rw [if_neg (fun h => h_lt h.2)]
      exact allows_of_not_lt h_server h_client h_lt k

/-- A client without a limit has none afterwards, whatever the server asks for. -/
theorem lower_zero {w : ℕ} (server : BitVec w) : lower 0 server = 0 :=
  if_neg fun h => BitVec.not_lt_zero h.2

/-- From `s`, a stage of the login has come to `t`: it has sent `sent` and taken the frames `taken`,
which were the first ones. -/
structure Session.Reaches (s : Session) (sent : List UInt8) (taken : List Frame) (t : Session) :
    Prop where
  sent_eq : t.sent = s.sent ++ sent
  links : t.connection.links = []
  pending_eq : s.connection.pending = taken ++ t.connection.pending
  socket : t.socket_closed = s.socket_closed

/-- Nothing sent and nothing taken. -/
theorem Session.Reaches.refl {s : Session} (h : s.connection.links = []) : s.Reaches [] [] s :=
  ⟨(List.append_nil _).symm, h, rfl, rfl⟩

/-- Two stages. -/
theorem Session.Reaches.trans {s t u : Session} {b b' : List UInt8} {l l' : List Frame}
    (h : s.Reaches b l t) (h' : t.Reaches b' l' u) : s.Reaches (b ++ b') (l ++ l') u where
  sent_eq := by rw [h'.sent_eq, h.sent_eq, List.append_assoc]
  links := h'.links
  pending_eq := by rw [h.pending_eq, h'.pending_eq, List.append_assoc]
  socket := h'.socket.trans h.socket

/-- What is sent after a stage is sent behind what it sent. -/
theorem Session.Reaches.sends {s t u : Session} {b bs : List UInt8} {l : List Frame}
    (h : s.Reaches b l t) (h' : t.Sends bs u) : s.Sends (b ++ bs) u := by
  obtain ⟨b', h_sent, h_begins⟩ := h'
  refine ⟨b ++ b', ?_, (List.prefix_append_right_inj b).mpr h_begins⟩
  rw [h_sent, h.sent_eq, List.append_assoc]

/-- Nothing sent is the beginning of everything. -/
theorem Session.sends_nil {s t : Session} (h : t.sent = s.sent) (bs : List UInt8) : s.Sends bs t :=
  ⟨[], by rw [h, List.append_nil], List.nil_prefix⟩

/-- The beginning of a beginning. -/
theorem Session.Sends.mono {s t : Session} {bs bs' : List UInt8} (h : s.Sends bs t)
    (h_begins : bs <+: bs') : s.Sends bs' t := by
  obtain ⟨b, h_sent, h_b⟩ := h
  exact ⟨b, h_sent, h_b.trans h_begins⟩

/-- A status that is no error changes nothing. -/
theorem ends_onStatus {res : Option Status} {s : Session} {Q : Unit → Session → Prop}
    {E : Halt → Session → Prop} (h : Q () s) (h' : ∀ e, E e s) : Ends (onStatus res) s Q E := by
  cases res with
  | none => exact ends_pure h
  | some e => exact ends_stop (h' _)

/-- The header is sent, or nothing at all, or a part of it and the login fails. -/
theorem send_header_inner_ends (events : List SocketEvent) {s : Session}
    (h : s.connection.links = []) :
    Ends (send_header_inner events) s
      (fun _ t => ∃ header, (header = [] ∨ header = protocolHeader) ∧ s.Reaches header [] t)
      (fun _ t => s.Sends protocolHeader t) := by
  have h_begins := amqp_try_send_prefix events protocolHeader
  cases h_try : amqp_try_send events protocolHeader with
  | mk sent res =>
    rw [h_try] at h_begins
    cases res with
    | waiting => exact ends_of_error (by rw [send_header_inner, h_try]) ⟨sent, rfl, h_begins⟩
    | failed e => exact ends_of_error (by rw [send_header_inner, h_try]) ⟨sent, rfl, h_begins⟩
    | taken =>
      by_cases h_len : sent.length = protocolHeader.length ∨ sent.length = 0
      · -- a call in which the socket took nothing succeeds, too
        have h_run : send_header_inner events s = (.ok (), s.after s.connection sent) := by
          rw [send_header_inner, h_try]
          exact if_pos h_len
        refine ends_of_ok h_run ⟨sent, ?_, rfl, h, rfl, rfl⟩
        rcases h_len with h_all | h_none
        · exact .inr (h_begins.eq_of_length h_all)
        · exact .inl (List.length_eq_zero_iff.mp h_none)
      · exact ends_of_error (by rw [send_header_inner, h_try]; exact if_neg h_len)
          ⟨sent, rfl, h_begins⟩

/-- The version is 0-9. -/
theorem sameVersion_iff (version_major version_minor : BitVec 8) :
    sameVersion version_major version_minor = true ↔ version_major = 0 ∧ version_minor = 9 :=
  decide_eq_true_iff

/-- What a login accepts as `Connection.Start`: the version is 0-9, and the mechanism is in the
list. -/
def Greets (sasl : Sasl) (m : Method) : Prop :=
  ∃ server_properties mechanisms locales mechanism,
    m = ⟨.connectionStart, 0#8, 9#8, server_properties, mechanisms, locales, ()⟩ ∧
      sasl_method_name sasl = .ok mechanism ∧ mechanism ∈ mechanisms.splitOn 32

/-- The first stage takes `Connection.Start`. -/
theorem receiveStart_ends (env : LoginEnv) (sasl : Sasl) {s : Session}
    (h : s.connection.links = []) :
    Ends (receiveStart env sasl) s
      (fun _ t => ∃ m, Greets sasl m ∧ s.Reaches [] [.method 0 m] t)
      (fun _ t => t.sent = s.sent) := by
  have h_wait := amqp_simple_wait_method_list_ends env.start_clock 0 [.connectionStart] s
  refine h_wait.bind ?_
  rintro ⟨id, decoded⟩ t ⟨h_id, c, rfl, h_takes⟩
  have h_sent : (s.after c []).sent = s.sent := List.append_nil _
  obtain ⟨h_c, h_pending⟩ := h_takes h
  cases List.mem_singleton.mp h_id
  obtain ⟨major, minor, server_properties, mechanisms, locales, u⟩ := decoded
  refine Ends.bind (Q := fun _ t => (sameVersion major minor = true) ∧ t = s.after c []) ?_ ?_
  · exact ends_check (fun h_version => ⟨h_version, rfl⟩) fun _ => h_sent
  rintro - t ⟨h_version, rfl⟩
  refine Ends.bind (Q := fun _ t => t = s.after c [])
    (ends_ofExcept (fun _ _ => rfl) fun _ _ => h_sent) ?_
  rintro properties t rfl
  refine Ends.bind (Q := fun _ t => t = { s.after c [] with server_properties := properties })
    (ends_modify rfl) ?_
  rintro - t rfl
  refine Ends.bind (Q := fun supported t => sasl_mechanism_in_list mechanisms sasl = .ok supported ∧
    t = { s.after c [] with server_properties := properties })
    (ends_ofExcept (fun _ h_ok => ⟨h_ok, rfl⟩) fun _ _ => h_sent) ?_
  rintro supported t ⟨h_supported, rfl⟩
  refine ends_check (fun h_true => ?_) fun _ => h_sent
  replace h_supported := (sasl_mechanism_in_list_eq mechanisms sasl).symm.trans h_supported
  rw [h_true] at h_supported
  -- without a name, `sasl_mechanism_in_list` would not have come back
  cases h_name : sasl_method_name sasl with
  | error e =>
    rw [h_name] at h_supported
    cases h_supported
  | ok mechanism =>
    rw [h_name] at h_supported
    have h_mem : mechanism ∈ mechanisms.splitOn 32 := of_decide_eq_true (Except.ok.inj h_supported)
    obtain ⟨h_major, h_minor⟩ := (sameVersion_iff major minor).mp h_version
    subst h_major h_minor
    exact ⟨_, ⟨server_properties, mechanisms, locales, mechanism, rfl, h_name, h_mem⟩, rfl, h_c,
      h_pending, rfl⟩

/-- What a login may answer to `Connection.Start`. -/
def Answers (env : LoginEnv) (build : Build) (client_properties : Option Table) (sasl : Sasl)
    (m : Method) : Prop :=
  ∃ properties mechanism response,
    (amqp_merge_capabilities (default_table build) client_properties).result env.merge_memory =
      .ok properties ∧
      sasl_method_name sasl = .ok mechanism ∧
      sasl_response env.response_memory sasl = .ok (some response) ∧
      m = startOk properties mechanism response

/-- A method that is sent is a stage of its own. -/
theorem sendMethod_reaches (write : Write) (m : Method) {s : Session}
    (h : s.connection.links = []) :
    Ends (amqp_send_method_inner write 0 m) s (fun _ t => s.Reaches (Frame.method 0 m).wire [] t)
      (fun _ t => s.Sends (Frame.method 0 m).wire t) := by
  refine (amqp_send_method_inner_ends write 0 m s).mono ?_ fun _ _ h_e => h_e.1
  rintro - t ⟨c, rfl, h_kept⟩
  obtain ⟨h_c, h_pending⟩ := h_kept h
  exact ⟨rfl, h_c, h_pending.symm, rfl⟩

/-- The second stage sends the answer. -/
theorem sendStartOk_ends (env : LoginEnv) (build : Build) (client_properties : Option Table)
    (sasl : Sasl) {s : Session} (h : s.connection.links = []) :
    Ends (sendStartOk env build client_properties sasl) s
      (fun _ t => ∃ m, Answers env build client_properties sasl m ∧
        s.Reaches (Frame.method 0 m).wire [] t)
      (fun _ t => t.sent = s.sent ∨ ∃ m, Answers env build client_properties sasl m ∧
        s.Sends (Frame.method 0 m).wire t) := by
  refine Ends.bind (Q := fun _ t => t = s) (ends_check (fun _ => rfl) fun _ => .inl rfl) ?_
  rintro - t rfl
  refine Ends.bind (Q := fun response u => sasl_response env.response_memory sasl = .ok response ∧
    u = t) (ends_ofExcept (fun _ h_ok => ⟨h_ok, rfl⟩) fun _ _ => .inl rfl) ?_
  rintro (- | response) u ⟨h_response, rfl⟩
  · -- without a response there is no answer
    exact ends_stop (.inl rfl)
  refine Ends.bind (Q := fun properties t =>
    (amqp_merge_capabilities (default_table build) client_properties).result env.merge_memory =
      .ok properties ∧ t = u) (ends_ofExcept (fun _ h_ok => ⟨h_ok, rfl⟩) fun _ _ => .inl rfl) ?_
  rintro properties t ⟨h_merge, rfl⟩
  refine Ends.bind (Q := fun _ u => u = { t with client_properties := properties })
    (ends_modify rfl) ?_
  rintro - u rfl
  refine Ends.bind (Q := fun mechanism u => sasl_method_name sasl = .ok mechanism ∧
    u = { t with client_properties := properties })
    (ends_ofExcept (fun _ h_ok => ⟨h_ok, rfl⟩) fun _ _ => .inl rfl) ?_
  rintro mechanism u ⟨h_name, rfl⟩
  have h_answers : Answers env build client_properties sasl
      (startOk properties mechanism response) :=
    ⟨properties, mechanism, response, h_merge, h_name, h_response, rfl⟩
  have h_send := sendMethod_reaches env.start_ok (startOk properties mechanism response)
    (s := { t with client_properties := properties }) h
  refine h_send.mono ?_ ?_
  · rintro - u ⟨h_sent, h_links, h_pending, h_socket⟩
    exact ⟨_, h_answers, h_sent, h_links, h_pending, h_socket⟩
  · exact fun _ u h_sends => .inr ⟨_, h_answers, h_sends⟩

/-- `Connection.Tune` with the limits of the server. -/
def tuneMethod (server : Tune) : Method :=
  ⟨.connectionTune, server.channel_max, server.frame_max, server.heartbeat, ()⟩

/-- The third stage takes `Connection.Tune`. -/
theorem receiveTune_ends (env : LoginEnv) {s : Session} (h : s.connection.links = []) :
    Ends (receiveTune env) s
      (fun server t => s.Reaches [] [.method 0 (tuneMethod server)] t)
      (fun _ t => t.sent = s.sent) := by
  refine (amqp_simple_wait_method_list_ends env.tune_clock 0 [.connectionTune, .connectionClose]
    s).bind ?_
  rintro ⟨id, decoded⟩ t ⟨h_id, c, rfl, h_takes⟩
  have h_sent : (s.after c []).sent = s.sent := List.append_nil _
  obtain ⟨h_c, h_pending⟩ := h_takes h
  rcases List.mem_cons.mp h_id with h_tune | h_close
  · cases h_tune
    obtain ⟨channel_max, frame_max, heartbeat, u⟩ := decoded
    exact ends_pure ⟨rfl, h_c, h_pending, rfl⟩
  · cases List.mem_singleton.mp h_close
    exact ends_stop h_sent

/-- A connection that is tuned has the limits that it was given. -/
theorem amqp_tune_connection_ends (env : TuneEnv) (channel_max frame_max heartbeat : ℤ)
    (s : Session) :
    Ends (amqp_tune_connection env channel_max frame_max heartbeat) s
      (fun _ t => t = { s with
        channel_max := channel_max, frame_max := frame_max, heartbeat := max heartbeat 0,
        outbound_buffer_len := sizeT frame_max })
      (fun _ t => t.sent = s.sent) := by
  -- a step for each statement; from the first assignment on the limits are the new ones
  refine Ends.bind (Q := fun _ t => t = s) (ends_check (fun _ => rfl) fun _ => rfl) ?_
  rintro - t rfl
  refine Ends.bind (Q := fun _ u => u = { t with
    channel_max := channel_max, frame_max := frame_max, heartbeat := max heartbeat 0 })
    (ends_modify rfl) ?_
  rintro - u rfl
  refine Ends.bind (Q := fun _ u => u = { t with
    channel_max := channel_max, frame_max := frame_max, heartbeat := max heartbeat 0 })
    (ends_onStatus rfl fun _ => rfl) ?_
  rintro - u rfl
  refine Ends.bind (Q := fun _ u => u = { t with
    channel_max := channel_max, frame_max := frame_max, heartbeat := max heartbeat 0 })
    (ends_onStatus rfl fun _ => rfl) ?_
  rintro - u rfl
  refine Ends.bind (Q := fun _ u => u = { t with
    channel_max := channel_max, frame_max := frame_max, heartbeat := max heartbeat 0,
    outbound_buffer_len := sizeT frame_max }) (ends_modify rfl) ?_
  rintro - u rfl
  exact ends_check (fun _ => rfl) fun _ => rfl

/-- The limits of a session are those of a tuning. -/
def Session.Tuned (t : Session) (tune : Tune) : Prop :=
  t.channel_max = tune.channel_max.toNat ∧ t.frame_max = tune.frame_max.toInt ∧
    t.heartbeat = tune.heartbeat.toNat

/-- The fourth stage tunes the connection and sends the limits. -/
theorem sendTuneOk_ends (env : LoginEnv) (tune : Tune) {s : Session} (h : s.connection.links = []) :
    Ends (sendTuneOk env tune) s
      (fun _ t => s.Reaches (Frame.method 0 (tuneOk tune)).wire [] t ∧ t.Tuned tune)
      (fun _ t => s.Sends (Frame.method 0 (tuneOk tune)).wire t) := by
  refine Ends.bind ((amqp_tune_connection_ends env.tune _ _ _ s).mono (fun _ _ h_t => h_t)
    fun _ _ h_e => Session.sends_nil h_e _) ?_
  rintro - t rfl
  refine (amqp_send_method_inner_ends env.tune_ok 0 (tuneOk tune) _).mono ?_ fun _ _ h_e => h_e.1
  rintro - t ⟨c, rfl, h_kept⟩
  obtain ⟨h_c, h_pending⟩ := h_kept h
  exact ⟨⟨rfl, h_c, h_pending.symm, rfl⟩, rfl, rfl, max_eq_left (Int.natCast_nonneg _)⟩

/-- A client that asks for no heartbeats gets none. -/
theorem negotiate_heartbeat {channel_max frame_max : BitVec 32} {client server : Tune}
    (h : clientTune channel_max frame_max 0#32 = some client) :
    (negotiate client server).heartbeat = 0 := by
  have h_client : client.heartbeat = 0 := by
    rw [clientTune] at h
    split at h
    · cases h
    split at h
    · cases h
    split at h
    · cases h
    · cases h
      rfl
  change lower client.heartbeat server.heartbeat = 0
  rw [h_client]
  exact lower_zero _

/-! ### The login -/

section Login

variable (env : LoginEnv) (build : Build) (vhost : CStr)
  (channel_max frame_max heartbeat : BitVec 32)
  (client_properties : Option Table) (sasl : Sasl)

/-- What a login sends behind the header. -/
def loginWire (answer : Method) (tune : Tune) : List UInt8 :=
  (Frame.method 0 answer).wire ++ (Frame.method 0 (tuneOk tune)).wire ++
    (Frame.method 0 (openMethod vhost)).wire

/-- How far the bytes of a login go: to the header, to the first answer, or to its end, for which
the server has sent its limits in the second of the frames `pending`. The header is left out when
the time is over before the socket takes anything. -/
inductive LoginScript (pending : List Frame) : List UInt8 → Prop
  | header : LoginScript pending protocolHeader
  | startOk {header : List UInt8} {answer : Method}
      (h_header : header = [] ∨ header = protocolHeader)
      (h_answer : Answers env build client_properties sasl answer) :
      LoginScript pending (header ++ (Frame.method 0 answer).wire)
  | whole {header : List UInt8} {answer start : Method} {client server : Tune} {rest : List Frame}
      (h_header : header = [] ∨ header = protocolHeader)
      (h_answer : Answers env build client_properties sasl answer)
      (h_client : clientTune channel_max frame_max heartbeat = some client)
      (h_pending : pending = .method 0 start :: .method 0 (tuneMethod server) :: rest) :
      LoginScript pending (header ++ loginWire vhost answer (negotiate client server))

/-- What a login has done when it succeeds. -/
structure LoggedIn (s t : Session) (client server : Tune)
    (start answer openOk : Method) : Prop where
  client_eq : clientTune channel_max frame_max heartbeat = some client
  greets : Greets sasl start
  answers : Answers env build client_properties sasl answer
  openOk_id : openOk.id = .connectionOpenOk
  sent_eq : ∃ header, (header = [] ∨ header = protocolHeader) ∧
    t.sent = s.sent ++ (header ++ loginWire vhost answer (negotiate client server))
  pending_eq : ∃ before rest, s.connection.pending = .method 0 start ::
      .method 0 (tuneMethod server) :: (before ++ .method 0 openOk :: rest) ∧
    t.connection.pending = before ++ rest
  tuned : t.Tuned (negotiate client server)
  socket_eq : t.socket_closed = s.socket_closed

/-- **A login without heartbeats**: whatever the server sends and the socket does, what is on the
wire is the beginning of the header, which may be missing, and the three answers. A login that
succeeds has taken `Connection.Start`, `Connection.Tune` and `Connection.OpenOk` from the frames
that arrived and left the others in their order, it has sent all of the answers, and the limits of
the connection are those that were negotiated. Then heartbeats are still off. -/
theorem amqp_login_inner_ends (h_heartbeat : heartbeat = 0#32) {s : Session}
    (h : s.connection.links = []) :
    Ends (amqp_login_inner env build vhost channel_max frame_max heartbeat client_properties sasl) s
      (fun reply t => reply = none ∧ t.heartbeat = 0 ∧ ∃ client server start answer openOk,
        LoggedIn env build vhost channel_max frame_max heartbeat client_properties sasl s t client
          server start answer openOk)
      (fun _ t => ∃ script, LoginScript env build vhost channel_max frame_max heartbeat
        client_properties sasl s.connection.pending script ∧ s.Sends script t) := by
  have h_begin : ∀ {t : Session}, s.Sends protocolHeader t → ∃ script, LoginScript env build vhost
      channel_max frame_max heartbeat client_properties sasl s.connection.pending script ∧
        s.Sends script t := fun h_t => ⟨_, .header, h_t⟩
  unfold amqp_login_inner
  split
  case h_1 => exact ends_stop (h_begin (Session.sends_nil rfl _))
  case h_2 client h_client =>
  refine Ends.bind (Q := fun _ t => t = s)
    (ends_onStatus rfl fun _ => h_begin (Session.sends_nil rfl _)) ?_
  rintro - t rfl
  refine ((send_header_inner_ends env.header h).mono (fun _ _ h_t => h_t)
    fun _ _ => h_begin).bind ?_
  rintro - t₁ ⟨header, h_header, h_t₁⟩
  -- what was sent so far is the beginning of each script
  have h_start : header <+: protocolHeader := by
    rcases h_header with rfl | rfl
    · exact List.nil_prefix
    · exact List.prefix_rfl
  have h_first : ∀ {u : Session}, u.sent = t₁.sent → t.Sends protocolHeader u := fun h_u =>
    ⟨header, h_u.trans h_t₁.sent_eq, h_start⟩
  refine ((receiveStart_ends env sasl h_t₁.links).mono (fun _ _ h_t => h_t)
    fun _ _ h_e => h_begin (h_first h_e)).bind ?_
  rintro - t₂ ⟨start, h_greets, h_t₂⟩
  have h_t₁₂ := h_t₁.trans h_t₂
  refine ((sendStartOk_ends env build client_properties sasl h_t₂.links).mono (fun _ _ h_t => h_t)
    ?_).bind ?_
  · rintro - u (h_sent | ⟨answer, h_answer, h_sends⟩)
    · refine h_begin (h_first (h_sent.trans ?_))
      rw [h_t₂.sent_eq, List.append_nil]
    · refine ⟨_, .startOk h_header h_answer, ?_⟩
      have h_u := h_t₁₂.sends h_sends
      rw [List.append_nil] at h_u
      exact h_u
  rintro - t₃ ⟨answer, h_answer, h_t₃⟩
  have h_t₁₃ := h_t₁₂.trans h_t₃
  rw [List.append_nil] at h_t₁₃
  have h_answered : ∀ {u : Session}, u.sent = t₃.sent → ∃ script, LoginScript env build vhost
      channel_max frame_max heartbeat client_properties sasl t.connection.pending script ∧
        t.Sends script u := fun h_u =>
    ⟨_, .startOk h_header h_answer, _, h_u.trans h_t₁₃.sent_eq, List.prefix_rfl⟩
  refine Ends.bind (Q := fun _ u => u = t₃) (ends_check (fun _ => rfl) fun _ => h_answered rfl) ?_
  rintro - u rfl
  refine ((receiveTune_ends env h_t₃.links).mono (fun _ _ h_t => h_t)
    fun _ _ h_e => h_answered h_e).bind ?_
  rintro server t₄ h_t₄
  have h_t₁₄ := h_t₁₃.trans h_t₄
  rw [List.append_nil] at h_t₁₄
  -- from here on the server's limits are known
  have h_script : LoginScript env build vhost channel_max frame_max heartbeat client_properties sasl
      t.connection.pending (header ++ loginWire vhost answer (negotiate client server)) :=
    .whole h_header h_answer h_client h_t₁₄.pending_eq
  refine ((sendTuneOk_ends env (negotiate client server) h_t₄.links).mono (fun _ _ h_t => h_t)
    ?_).bind ?_
  · intro _ u h_sends
    refine ⟨_, h_script, (h_t₁₄.sends h_sends).mono ?_⟩
    rw [loginWire, ← List.append_assoc, ← List.append_assoc]
    exact List.prefix_append _ _
  rintro - t₅ ⟨h_t₅, h_tuned⟩
  have h_t₁₅ := h_t₁₄.trans h_t₅
  have h_wire : ∀ w, header ++ (Frame.method 0 answer).wire ++
      (Frame.method 0 (tuneOk (negotiate client server))).wire ++ w =
        header ++ ((Frame.method 0 answer).wire ++
          (Frame.method 0 (tuneOk (negotiate client server))).wire ++ w) := by
    intro w
    simp only [List.append_assoc]
  refine Ends.bind (Q := fun _ u => u = t₅) (ends_check (fun _ => rfl) fun _ => ?_) ?_
  · refine ⟨_, h_script, _, h_t₁₅.sent_eq, ?_⟩
    rw [loginWire, ← h_wire]
    exact List.prefix_append _ _
  rintro - u rfl
  refine ((simple_rpc_inner_ends env.open_write 0 (openMethod vhost) [.connectionOpenOk] u).mono
    (fun _ _ h_t => h_t) ?_).bind ?_
  · intro _ v h_e
    have h_sends := h_t₁₅.sends h_e.1
    rw [h_wire] at h_sends
    exact ⟨_, h_script, h_sends⟩
  rintro openOk v ⟨h_id, c, rfl, h_takes⟩
  refine ends_pure ⟨rfl, ?_, client, server, start, answer, openOk, ?_⟩
  · -- the lower one of no heartbeat and that of the server
    change u.heartbeat = 0
    rw [h_tuned.2.2, negotiate_heartbeat (h_heartbeat ▸ h_client)]
    rfl
  obtain ⟨h_c, channel', before, rest, h_channel, h_pending, h_pending'⟩ := h_takes h_t₁₅.links
  have h_open : openOk.id = .connectionOpenOk := List.mem_singleton.mp h_id
  have h_zero : channel' = 0 := by
    refine h_channel.resolve_right fun h_close => ?_
    rw [h_open] at h_close
    cases h_close
  subst h_zero
  refine ⟨h_client, h_greets, h_answer, h_open, ⟨header, h_header, ?_⟩,
    ⟨before, rest, ?_, h_pending'⟩,
    h_tuned, h_t₁₅.socket⟩
  · change u.sent ++ _ = _
    rw [h_t₁₅.sent_eq, loginWire, ← h_wire, List.append_assoc]
  · rw [h_t₁₅.pending_eq, h_pending]
    rfl

end Login

/-- A session whose server has answered already. -/
def servedSession : Session :=
  let events : List Event := [
    .frame (.method 0 ⟨.connectionStart, 0#8, 9#8, [], cstring "AMQPLAIN PLAIN", [], ()⟩),
    .frame (.method 0 (tuneMethod ⟨2047#16, 4096#32, 60#16⟩)),
    .frame (.method 0 ⟨.connectionOpenOk, [], ()⟩)]
  ⟨⟨[], events, []⟩, [], false, 131072, 0, 131072, 0, [], [], .none⟩

/-- The socket takes what it is given, and nothing fails. -/
def promptEnv : LoginEnv :=
  let write : Write := ⟨[⟨[.accept 131072], false, none, none⟩], fun _ => 0⟩
  ⟨none, [.accept 7], none, fun _ => true, true, true, fun _ => true, write, true, none,
    ⟨true, none, none, true⟩, write, true, write⟩

theorem amqp_login_inner_served :
    servedSession.connection.links = [] ∧
      ∃ t client server start answer openOk,
        amqp_login_inner promptEnv ⟨"Linux", ""⟩ ⟨[47], by decide⟩ 0#32 131072#32 0#32 (some [])
          (.plain ⟨[117], by decide⟩ ⟨[112], by decide⟩) servedSession = (.ok none, t) ∧
        LoggedIn promptEnv ⟨"Linux", ""⟩ ⟨[47], by decide⟩ 0#32 131072#32 0#32 (some [])
          (.plain ⟨[117], by decide⟩ ⟨[112], by decide⟩) servedSession t client server start answer
          openOk := by
  refine ⟨rfl, ?_⟩
  have h_ends := amqp_login_inner_ends promptEnv ⟨"Linux", ""⟩ ⟨[47], by decide⟩ 0#32 131072#32 0#32
    (some []) (.plain ⟨[117], by decide⟩ ⟨[112], by decide⟩) rfl (s := servedSession) rfl
  have h_succeeds : (amqp_login_inner promptEnv ⟨"Linux", ""⟩ ⟨[47], by decide⟩ 0#32 131072#32 0#32
      (some []) (.plain ⟨[117], by decide⟩ ⟨[112], by decide⟩) servedSession).1.isOk = true := by
    decide +kernel
  generalize h_run : amqp_login_inner promptEnv _ _ _ _ _ _ _ servedSession = r at h_succeeds ⊢
  obtain ⟨e | reply, t⟩ := r
  · cases h_succeeds
  obtain ⟨rfl, -, client, server, start, answer, openOk, h_logged⟩ := h_ends.ok reply t h_run
  exact ⟨t, client, server, start, answer, openOk, rfl, h_logged⟩

end Amqp
end WateRMQ
