import WateRMQ.Amqp.Frame

/-!
# Sending

`amqp_send_frame_inner` of `amqp_connection.c` and `amqp_try_send` of `amqp_socket.c`. A frame is
encoded into the outbound buffer and offered to the socket. The socket takes some of it, and the
rest is offered again, until the socket has all of it or a call fails. While the socket takes
nothing, the program waits; when the time for a heartbeat is over, it looks for input and then tries
again.

What the socket, the clock and the other party do is not in the program: it is a parameter, one
`SocketEvent` for each time that the program asks. When there is no event left, the program waits.
-/

namespace WateRMQ
namespace Amqp

open Codec CMem

/-! ### The functions of the source -/

/-- A call of `amqp_socket_send` that takes `n + 1` bytes, or all that are left, or one that takes
nothing, with the result of `do_poll` that follows it. -/
inductive SocketEvent
  | accept (n : ℕ)
  | poll (res : Option Status)

/-- How far `amqp_try_send` came: it waits, it returns the number of the bytes that were taken, or
it returns a status. -/
inductive Sent
  | waiting
  | taken
  | failed (e : Status)
  deriving DecidableEq

/-- `amqp_try_send`, with the bytes that the socket took. -/
def amqp_try_send : List SocketEvent → List UInt8 → List UInt8 × Sent
  | [], _ => ([], .waiting)
  | .accept n :: events, buf_left =>
    let res := buf_left.take (n + 1)
    let buf_left := buf_left.drop (n + 1)
    if buf_left.length = 0 then (res, .taken)
    else
      let r := amqp_try_send events buf_left
      (res ++ r.1, r.2)
  | .poll none :: events, buf_left => amqp_try_send events buf_left
  | .poll (some .timeout) :: _, _ => ([], .taken)
  | .poll (some e) :: _, _ => ([], .failed e)

/-- One turn of `amqp_send_frame_inner`: what the socket does, whether the time that is over is that
of the call, what `amqp_try_recv` returns and what `amqp_time_s_from_now` returns. -/
structure Attempt where
  events : List SocketEvent
  at_deadline : Bool
  received : Option Status
  timer : Option Status

/-- A call that waits, or the status that it returns. -/
inductive Outcome
  | waiting
  | returned (res : Option Status)
  deriving DecidableEq

/-- The loop of `amqp_send_frame_inner`, with the bytes that the socket took. -/
def sendLoop : List Attempt → List UInt8 → List UInt8 × Outcome
  | [], _ => ([], .waiting)
  | a :: attempts, encoded =>
    match amqp_try_send a.events encoded with
    | (sent, .waiting) => (sent, .waiting)
    | (sent, .failed e) => (sent, .returned (some e))
    | (sent, .taken) =>
      if encoded.length ≠ sent.length then
        if a.at_deadline then (sent, .returned (some .timeout))
        else
          match a.received with
          | some .timeout => (sent, .returned (some .heartbeatTimeout))
          | some e => (sent, .returned (some e))
          | none =>
            let r := sendLoop attempts (encoded.drop sent.length)
            (sent ++ r.1, r.2)
      else (sent, .returned a.timer)

/-- `amqp_send_frame_inner`, with the bytes that the socket took. The outbound buffer has the length
`len` and holds what an earlier frame left in it. -/
def amqp_send_frame_inner (attempts : List Attempt) (frame : Frame) (outbound_buffer : Bytes)
    (len : ℕ) : Except Fault (List UInt8 × Outcome) :=
  match amqp_frame_to_bytes frame outbound_buffer len with
  | .error (.fault f) => .error f
  | .error (.status e) => .ok ([], .returned (some e))
  | .ok (mem, n) => .ok (sendLoop attempts (loadBytes mem 0 n))

/-! ### What the socket has taken -/

theorem amqp_try_send_prefix (events : List SocketEvent) (bs : List UInt8) :
    (amqp_try_send events bs).1 <+: bs := by
  induction events generalizing bs with
  | nil => exact List.nil_prefix
  | cons event events ih =>
    cases event with
    | accept n =>
      rw [amqp_try_send]
      split
      · exact List.take_prefix _ _
      · -- what is taken later comes from what is left
        obtain ⟨rest, h_rest⟩ := ih (bs.drop (n + 1))
        refine ⟨rest, ?_⟩
        rw [List.append_assoc, h_rest, List.take_append_drop]
    | poll res =>
      rcases res with - | e
      · exact ih bs
      · cases e <;> exact List.nil_prefix

/-- In whatever pieces the socket takes a frame and however the call ends, what it has taken is the
beginning of the frame. The call succeeds only with the whole frame taken. -/
theorem sendLoop_prefix (attempts : List Attempt) (bs : List UInt8) :
    (sendLoop attempts bs).1 <+: bs ∧
      ((sendLoop attempts bs).2 = .returned none → (sendLoop attempts bs).1 = bs) := by
  induction attempts generalizing bs with
  | nil => exact ⟨List.nil_prefix, fun h => by cases h⟩
  | cons a attempts ih =>
    have h_begins := amqp_try_send_prefix a.events bs
    rw [sendLoop]
    cases h_try : amqp_try_send a.events bs with
    | mk sent res =>
      rw [h_try] at h_begins
      cases res with
      | waiting => exact ⟨h_begins, fun h => by cases h⟩
      | failed e => exact ⟨h_begins, fun h => by cases h⟩
      | taken =>
        dsimp only at h_begins ⊢
        by_cases h_all : bs.length ≠ sent.length
        · rw [if_pos h_all]
          split
          · exact ⟨h_begins, fun h => by cases h⟩
          split
          · exact ⟨h_begins, fun h => by cases h⟩
          · exact ⟨h_begins, fun h => by cases h⟩
          · -- the rest of the frame is the frame of the next attempt
            obtain ⟨rest, rfl⟩ := h_begins
            rw [List.drop_left]
            obtain ⟨⟨left, h_left⟩, h_ok⟩ := ih rest
            refine ⟨⟨left, ?_⟩, fun h => ?_⟩
            · rw [List.append_assoc, h_left]
            · rw [h_ok h]
        · rw [if_neg h_all]
          have h_eq : sent = bs := h_begins.eq_of_length (not_not.mp h_all).symm
          exact ⟨h_begins, fun _ => h_eq⟩

/-- No frame is empty, so that one of which everything was taken was encoded. -/
theorem fits_of_taken {len : ℕ} {f : Frame} {taken : List UInt8}
    (h : taken = [] ∨ f.Encodable ∧ f.wire.length ≤ len)
    (h_all : taken.length = f.wire.length) : f.Encodable ∧ f.wire.length ≤ len := by
  refine h.resolve_left ?_
  rintro rfl
  rw [f.length_wire, List.length_nil] at h_all
  omega

/-- What a call of `amqp_send_frame_inner` puts on the wire is the beginning of the encoding of the
frame, and all of it when the call succeeds. A frame that is not encoded leaves no trace. -/
theorem amqp_send_frame_inner_spec {len : ℕ} (h_len : 20 ≤ len) (attempts : List Attempt)
    (f : Frame) (mem : Bytes) :
    (∃ taken outcome, amqp_send_frame_inner attempts f mem len = .ok (taken, outcome) ∧
      (taken = [] ∨ f.Encodable ∧ f.wire.length ≤ len) ∧ taken <+: f.wire ∧
      (outcome = .returned none → taken = f.wire)) ∨
    ∃ c v, f = .body c v ∧ len < v.length + 8 ∧
      amqp_send_frame_inner attempts f mem len = .error .outOfBounds := by
  rw [amqp_send_frame_inner]
  rcases amqp_frame_to_bytes_spec h_len f mem with ⟨h_enc, h_fits, h_run⟩ | ⟨h_not, -, e, h_run⟩ |
    ⟨c, v, h_f, h_lt, h_run⟩
  · have h_load : loadBytes (storeBytes mem 0 f.wire) 0 f.wire.length = f.wire := by
      rw [loadBytes_storeBytes_same mem 0 (Nat.le_refl _), Nat.sub_self]
      exact List.append_nil _
    obtain ⟨h_begins, h_ok⟩ := sendLoop_prefix attempts f.wire
    refine .inl ⟨_, _, ?_, .inr ⟨h_enc, h_fits⟩, h_begins, h_ok⟩
    rw [h_run]
    dsimp only
    rw [h_load]
  · refine .inl ⟨[], .returned (some e), ?_, .inl rfl, List.nil_prefix, fun h => by cases h⟩
    rw [h_run]
  · refine .inr ⟨c, v, h_f, h_lt, ?_⟩
    rw [h_run]

end Amqp
end WateRMQ
