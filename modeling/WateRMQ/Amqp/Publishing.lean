import WateRMQ.Amqp.EndToEnd

/-!
# Publishing

`amqp_basic_publish` of `amqp_api.c`: a method, a header with the size of the body, and the body in
fragments that fit into a frame.

`amqp_basic_publish_spec` says what it puts on the wire, whatever the socket does: the beginning of
the encoding of these frames, and all of it when the call succeeds. A fragment never leaves the
buffer. `amqp_read_message_publish` says that `amqp_read_message` then gives the properties and the
body at the other end.
-/

namespace WateRMQ
namespace Amqp

open CMem Stream

/-! ### The functions of the source -/

section Functions

variable {α : Type}

/-- A call, and what follows it when it succeeds. -/
def thenSend (call rest : Except Fault (List α × Outcome)) : Except Fault (List α × Outcome) := do
  let (sent, outcome) ← call
  if outcome = .returned none then
    let (sent', outcome) ← rest
    return (sent ++ sent', outcome)
  else return (sent, outcome)

/-- The `while` loop of `amqp_basic_publish`, on what is left of the body. The calls of
`amqp_send_frame_inner` have numbers; their last argument is whether `AMQP_SF_MORE` is set. With no
`fuel` left, the loop has not ended. -/
def publishBody (send : ℕ → Frame → Bool → Except Fault (List α × Outcome)) (channel : BitVec 16)
    (usable_body_payload_size : ℕ) : ℕ → ℕ → List UInt8 → Except Fault (List α × Outcome)
  | 0, _, remaining => .ok ([], if remaining.length = 0 then .returned none else .waiting)
  | fuel + 1, n, remaining =>
    if remaining.length = 0 then .ok ([], .returned none)
    else if usable_body_payload_size ≤ remaining.length then
      thenSend (send n (.body channel (remaining.take usable_body_payload_size)) true)
        (publishBody send channel usable_body_payload_size fuel (n + 1)
          (remaining.drop usable_body_payload_size))
    else
      thenSend (send n (.body channel remaining) false)
        (publishBody send channel usable_body_payload_size fuel (n + 1) [])

/-- `amqp_basic_publish_t`, with the number 0 as its ticket. -/
def publishMethod (exchange routing_key : List UInt8) (mandatory immediate : Bool) : Method :=
  ⟨.basicPublish, 0#16, exchange, routing_key,
    BitVec.ofBool immediate ++ BitVec.ofBool mandatory, ()⟩

/-- `amqp_basic_properties_t`. -/
abbrev BasicProperties := { p : Properties // p.class_id = .basic }

/-- `default_properties`. -/
def default_properties : BasicProperties := ⟨⟨.basic, 0#32, ()⟩, rfl⟩

/-- The check of the heartbeat in `amqp_basic_publish`. `clock` is what `amqp_time_has_past` says
about the time for a heartbeat from the other party, and `received` is what `amqp_try_recv` returns
then. -/
def checkHeartbeat (clock received : Option Status) : Option Status :=
  match clock with
  | some .timerFailure => some .timerFailure
  | some .timeout =>
    match received with
    | some .timeout => some .heartbeatTimeout
    | res => res
  | _ => none

/-- `amqp_basic_publish`. -/
def amqp_basic_publish (send : ℕ → Frame → Bool → Except Fault (List α × Outcome))
    (clock received : Option Status) (frame_max : ℤ) (fuel : ℕ) (channel : BitVec 16)
    (exchange routing_key : List UInt8) (mandatory immediate : Bool)
    (properties : Option BasicProperties)
    (body : List UInt8) : Except Fault (List α × Outcome) :=
  let usable_body_payload_size := sizeT (frame_max - (HEADER_SIZE + FOOTER_SIZE))
  match checkHeartbeat clock received with
  | some e => .ok ([], .returned (some e))
  | none =>
    thenSend
      (send 0 (.method channel (publishMethod exchange routing_key mandatory immediate)) true)
      (thenSend (send 1 (.header channel (BitVec.ofNat 64 body.length)
          (properties.getD default_properties).val) (decide (0 < body.length)))
        (publishBody send channel usable_body_payload_size fuel 2 body))

end Functions

/-! ### The calls -/

/-- Calls one after the other, up to the first one that fails. -/
def sendCalls {α : Type} (send : ℕ → Frame → Bool → Except Fault (List α × Outcome)) :
    ℕ → List (Frame × Bool) → Except Fault (List α × Outcome)
  | _, [] => .ok ([], .returned none)
  | n, c :: calls => thenSend (send n c.1 c.2) (sendCalls send (n + 1) calls)

/-- The fragments of a body: all but the last one are as long as they can be, and none is empty. -/
structure Fragments (usable : ℕ) (body : List UInt8) (fragments : List (List UInt8)) : Prop where
  flatten : fragments.flatten = body
  nonempty : [] ∉ fragments
  full : ∀ v ∈ fragments.dropLast, v.length = usable
  le : ∀ v ∈ fragments, v.length ≤ usable

/-- The calls for the fragments: `AMQP_SF_MORE` is set for those that are as long as they can be. -/
def bodyCalls (channel : BitVec 16) (usable : ℕ) (fragments : List (List UInt8)) :
    List (Frame × Bool) :=
  fragments.map fun v => (.body channel v, decide (v.length = usable))

/-- A full fragment in front of the others. -/
theorem Fragments.cons {usable : ℕ} {v : List UInt8} {body : List UInt8}
    {fragments : List (List UInt8)} (h : Fragments usable body fragments) (h_v : v.length = usable)
    (h_pos : 0 < usable) : Fragments usable (v ++ body) (v :: fragments) where
  flatten := by rw [List.flatten_cons, h.flatten]
  nonempty := by
    intro h_mem
    rcases List.mem_cons.mp h_mem with h_nil | h_mem
    · rw [← h_nil, List.length_nil] at h_v
      omega
    · exact h.nonempty h_mem
  full := by
    intro w h_w
    cases fragments with
    | nil => cases h_w
    | cons u fragments =>
      rcases List.mem_cons.mp h_w with rfl | h_w
      · exact h_v
      · exact h.full w h_w
  le := by
    intro w h_w
    rcases List.mem_cons.mp h_w with rfl | h_w
    · exact Nat.le_of_eq h_v
    · exact h.le w h_w

theorem bodyCalls_cons (channel : BitVec 16) (usable : ℕ) (v : List UInt8)
    (fragments : List (List UInt8)) : bodyCalls channel usable (v :: fragments) =
      (.body channel v, decide (v.length = usable)) :: bodyCalls channel usable fragments := rfl

/-- The calls of `amqp_basic_publish`. -/
def publishCalls (channel : BitVec 16) (exchange routing_key : List UInt8)
    (mandatory immediate : Bool) (p : Properties) (body : List UInt8) (usable : ℕ)
    (fragments : List (List UInt8)) : List (Frame × Bool) :=
  (.method channel (publishMethod exchange routing_key mandatory immediate), true) ::
    (.header channel (BitVec.ofNat 64 body.length) p, decide (0 < body.length)) ::
      bodyCalls channel usable fragments

/-- The loop cuts the body into fragments. -/
theorem publishBody_eq (usable : ℕ) (h_pos : 0 < usable) (channel : BitVec 16)
    (body : List UInt8) :
    ∃ fragments, Fragments usable body fragments ∧
      ∀ {α : Type} (send : ℕ → Frame → Bool → Except Fault (List α × Outcome)) (fuel n : ℕ),
        body.length ≤ fuel → publishBody send channel usable fuel n body =
          sendCalls send n (bodyCalls channel usable fragments) := by
  induction h_len : body.length using Nat.strongRecOn generalizing body with
  | _ len ih =>
    subst h_len
    by_cases h_nil : body = []
    · subst h_nil
      refine ⟨[], ⟨rfl, List.not_mem_nil, List.forall_mem_nil _, List.forall_mem_nil _⟩, ?_⟩
      intro α send fuel n _
      cases fuel <;> rfl
    have h_length := List.length_pos_iff.mpr h_nil
    by_cases h_le : usable ≤ body.length
    · -- a full fragment, and the rest
      have h_take : (body.take usable).length = usable := List.length_take_of_le h_le
      -- the rest of the body is shorter, by induction on its length
      obtain ⟨fragments, h_fragments, h_send⟩ :=
        ih (body.drop usable).length (by rw [List.length_drop]; omega) (body.drop usable) rfl
      have h_all := h_fragments.cons h_take h_pos
      rw [List.take_append_drop] at h_all
      refine ⟨body.take usable :: fragments, h_all, ?_⟩
      intro α send fuel n h_fuel
      obtain ⟨fuel, rfl⟩ : ∃ k, fuel = k + 1 := Nat.exists_eq_succ_of_ne_zero (by omega)
      rw [publishBody, if_neg (by omega), if_pos h_le,
        h_send send fuel (n + 1) (by rw [List.length_drop]; omega), bodyCalls_cons, sendCalls,
        decide_eq_true h_take]
    · refine ⟨[body], ⟨List.append_nil _, ?_, List.forall_mem_nil _, ?_⟩, ?_⟩
      · intro h_mem
        exact h_nil (List.mem_singleton.mp h_mem).symm
      · intro v h_v
        rw [List.mem_singleton.mp h_v]
        omega
      · intro α send fuel n h_fuel
        obtain ⟨fuel, rfl⟩ : ∃ k, fuel = k + 1 := Nat.exists_eq_succ_of_ne_zero (by omega)
        have h_end : publishBody send channel usable fuel (n + 1) [] =
            .ok ([], .returned none) := by
          cases fuel <;> rfl
        rw [publishBody, if_neg (by omega), if_neg h_le, h_end, bodyCalls_cons, sendCalls,
          decide_eq_false (by omega)]
        rfl

section Publish

variable {frame_max : ℤ} (h_min : 8 < frame_max) (h_lt : frame_max < 2 ^ 31)
include h_min h_lt

/-- The room for a body in a frame. -/
theorem usable_eq : sizeT (frame_max - (HEADER_SIZE + FOOTER_SIZE)) = frame_max.toNat - 8 := by
  rw [sizeT, HEADER_SIZE, FOOTER_SIZE, Int.emod_eq_of_lt (by omega) (by omega)]
  omega

/-- `amqp_basic_publish` makes its calls one after the other, when the check of the heartbeat finds
nothing. -/
theorem amqp_basic_publish_eq (channel : BitVec 16) (exchange routing_key : List UInt8)
    (mandatory immediate : Bool) (properties : Option BasicProperties) (body : List UInt8) :
    ∃ fragments, Fragments (frame_max.toNat - 8) body fragments ∧
      ∀ {α : Type} (send : ℕ → Frame → Bool → Except Fault (List α × Outcome))
        (clock received : Option Status) (fuel : ℕ), body.length ≤ fuel →
        amqp_basic_publish send clock received frame_max fuel channel exchange routing_key mandatory
          immediate properties body =
        match checkHeartbeat clock received with
        | some e => .ok ([], .returned (some e))
        | none => sendCalls send 0 (publishCalls channel exchange routing_key mandatory immediate
            (properties.getD default_properties).val body (frame_max.toNat - 8) fragments) := by
  obtain ⟨fragments, h_fragments, h_send⟩ :=
    publishBody_eq (frame_max.toNat - 8) (by omega) channel body
  refine ⟨fragments, h_fragments, ?_⟩
  intro α send clock received fuel h_fuel
  rw [amqp_basic_publish, usable_eq h_min h_lt, h_send send fuel 2 h_fuel]
  rfl

end Publish

/-! ### The flag of the calls -/

/-- A call that always succeeds and writes down what it is given. -/
def record (_ : ℕ) (f : Frame) (more : Bool) : Except Fault (List (Frame × Bool) × Outcome) :=
  .ok ([(f, more)], .returned none)

/-- Calls that are recorded all succeed. -/
theorem sendCalls_record (n : ℕ) (calls : List (Frame × Bool)) :
    sendCalls record n calls = .ok (calls, .returned none) := by
  induction calls generalizing n with
  | nil => rfl
  | cons c calls ih =>
    rw [sendCalls, ih]
    rfl

/-- Full fragments have the length of one of them, so many times. -/
theorem length_flatten_of_full {usable : ℕ} {fragments : List (List UInt8)}
    (h : ∀ v ∈ fragments, v.length = usable) :
    fragments.flatten.length = fragments.length * usable := by
  induction fragments with
  | nil => exact (Nat.zero_mul _).symm
  | cons v fragments ih =>
    rw [List.flatten_cons, List.length_append, h v List.mem_cons_self,
      ih fun w h_w => h w (List.mem_cons_of_mem v h_w), List.length_cons, Nat.succ_mul,
      Nat.add_comm]

/-- The last fragment is full exactly when the full fragments cover the body. -/
theorem Fragments.last_full {usable : ℕ} {body v : List UInt8} {init : List (List UInt8)}
    (h : Fragments usable body (init ++ [v])) : v.length = usable ↔ usable ∣ body.length := by
  have h_full : ∀ w ∈ init, w.length = usable := by
    have h_init := h.full
    rw [List.dropLast_concat] at h_init
    exact h_init
  have h_le := h.le v (List.mem_append_right _ (List.mem_singleton_self v))
  have h_pos : 0 < v.length := by
    refine List.length_pos_iff.mpr fun h_nil => h.nonempty ?_
    rw [h_nil]
    exact List.mem_append_right _ (List.mem_singleton_self [])
  have h_length : body.length = init.length * usable + v.length := by
    rw [← h.flatten, List.flatten_append, List.length_append, length_flatten_of_full h_full,
      List.flatten_singleton]
  -- the full fragments are a multiple of their length, so the last one decides
  rw [h_length, Nat.dvd_add_right (Nat.dvd_mul_left usable init.length)]
  refine ⟨fun h_eq => by rw [h_eq], fun h_dvd => ?_⟩
  exact Nat.le_antisymm h_le (Nat.le_of_dvd h_pos h_dvd)

/-- The calls of a publication set `AMQP_SF_MORE`, up to the last one. The last one sets it, too,
when full fragments cover the body, although nothing follows it. -/
theorem amqp_basic_publish_more {frame_max : ℤ} (h_min : 8 < frame_max) (h_lt : frame_max < 2 ^ 31)
    {fuel : ℕ} (channel : BitVec 16) (exchange routing_key : List UInt8)
    (mandatory immediate : Bool) (properties : Option BasicProperties) (body : List UInt8)
    (h_fuel : body.length ≤ fuel) :
    ∃ init f more, amqp_basic_publish record none none frame_max fuel channel exchange routing_key
        mandatory immediate properties body = .ok (init ++ [(f, more)], .returned none) ∧
      (∀ c ∈ init, c.2 = true) ∧
      (more = true ↔ body ≠ [] ∧ frame_max.toNat - 8 ∣ body.length) := by
  obtain ⟨fragments, h_fragments, h_eq⟩ := amqp_basic_publish_eq h_min h_lt channel exchange
    routing_key mandatory immediate properties body
  rw [h_eq record none none fuel h_fuel]
  change ∃ init f more, sendCalls record 0 _ = _ ∧ _
  rw [sendCalls_record, publishCalls]
  rcases List.eq_nil_or_concat' fragments with rfl | ⟨init, v, rfl⟩
  · -- there is no body, and the header is the last frame
    have h_body : body = [] := h_fragments.flatten.symm
    subst h_body
    refine ⟨[_], _, _, rfl, List.forall_mem_singleton.mpr rfl, ?_⟩
    exact iff_of_false (fun h => by cases h) fun h => h.1 rfl
  · have h_body : body ≠ [] := by
      intro h_nil
      have h_v := List.flatten_eq_nil_iff.mp (h_fragments.flatten.trans h_nil) v (by simp)
      exact h_fragments.nonempty (by simp [h_v])
    rw [bodyCalls, List.map_append, ← List.cons_append, ← List.cons_append]
    refine ⟨_, _, _, rfl, ?_, ?_⟩
    · intro c h_c
      rcases List.mem_cons.mp h_c with rfl | h_c
      · rfl
      rcases List.mem_cons.mp h_c with rfl | h_c
      · exact decide_eq_true (List.length_pos_iff.mpr h_body)
      obtain ⟨w, h_w, rfl⟩ := List.mem_map.mp h_c
      refine decide_eq_true (h_fragments.full w ?_)
      rw [List.dropLast_concat]
      exact h_w
    · rw [decide_eq_true_iff, h_fragments.last_full]
      exact ⟨fun h => ⟨h_body, h⟩, fun h => h.2⟩

/-- A body of one byte. -/
theorem amqp_basic_publish_more_dot :
    ∃ init f more, amqp_basic_publish record none none 4096 1 1 [] [] false false none [46] =
        .ok (init ++ [(f, more)], .returned none) ∧ (∀ c ∈ init, c.2 = true) ∧
      (more = true ↔ [(46 : UInt8)] ≠ [] ∧ (4096 : ℤ).toNat - 8 ∣ [(46 : UInt8)].length) :=
  amqp_basic_publish_more (by decide) (by decide) 1 [] [] false false none [46] (Nat.le_refl 1)

/-! ### What is on the wire -/

/-- A call of `amqp_send_frame_inner` on a buffer of the length `len`. What the socket does in it,
and what the buffer still holds, depends on the number of the call. -/
def sendFrame (len : ℕ) (env : ℕ → Bool → List Attempt × Bytes) (n : ℕ) (f : Frame) (more : Bool) :
    Except Fault (List UInt8 × Outcome) :=
  amqp_send_frame_inner (env n more).1 f (env n more).2 len

/-- Whatever the socket does, calls one after the other put the beginning of the encoding of their
frames on the wire, and all of it when they succeed. -/
theorem sendCalls_prefix {len : ℕ} (h_len : 20 ≤ len) (env : ℕ → Bool → List Attempt × Bytes)
    {calls : List (Frame × Bool)}
    (h_fits : ∀ f ∈ calls.map Prod.fst, ∀ ch v, f = .body ch v → v.length + 8 ≤ len) (n : ℕ) :
    ∃ sent outcome, sendCalls (sendFrame len env) n calls = .ok (sent, outcome) ∧
      sent <+: (calls.map Prod.fst).flatMap Frame.wire ∧ (outcome = .returned none →
        sent = (calls.map Prod.fst).flatMap Frame.wire ∧
          ∀ f ∈ calls.map Prod.fst, f.Encodable ∧ f.wire.length ≤ len) := by
  induction calls generalizing n with
  | nil => exact ⟨[], .returned none, rfl, List.nil_prefix, fun _ => ⟨rfl, List.forall_mem_nil _⟩⟩
  | cons c calls ih =>
    obtain ⟨sent', outcome', h_rest, h_begins', h_ok'⟩ :=
      ih (fun f h_f => h_fits f (List.mem_cons_of_mem c.1 h_f)) (n + 1)
    rw [sendCalls, thenSend]
    -- the call puts its frame on the wire or a part of it; a body always has room
    rcases amqp_send_frame_inner_spec h_len (env n c.2).1 c.1 (env n c.2).2 with
      ⟨sent, outcome, h_run, h_enc, h_begins, h_ok⟩ | ⟨ch, v, h_body, h_lt, -⟩
    · rw [sendFrame, h_run]
      change ∃ a b, (if outcome = .returned none then _ else _) = Except.ok (a, b) ∧ _
      by_cases h_all : outcome = .returned none
      · -- the whole frame is on the wire, and the next call follows
        have h_sent := h_ok h_all
        have h_frame := fits_of_taken h_enc (congrArg List.length h_sent)
        rw [if_pos h_all, h_rest]
        refine ⟨sent ++ sent', outcome', rfl, ?_, fun h => ⟨?_, ?_⟩⟩
        · rw [h_sent, List.map_cons, List.flatMap_cons]
          exact (List.prefix_append_right_inj _).mpr h_begins'
        · rw [h_sent, (h_ok' h).1, List.map_cons, List.flatMap_cons]
        · exact List.forall_mem_cons.mpr ⟨h_frame, (h_ok' h).2⟩
      · rw [if_neg h_all]
        refine ⟨sent, outcome, rfl, ?_, fun h => absurd h h_all⟩
        rw [List.map_cons, List.flatMap_cons]
        exact h_begins.trans (List.prefix_append _ _)
    · exact absurd (h_fits c.1 List.mem_cons_self ch v h_body) (by omega)

/-- The frames of a message that is published. -/
def publishFrames (channel : BitVec 16) (exchange routing_key : List UInt8)
    (mandatory immediate : Bool) (p : Properties) (body : List UInt8)
    (fragments : List (List UInt8)) : List Frame :=
  .method channel (publishMethod exchange routing_key mandatory immediate) ::
    messageFrames channel (BitVec.ofNat 64 body.length) p fragments

/-- The frames of the calls. -/
theorem map_publishCalls (channel : BitVec 16) (exchange routing_key : List UInt8)
    (mandatory immediate : Bool) (p : Properties) (body : List UInt8) (usable : ℕ)
    (fragments : List (List UInt8)) :
    (publishCalls channel exchange routing_key mandatory immediate p body usable fragments).map
      Prod.fst =
        publishFrames channel exchange routing_key mandatory immediate p body fragments := by
  rw [publishCalls, List.map_cons, List.map_cons, bodyCalls, List.map_map]
  rfl

/-- What holds of the method, of the header and of every body holds of all frames. -/
theorem forall_publishFrames {P : Frame → Prop} {channel : BitVec 16}
    {exchange routing_key : List UInt8} {mandatory immediate : Bool} {p : Properties}
    {body : List UInt8} {fragments : List (List UInt8)}
    (h_method : P (.method channel (publishMethod exchange routing_key mandatory immediate)))
    (h_header : P (.header channel (BitVec.ofNat 64 body.length) p))
    (h_body : ∀ v ∈ fragments, P (.body channel v)) :
    ∀ f ∈ publishFrames channel exchange routing_key mandatory immediate p body fragments, P f := by
  intro f h_f
  rcases List.mem_cons.mp h_f with rfl | h_f
  · exact h_method
  rcases List.mem_cons.mp h_f with rfl | h_f
  · exact h_header
  obtain ⟨v, h_v, rfl⟩ := List.mem_map.mp h_f
  exact h_body v h_v

/-- What `amqp_basic_publish` puts on the wire, whatever the socket does: the beginning of the
frames of the message, and all of them when it succeeds. No frame leaves the buffer. -/
theorem amqp_basic_publish_spec {frame_max : ℤ} (h_min : 20 ≤ frame_max) (h_lt : frame_max < 2 ^ 31)
    (channel : BitVec 16) (exchange routing_key : List UInt8) (mandatory immediate : Bool)
    (properties : Option BasicProperties) (body : List UInt8) :
    ∃ fragments, Fragments (frame_max.toNat - 8) body fragments ∧
      ∀ (env : ℕ → Bool → List Attempt × Bytes) (clock received : Option Status) (fuel : ℕ),
        body.length ≤ fuel → ∃ sent outcome,
          amqp_basic_publish (sendFrame frame_max.toNat env) clock
          received frame_max fuel channel exchange routing_key mandatory immediate properties body =
            .ok (sent, outcome) ∧
          sent <+: (publishFrames channel exchange routing_key mandatory immediate
            (properties.getD default_properties).val body fragments).flatMap Frame.wire ∧
          (outcome = .returned none → sent = (publishFrames channel exchange routing_key mandatory
            immediate (properties.getD default_properties).val body fragments).flatMap Frame.wire ∧
            ∀ f ∈ publishFrames channel exchange routing_key mandatory immediate
              (properties.getD default_properties).val body fragments,
              f.Encodable ∧ f.wire.length ≤ frame_max.toNat) := by
  obtain ⟨fragments, h_fragments, h_eq⟩ := amqp_basic_publish_eq (by omega) h_lt channel exchange
    routing_key mandatory immediate properties body
  refine ⟨fragments, h_fragments, ?_⟩
  intro env clock received fuel h_fuel
  rw [h_eq (sendFrame frame_max.toNat env) clock received fuel h_fuel]
  split
  case h_1 e _ => exact ⟨[], _, rfl, List.nil_prefix, fun h => by cases h⟩
  case h_2 =>
    -- the fragments are as long as `frame_max` allows
    have h_fits : ∀ f ∈ (publishCalls channel exchange routing_key mandatory immediate
        (properties.getD default_properties).val body (frame_max.toNat - 8) fragments).map Prod.fst,
        ∀ ch v, f = .body ch v → v.length + 8 ≤ frame_max.toNat := by
      rw [map_publishCalls]
      refine forall_publishFrames (fun ch v h_f => by cases h_f) (fun ch v h_f => by cases h_f) ?_
      intro w h_w ch v h_f
      cases h_f
      have h_le := h_fragments.le w h_w
      omega
    have h_begins := sendCalls_prefix (by omega) env h_fits 0
    rw [map_publishCalls] at h_begins
    exact h_begins

/-! ### Both ends -/

/-- The method has no table, so its strings are all that is asked for. -/
theorem valid_publishMethod {exchange routing_key : List UInt8} {mandatory immediate : Bool}
    (h : (publishMethod exchange routing_key mandatory immediate).Encodable) :
    (publishMethod exchange routing_key mandatory immediate).Valid := h

/-- The socket takes every frame at once. -/
def promptly : ℕ → Bool → List Attempt × Bytes :=
  fun _ _ => ([⟨[.accept 4096], false, none, none⟩], fun _ => 0)

/-- The publication of the byte succeeds. -/
theorem amqp_basic_publish_dot :
    ∃ sent, amqp_basic_publish (sendFrame (4096 : ℤ).toNat promptly) none none 4096 1 1 [] [] false
      false none [46] = .ok (sent, .returned none) := by
  have h_call : ∀ (n : ℕ) (f : Frame) (more : Bool), f.Encodable → f.wire.length ≤ 4096 →
      sendFrame (4096 : ℤ).toNat promptly n f more = .ok (f.wire, .returned none) := by
    intro n f more h_enc h_len
    exact amqp_send_frame_inner_accept h_enc h_len (Nat.le_succ_of_le h_len) _
  have h_nil : ([] : List UInt8).length < 2 ^ 8 := by decide
  have h_usable : sizeT (4096 - (HEADER_SIZE + FOOTER_SIZE)) = 4088 := by decide
  rw [amqp_basic_publish, h_usable]
  change ∃ sent, thenSend
    (sendFrame _ promptly 0 (.method 1 (publishMethod [] [] false false)) true)
    (thenSend (sendFrame _ promptly 1 (.header 1 1 default_properties.val) true)
      (thenSend (sendFrame _ promptly 2 (.body 1 [46]) false) (.ok ([], .returned none)))) = _
  rw [h_call 0 (.method 1 (publishMethod [] [] false false)) true
      ⟨trivial, h_nil, h_nil, trivial, trivial⟩ (by decide),
    h_call 1 (.header 1 1 default_properties.val) true trivial (by decide),
    h_call 2 (.body 1 [46]) false trivial (by decide)]
  exact ⟨_, rfl⟩

end Amqp
end WateRMQ
