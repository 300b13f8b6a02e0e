import WateRMQ.Lib.Heap
import WateRMQ.Lib.Stream
import WateRMQ.Amqp.Frame

/-!
# Input

`amqp_handle_input` of `amqp_connection.c`, which makes frames of the bytes that arrive. It is
called with what has arrived and takes some of it. Until the header of a frame is complete, its
bytes are kept in `header_buffer`; then there is a block of the size of the frame for them.
-/

namespace WateRMQ
namespace Amqp

open Codec CMem

/-! ### The functions of the source -/

/-- What ends the program inside of the library: a fault, or a call of `amqp_abort`. -/
inductive Stop
  | fault (f : Fault)
  | abort
  deriving DecidableEq, Repr

/-- `amqp_connection_state_enum`. -/
inductive ConnectionState
  | idle | initial | header | body
  deriving DecidableEq, Repr

/-- What `inbound_buffer.bytes` points to. -/
inductive InboundBuffer
  | headerBuffer
  | null
  | block (bytes : List UInt8)
  deriving DecidableEq, Repr

/-- The members of `amqp_connection_state_t` that `amqp_handle_input` uses. `channels` are the
channels with an entry in `pool_table`. -/
structure Inbound where
  state : ConnectionState
  frame_max : ℤ
  channels : List (BitVec 16)
  header_buffer : List UInt8
  inbound_buffer : InboundBuffer
  inbound_offset : ℕ
  target_size : ℕ

/-- Which allocations of a call succeed: those of `amqp_handle_input` itself, with what is in the
memory, and those of the decoders that it calls. -/
structure Pools where
  supply : Supply
  memory : ℕ → Bool

/-- The result of `amqp_handle_input`: the number of bytes that it took, with the frame when one is
complete and not ignored. -/
abbrev Handled := Except Status (ℕ × Option Frame)

/-- `INT32_MAX`. -/
def INT32_MAX : ℕ := 2 ^ 31 - 1

/-- `(size_t)n`. -/
def sizeT (n : ℤ) : ℕ := (n % 2 ^ 64).toNat

namespace Inbound

/-- The state after `amqp_new_connection`, where `header_buffer` is zeroed memory. -/
def new (frame_max : ℤ) : Inbound where
  state := .initial
  frame_max := frame_max
  channels := []
  header_buffer := List.replicate (HEADER_SIZE + 1) 0
  inbound_buffer := .headerBuffer
  inbound_offset := 0
  target_size := 8

/-- `return_to_idle`. -/
def return_to_idle (s : Inbound) : Inbound :=
  { s with
    state := .idle
    inbound_buffer := .headerBuffer
    inbound_offset := 0
    target_size := HEADER_SIZE }

/-- The bytes that `inbound_buffer` points to. -/
def raw_frame (s : Inbound) : List UInt8 :=
  match s.inbound_buffer with
  | .headerBuffer => s.header_buffer
  | .null => []
  | .block bytes => bytes

end Inbound

/-- `memcpy` into a block. -/
def patch (block : List UInt8) (offset : ℕ) (bs : List UInt8) : Except Stop (List UInt8) :=
  if offset + bs.length ≤ block.length then
    .ok (block.take offset ++ (bs ++ block.drop (offset + bs.length)))
  else .error (.fault .outOfBounds)

/-- The `n` bytes at an offset of a block. -/
def load (block : List UInt8) (offset n : ℕ) : Except Stop (List UInt8) :=
  if offset + n ≤ block.length then .ok ((block.drop offset).take n)
  else .error (.fault .outOfBounds)

/-- `consume_data`, with the number of bytes that it took and the bytes that are left. -/
def consume_data (s : Inbound) (received_data : List UInt8) :
    Except Stop (ℕ × Inbound × List UInt8) := do
  let bytes_consumed := min (s.target_size - s.inbound_offset) received_data.length
  let data := received_data.take bytes_consumed
  let rest := received_data.drop bytes_consumed
  let offset := s.inbound_offset + bytes_consumed
  match s.inbound_buffer with
  | .headerBuffer => do
    let block ← patch s.header_buffer s.inbound_offset data
    return (bytes_consumed, { s with header_buffer := block, inbound_offset := offset }, rest)
  | .null => .error (.fault .nullPointer)
  | .block bytes => do
    let block ← patch bytes s.inbound_offset data
    return (bytes_consumed, { s with inbound_buffer := .block block, inbound_offset := offset },
      rest)

/-- `amqp_get_or_create_channel_pool`, with the number of allocations of the call so far. -/
def amqp_get_or_create_channel_pool (supply : Supply) (s : Inbound) (channel : BitVec 16) (n : ℕ) :
    Except Status (Inbound × ℕ) :=
  if channel ∈ s.channels then .ok (s, n)
  else
    match supply n with
    | none => .error .noMemory
    | some _ => .ok ({ s with channels := channel :: s.channels }, n + 1)

/-- A decoder on a part of the frame. -/
def decodeWith {α : Type} (memory : ℕ → Bool) (encoded : List UInt8) (r : Reader Status α) :
    Except Status α :=
  (r ⟨encoded, memory⟩ ⟨0, 0⟩).map Prod.fst

/-- The `switch` over `frame_type`. When the payload of a method is three bytes long, `encoded.len`
wraps around; but then the end byte is taken for the last byte of the number, and there is no method
with such a number (`ofCode_eq_none_of_end`). -/
def decodePayload (memory : ℕ → Bool) (target_size : ℕ) (raw_frame : List UInt8)
    (frame_type : BitVec 8) (channel : BitVec 16) : Except Stop (Except Status (Option Frame)) :=
  match frame_type.toNat with
  | 1 => do
    let id ← load raw_frame HEADER_SIZE 4
    let encoded ← load raw_frame (HEADER_SIZE + 4) (target_size - HEADER_SIZE - 4 - FOOTER_SIZE)
    let res := decodeWith memory encoded
      (amqp_decode_method (BitVec.ofNat 32 (BigEndian.value id)))
    return res.map fun m => some (.method channel m)
  | 2 => do
    let class_id ← load raw_frame HEADER_SIZE 2
    let body_size ← load raw_frame (HEADER_SIZE + 4) 8
    if target_size < HEADER_SIZE + 12 + FOOTER_SIZE then
      .error (.fault .outOfBounds)
    else
      let encoded ← load raw_frame (HEADER_SIZE + 12)
        (target_size - HEADER_SIZE - 12 - FOOTER_SIZE)
      let res := decodeWith memory encoded
        (amqp_decode_properties (BitVec.ofNat 16 (BigEndian.value class_id)))
      return res.map fun p =>
        some (.header channel (BitVec.ofNat 64 (BigEndian.value body_size)) p)
  | 3 => do
    let body_fragment ← load raw_frame HEADER_SIZE (target_size - HEADER_SIZE - FOOTER_SIZE)
    return .ok (some (.body channel body_fragment))
  | 8 => .ok (.ok (some (.heartbeat channel)))
  | _ => .ok (.ok none)

/-- `amqp_handle_input` from `CONNECTION_STATE_BODY` on. -/
def handleBody (pools : Pools) (n : ℕ) (s : Inbound) (bytes_consumed : ℕ) :
    Except Stop (Handled × Inbound) := do
  let footer ← load s.raw_frame (s.target_size - 1) 1
  if BitVec.ofNat 8 (BigEndian.value footer) ≠ AMQP_FRAME_END then
    return (.error .badAmqpData, s)
  else
    let frame_type ← load s.raw_frame 0 1
    let channel ← load s.raw_frame 1 2
    let channel := BitVec.ofNat 16 (BigEndian.value channel)
    match amqp_get_or_create_channel_pool pools.supply s channel n with
    | .error e => return (.error e, s)
    | .ok (s, _) =>
      let res ← decodePayload pools.memory s.target_size s.raw_frame
        (BitVec.ofNat 8 (BigEndian.value frame_type)) channel
      match res with
      | .error e => return (.error e, s)
      | .ok frame => return (.ok (bytes_consumed, frame), s.return_to_idle)

/-- `amqp_handle_input` from `CONNECTION_STATE_HEADER` on. -/
def handleHeader (pools : Pools) (s : Inbound) (bytes_consumed : ℕ) (received_data : List UInt8) :
    Except Stop (Handled × Inbound) := do
  let channel ← load s.raw_frame 1 2
  let frame_size ← load s.raw_frame 3 4
  let frame_size := BigEndian.value frame_size
  if frame_size ≥ INT32_MAX then
    return (.error .badAmqpData, s)
  else
    let s := { s with target_size := frame_size + HEADER_SIZE + FOOTER_SIZE }
    if sizeT s.frame_max < s.target_size then
      return (.error .badAmqpData, s)
    else
      match amqp_get_or_create_channel_pool pools.supply s
        (BitVec.ofNat 16 (BigEndian.value channel)) 0 with
      | .error e => return (.error e, s)
      | .ok (s, n) =>
        match pools.supply n with
        | none => return (.error .noMemory, { s with inbound_buffer := .null })
        | some bytes =>
          -- `memcpy(state->inbound_buffer.bytes, state->header_buffer, HEADER_SIZE)`
          let block ← patch (loadBytes bytes 0 s.target_size) 0 (s.header_buffer.take HEADER_SIZE)
          let s := { s with inbound_buffer := .block block, state := .body }
          let (k, s, _) ← consume_data s received_data
          if s.inbound_offset < s.target_size then
            return (.ok (bytes_consumed + k, none), s)
          else
            handleBody pools (n + 1) s (bytes_consumed + k)

/-- `amqp_handle_input` from `CONNECTION_STATE_INITIAL` on. -/
def handleInitial (pools : Pools) (s : Inbound) (bytes_consumed : ℕ) (received_data : List UInt8) :
    Except Stop (Handled × Inbound) := do
  -- `memcmp(raw_frame, "AMQP", 4)`
  let magic ← load s.raw_frame 0 4
  if magic = [0x41, 0x4D, 0x51, 0x50] then
    let version ← load s.raw_frame 4 4
    let d8 := fun i => BitVec.ofNat 8 (BigEndian.value ((version.drop i).take 1))
    return (.ok (bytes_consumed, some (.protocolHeader (d8 0) (d8 1) (d8 2) (d8 3))),
      s.return_to_idle)
  else
    handleHeader pools s bytes_consumed received_data

/-- The `switch` of `amqp_handle_input`. -/
def handleState (pools : Pools) (s : Inbound) (bytes_consumed : ℕ) (received_data : List UInt8) :
    Except Stop (Handled × Inbound) :=
  match s.state with
  | .idle => .error .abort
  | .initial => handleInitial pools s bytes_consumed received_data
  | .header => handleHeader pools s bytes_consumed received_data
  | .body => handleBody pools 0 s bytes_consumed

/-- The state in which `consume_data` is called. -/
def Inbound.awake (s : Inbound) : Inbound :=
  if s.state = .idle then { s with state := .header } else s

/-- `amqp_handle_input`. -/
def amqp_handle_input (pools : Pools) (s : Inbound) (received_data : List UInt8) :
    Except Stop (Handled × Inbound) := do
  if received_data.length = 0 then
    return (.ok (0, none), s)
  else
    let (bytes_consumed, s, received_data) ← consume_data s.awake received_data
    if s.inbound_offset < s.target_size then
      return (.ok (bytes_consumed, none), s)
    else
      handleState pools s bytes_consumed received_data

/-- A call that has something to take. -/
theorem amqp_handle_input_eq (pools : Pools) {s t : Inbound} {d rest : List UInt8} {k : ℕ}
    (h_d : d ≠ []) (h_consume : consume_data s.awake d = .ok (k, t, rest)) :
    amqp_handle_input pools s d =
      if t.inbound_offset < t.target_size then .ok (.ok (k, none), t)
      else handleState pools t k rest := by
  rw [amqp_handle_input, if_neg fun h_zero => h_d (List.length_eq_zero_iff.mp h_zero), h_consume]
  rfl

theorem Inbound.awake_of_ne {s : Inbound} (h : s.state ≠ .idle) : s.awake = s := if_neg h

end Amqp
end WateRMQ
