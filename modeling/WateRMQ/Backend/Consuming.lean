import WateRMQ.Lib.Run
import WateRMQ.Backend.Duplication
import WateRMQ.Backend.Returning

/-!
# The consume loop

`rabbitmqConsuming_private` and `retRequestHandling_private` of `BackLibWaterRMQ.c`, and the loop
`run` of `amqp_consumerX.c` from which they were factored. An `Event` is what the library answers
in one round: the result of `amqp_consume_message`, and what the calls that may follow it give.

A call of `sendMessage` or `fprintf` that does not come back ends the program in the middle of a
round, so a loop has three endings: it goes on, it was left, or the program has ended.

* `leavesAlike_iff` — the two loops are left after the same event exactly when no event is one
  after which `run` returns, and neither program ends: the `return`s of `run` went into the helper,
  and leave only the helper;
* `runHandling_effects` — what else the frame handling does was kept;
* `forwardsDeliveries_iff` — only deliveries are passed to `sendMessage` exactly when nothing else
  arrives while the process lives, and no body but the last ends it: the body is passed on before
  the reply is looked at;
* `Consumed` — what holds while the process lives: what saves the queue from the other bodies is
  that reading one ends the process (`sendMessage_of_scans`).
-/

namespace WateRMQ
namespace Backend

open CMem Runs

/-! ### What the library answers -/

/-- `amqp_response_type_enum`. -/
inductive ReplyType
  | none
  | normal
  | libraryException
  | serverException
  deriving DecidableEq

/-- `amqp_rpc_reply_t`, without the method that the server's exceptions come with. -/
@[ext] structure RpcReply where
  replyType : ReplyType
  libraryError : ℤ
  deriving DecidableEq

/-- `AMQP_STATUS_OK`. -/
def amqpStatusOk : ℤ := 0

/-- `AMQP_STATUS_UNEXPECTED_STATE`. -/
def amqpStatusUnexpectedState : ℤ := -0x0010

/-- `AMQP_FRAME_METHOD`. -/
def amqpFrameMethod : UInt8 := 1

/-- `AMQP_CONNECTION_CLOSE_METHOD`. -/
def amqpConnectionCloseMethod : UInt32 := 0x000A0032

/-- `AMQP_CHANNEL_CLOSE_METHOD`. -/
def amqpChannelCloseMethod : UInt32 := 0x00140028

/-- `AMQP_BASIC_RETURN_METHOD`. -/
def amqpBasicReturnMethod : UInt32 := 0x003C0032

/-- `AMQP_BASIC_ACK_METHOD`. -/
def amqpBasicAckMethod : UInt32 := 0x003C0050

/-- `amqp_frame_t`: its `frame_type`, and the id of its method when it is a method frame. -/
structure Frame where
  frameType : UInt8
  methodId : UInt32

/-- `(const char *) body.bytes` for the body of a delivered message, where `behind` is what can be
read behind it. An empty body has no memory. -/
def bodyBytes (body behind : List UInt8) : CharPtr :=
  if body = [] then .null else .bytes (body ++ behind)

/-- A result of `amqp_consume_message`. After an error the body was never set, or it was set and
freed again. -/
inductive ConsumeResult
  | delivered (body behind : List UInt8)
  | libraryException (error : ℤ) (freed : Bool)
  | serverException (freed : Bool)

namespace ConsumeResult

/-- The reply that is returned. -/
def reply : ConsumeResult → RpcReply
  | .delivered _ _ => ⟨.normal, amqpStatusOk⟩
  | .libraryException error _ => ⟨.libraryException, error⟩
  | .serverException _ => ⟨.serverException, amqpStatusOk⟩

/-- `(const char *) envelope.message.body.bytes` afterwards. -/
def body : ConsumeResult → CharPtr
  | .delivered body behind => bodyBytes body behind
  | .libraryException _ freed => if freed then .dangling else .null
  | .serverException freed => if freed then .dangling else .null

/-- A result that is a delivery. -/
def Normal (r : ConsumeResult) : Prop := r.reply.replyType = .normal

instance : DecidablePred Normal := fun r => inferInstanceAs (Decidable (r.reply.replyType = _))

/-- The body of an error cannot be read. -/
theorem strlen_body_of_not_normal {r : ConsumeResult} (h : ¬ r.Normal) :
    ∃ f, strlen r.body = .error f := by
  cases r with
  | delivered body behind => exact absurd rfl h
  | libraryException error freed => cases freed <;> exact ⟨_, rfl⟩
  | serverException freed => cases freed <;> exact ⟨_, rfl⟩

end ConsumeResult

/-- One round: the result of `amqp_consume_message`, the status and the frame of
`amqp_simple_wait_frame`, and the reply of `amqp_read_message`, as far as they are called. -/
structure Event where
  result : ConsumeResult
  waitStatus : ℤ
  frame : Frame
  read : RpcReply

/-! ### The functions of the source -/

/-- What the frame handling does besides returning. -/
inductive Effect
  | print (out : Output)
  | destroyMessage
  | destroyEnvelope
  deriving DecidableEq

/-- The message for a method that is not expected. -/
def unexpectedMethod (id : UInt32) : Effect :=
  .print (.stderr s!"An unexpected method was received {id}\n")

/-- `retRequestHandling_private`: each of its branches ends in its own `return`. The envelope that
its last branch destroys is taken to be that of the loop. -/
def retRequestHandlingPrivate (e : Event) : List Effect :=
  if e.result.reply.replyType ≠ .normal then
    if e.result.reply.replyType = .libraryException ∧
        e.result.reply.libraryError = amqpStatusUnexpectedState then
      if e.waitStatus ≠ amqpStatusOk then []
      else if e.frame.frameType = amqpFrameMethod then
        if e.frame.methodId = amqpBasicAckMethod then []
        else if e.frame.methodId = amqpBasicReturnMethod then
          if e.read.replyType ≠ .normal then [.print (.stdout "matching ?")]
          else [.print (.stdout "matching ?"), .destroyMessage]
        else if e.frame.methodId = amqpChannelCloseMethod then []
        else if e.frame.methodId = amqpConnectionCloseMethod then []
        else [unexpectedMethod e.frame.methodId]
      else []
    else []
  else [.destroyEnvelope]

/-- The part of the loop of `run` that became `retRequestHandling_private`. -/
def runHandling (e : Event) : List Effect × Control :=
  if e.result.reply.replyType ≠ .normal then
    if e.result.reply.replyType = .libraryException ∧
        e.result.reply.libraryError = amqpStatusUnexpectedState then
      if e.waitStatus ≠ amqpStatusOk then ([], .leave)
      else if e.frame.frameType = amqpFrameMethod then
        if e.frame.methodId = amqpBasicAckMethod then ([], .goOn)
        else if e.frame.methodId = amqpBasicReturnMethod then
          if e.read.replyType ≠ .normal then ([], .leave)
          else ([.destroyMessage], .goOn)
        else if e.frame.methodId = amqpChannelCloseMethod then ([], .leave)
        else if e.frame.methodId = amqpConnectionCloseMethod then ([], .leave)
        else ([unexpectedMethod e.frame.methodId], .leave)
      else ([], .goOn)
    else ([], .goOn)
  else ([.destroyEnvelope], .goOn)

/-! ### The process that consumes -/

section Consumer

variable {σ φ ι : Type} [QueueAccess σ ι] [CPointer ι] [DecidableEq ι]

/-- `enqueue` on `q` gets past `isFull`, to its `strlen`. -/
def findsRoom (q : σ) : Bool :=
  match isFull q with
  | .ok full => !full
  | .error _ => false

/-- `addMessageInQueue_private` gets to the `strlen` of its `enqueue`. -/
def Process.scansFirst (p : Process σ φ) (message : CharPtr) : Bool :=
  decide (message ≠ .null) && findsRoom (p.queues p.consumingQueue)

/-- The second `enqueue` of `sendMessage` gets to its `strlen`. -/
def Process.scansSecond (p : Process σ φ) (message : CharPtr) (malloc₁ : Malloc ι) : Bool :=
  match addMessageInQueuePrivate p message malloc₁ with
  | .ok (_, p₁, _) => findsRoom (p₁.queues p₁.ptrQueue)
  | .error _ => false

/-- `sendMessage` reads the memory behind its argument. -/
def Process.scans (p : Process σ φ) (message : CharPtr) (malloc₁ : Malloc ι) : Bool :=
  p.scansFirst message || p.scansSecond message malloc₁

/-- The process of `rabbitmqConsuming_private`: what became of it, the messages that it passed to
`sendMessage`, the numbers of the calls that read the memory behind their message, and what the
frame handling did. -/
structure Consumer (σ φ : Type) where
  process : Except Fault (Process σ φ)
  passed : List CharPtr
  scanned : List ℕ
  effects : List Effect

/-- A process that has not consumed yet. -/
def Consumer.start (p : Process σ φ) : Consumer σ φ := ⟨.ok p, [], [], []⟩

variable [Kernel φ σ]

/-- The call of `sendMessage`. Its two allocators may be others in each call. -/
def Consumer.send (mallocs : ℕ → Malloc ι × Malloc ι) (c : Consumer σ φ) (message : CharPtr) :
    Consumer σ φ :=
  match c.process with
  | .error _ => c
  | .ok p =>
    let n := c.passed.length
    { process := (sendMessage p message (mallocs n).1 (mallocs n).2).map Prod.fst
      passed := c.passed ++ [message]
      scanned := if p.scans message (mallocs n).1 then c.scanned ++ [n] else c.scanned
      effects := c.effects }

/-- A round of `rabbitmqConsuming_private`. -/
def consumingRound (mallocs : ℕ → Malloc ι × Malloc ι) (c : Consumer σ φ) (e : Event) :
    Consumer σ φ × Control :=
  -- the body goes out first, and nothing that the helper does leaves the loop
  let c := c.send mallocs e.result.body
  match c.process with
  | .error _ => (c, .die)
  | .ok _ => ({ c with effects := c.effects ++ retRequestHandlingPrivate e }, .goOn)

/-- `rabbitmqConsuming_private`, on the events of its rounds. -/
def rabbitmqConsumingPrivate (mallocs : ℕ → Malloc ι × Malloc ι) :
    Consumer σ φ → List Event → Consumer σ φ × Ending :=
  loop (consumingRound mallocs) 0

/-- The rounds that the process survives. -/
def receive (mallocs : ℕ → Malloc ι × Malloc ι) :
    Consumer σ φ → Event → Option (Consumer σ φ) :=
  goesOn (consumingRound mallocs)

end Consumer

/-- A round of `run`. `print` is the `fprintf` of the body, which may end the program as well. -/
def runRound (print : CharPtr → Except Fault Output) (effects : List Effect) (e : Event) :
    List Effect × Control :=
  match print e.result.body with
  | .error _ => (effects, .die)
  | .ok out => (effects ++ .print out :: (runHandling e).1, (runHandling e).2)

/-- `run`, on the events of its rounds. -/
def run (print : CharPtr → Except Fault Output) : List Effect → List Event → List Effect × Ending :=
  loop (runRound print) 0

/-! ### Where the loops are left -/

/-- The events after which `run` returns: an unexpected frame, when the wait for it fails, or when
it is a method other than `basic.ack` and `basic.return`, or when it is `basic.return` and the read
of the returned message fails. -/
def Event.StopsRun (e : Event) : Prop :=
  e.result.reply = ⟨.libraryException, amqpStatusUnexpectedState⟩ ∧
    (e.waitStatus ≠ amqpStatusOk ∨
      e.frame.frameType = amqpFrameMethod ∧ e.frame.methodId ≠ amqpBasicAckMethod ∧
        (e.frame.methodId = amqpBasicReturnMethod → e.read.replyType ≠ .normal))

instance : DecidablePred Event.StopsRun := fun _ => inferInstanceAs (Decidable (_ ∧ _))

/-- Only an unexpected frame can stop `run`. -/
theorem runHandling_goOn {e : Event}
    (h : e.result.reply ≠ ⟨.libraryException, amqpStatusUnexpectedState⟩) :
    (runHandling e).2 = .goOn := by
  have h_state : ¬ (e.result.reply.replyType = .libraryException ∧
      e.result.reply.libraryError = amqpStatusUnexpectedState) :=
    fun ⟨h_type, h_error⟩ => h (RpcReply.ext h_type h_error)
  rw [runHandling, if_neg h_state]
  split <;> rfl

theorem runHandling_leave_iff (e : Event) : (runHandling e).2 = .leave ↔ e.StopsRun := by
  by_cases h_state : e.result.reply = ⟨.libraryException, amqpStatusUnexpectedState⟩
  · rw [Event.StopsRun, and_iff_right h_state, runHandling, h_state, if_pos (by decide),
      if_pos ⟨rfl, rfl⟩]
    -- the branches of the source, in its order
    split_ifs with h_wait h_method h_ack h_return h_read h_channel h_connection
    · exact iff_of_true rfl (Or.inl h_wait)
    · exact iff_of_false not_false fun h => (h.resolve_left h_wait).2.1 h_ack
    · exact iff_of_true rfl (Or.inr ⟨h_method, h_ack, fun _ => h_read⟩)
    · exact iff_of_false not_false fun h => h_read ((h.resolve_left h_wait).2.2 h_return)
    · exact iff_of_true rfl (Or.inr ⟨h_method, h_ack, fun h => absurd h h_return⟩)
    · exact iff_of_true rfl (Or.inr ⟨h_method, h_ack, fun h => absurd h h_return⟩)
    · exact iff_of_true rfl (Or.inr ⟨h_method, h_ack, fun h => absurd h h_return⟩)
    · exact iff_of_false not_false fun h => h_method (h.resolve_left h_wait).1
  · rw [runHandling_goOn h_state]
    exact iff_of_false nofun fun h => h_state h.1

theorem runHandling_goOn_iff (e : Event) : (runHandling e).2 = .goOn ↔ ¬ e.StopsRun := by
  rw [← runHandling_leave_iff]
  unfold runHandling
  split_ifs <;> simp

/-- The helper does what the handling in `run` does, and prints once more. -/
theorem runHandling_effects (e : Event) :
    (runHandling e).1 =
      (retRequestHandlingPrivate e).filter (· ≠ .print (.stdout "matching ?")) := by
  unfold runHandling retRequestHandlingPrivate
  simp only [apply_ite Prod.fst, apply_ite (List.filter _)]
  rfl

/-- `run` goes on past all events that do not stop it and whose bodies can be printed. -/
theorem run_running_iff {print : CharPtr → Except Fault Output} {effects : List Effect}
    {events : List Event} : (run print effects events).2 = .running ↔
      ∀ e ∈ events, ¬ e.StopsRun ∧ ∃ out, print e.result.body = .ok out := by
  refine loop_running_iff_forall ?_
  intro effects e
  unfold runRound
  cases print e.result.body with
  | error f => simp
  | ok out => simpa using runHandling_goOn_iff e

/-! ### The rounds of `rabbitmqConsuming_private` -/

section Rounds

variable {σ φ ι : Type} [QueueAccess σ ι] [CPointer ι] [DecidableEq ι]

/-- An `enqueue` that gets to its `strlen` ends with it. -/
theorem enqueue_of_strlen_error {q : σ} {value : CharPtr} {malloc : Malloc ι} {f : Fault}
    (h_room : findsRoom q = true) (h_len : strlen value = .error f) :
    enqueue q value malloc = .error f := by
  unfold findsRoom at h_room
  unfold enqueue
  cases h_full : isFull q with
  | error g => rw [h_full] at h_room; cases h_room
  | ok full =>
    rw [h_full] at h_room
    cases full with
    | true => cases h_room
    | false => rw [h_len]; rfl

/-- `addMessageInQueue_private` has nothing to do with the operating system. -/
theorem addMessageInQueuePrivate_world {p p₁ : Process σ φ} {message : CharPtr}
    {malloc : Malloc ι} {ret : ℤ} {out : List Output}
    (h : addMessageInQueuePrivate p message malloc = .ok (ret, p₁, out)) (world : φ) :
    addMessageInQueuePrivate { p with world := world } message malloc =
      .ok (ret, { p₁ with world := world }, out) := by
  by_cases h_null : message = .null
  · rw [addMessageInQueuePrivate, if_pos h_null] at h ⊢
    cases h
    rfl
  · obtain ⟨rfl, h_enqueue⟩ := (addMessageInQueuePrivate_ok h_null).mp h
    obtain ⟨q, h_queue, rfl⟩ := Process.enqueueAt_ok.mp h_enqueue
    exact (addMessageInQueuePrivate_ok h_null).mpr ⟨rfl, Process.enqueueAt_ok.mpr ⟨q, h_queue, rfl⟩⟩

/-- A body that `enqueue` does not get through was read, or the `enqueue` did not get so far. -/
theorem scans_of_not_sendReturns {I Writable : σ → Prop} [LawfulQueueAccess σ ι]
    (h : Usable I Writable) {p : Process σ φ} (hp : p.Holds I) {message : CharPtr}
    {malloc₁ malloc₂ : Malloc ι} (h_not : ¬ p.SendReturns Writable message malloc₁ malloc₂) :
    p.scans message malloc₁ = true := by
  have h_room : ∀ q : σ, I q → isFull q ≠ .ok true → findsRoom q = true := by
    intro q hq h_full
    obtain ⟨rear, h_rear⟩ := h.loads hq
    rw [isFull_eq_ok h_rear] at h_full
    unfold findsRoom
    rw [isFull_eq_ok h_rear]
    simpa using h_full
  rw [Process.scans, Bool.or_eq_true]
  by_cases h_first : message = .null ∨ isFull (p.queues p.consumingQueue) = .ok true
  · -- the first half has left everything as it was, so the second comes to its `strlen`
    have h_mapped : isFull (p.queues p.ptrQueue) ≠ .ok true := by
      intro h_full
      exact h_not ⟨h_first.imp_right Or.inl, Or.inl h_full⟩
    have h_add : ∃ ret out, addMessageInQueuePrivate p message malloc₁ = .ok (ret, p, out) := by
      by_cases h_null : message = .null
      · exact ⟨-1, [], if_pos h_null⟩
      · obtain ⟨rear, h_rear⟩ := h.loads hp.consuming
        have h_full := h_first.resolve_left h_null
        rw [isFull_eq_ok h_rear] at h_full
        obtain rfl : rear = maxSize := of_decide_eq_true (Except.ok.inj h_full)
        refine ⟨1, _, (addMessageInQueuePrivate_ok h_null).mpr ⟨rfl, Process.enqueueAt_ok.mpr
          ⟨_, enqueue_of_isFull h_rear _ _, ?_⟩⟩⟩
        rw [Function.update_eq_self]
    obtain ⟨ret, out, h_add⟩ := h_add
    refine Or.inr ?_
    rw [Process.scansSecond, h_add]
    exact h_room _ hp.mapped h_mapped
  · obtain ⟨h_null, h_full⟩ := not_or.mp h_first
    refine Or.inl ?_
    rw [Process.scansFirst, decide_eq_true h_null, Bool.true_and]
    exact h_room _ hp.consuming h_full

variable [Kernel φ σ]

/-- **Reading the body of a failed result ends the program.** -/
theorem sendMessage_of_scans {p : Process σ φ} {message : CharPtr} {malloc₁ malloc₂ : Malloc ι}
    {f : Fault} (h_scans : p.scans message malloc₁ = true) (h_len : strlen message = .error f) :
    sendMessage p message malloc₁ malloc₂ = .error f := by
  rw [Process.scans, Bool.or_eq_true] at h_scans
  refine bind_eq_error.mpr ?_
  rcases h_scans with h_first | h_second
  · -- the first `enqueue` reads it
    obtain ⟨h_null, h_room⟩ := Bool.and_eq_true_iff.mp h_first
    rw [addMessageInQueuePrivate, if_neg (of_decide_eq_true h_null)]
    exact Or.inl (bind_eq_error.mpr (Or.inl
      (bind_eq_error.mpr (Or.inl (enqueue_of_strlen_error h_room h_len)))))
  · -- the first `enqueue` got through, and the second reads it
    unfold Process.scansSecond at h_second
    split at h_second
    next ret p₁ out h_add =>
      exact Or.inr ⟨_, addMessageInQueuePrivate_world h_add _, bind_eq_error.mpr (Or.inl
        (bind_eq_error.mpr (Or.inl (enqueue_of_strlen_error h_second h_len))))⟩
    · cases h_second

variable {mallocs : ℕ → Malloc ι × Malloc ι} {c d : Consumer σ φ} {e : Event} {p : Process σ φ}

/-- The allocators of the next round. -/
def Consumer.malloc (mallocs : ℕ → Malloc ι × Malloc ι) (c : Consumer σ φ) : Malloc ι × Malloc ι :=
  mallocs c.passed.length

/-- A round of a process whose `sendMessage` comes back. -/
theorem consumingRound_of_ok (h_alive : c.process = .ok p) {p' : Process σ φ} {out : List Output}
    (h : sendMessage p e.result.body (c.malloc mallocs).1 (c.malloc mallocs).2 = .ok (p', out)) :
    consumingRound mallocs c e =
      ({ process := .ok p'
         passed := c.passed ++ [e.result.body]
         scanned :=
           if p.scans e.result.body (c.malloc mallocs).1 then c.scanned ++ [c.passed.length]
           else c.scanned
         effects := c.effects ++ retRequestHandlingPrivate e }, .goOn) := by
  unfold Consumer.malloc at h
  rw [consumingRound, Consumer.send, h_alive]
  dsimp only
  rw [h]
  rfl

/-- A round of a process that ends in `sendMessage`. -/
theorem consumingRound_of_error (h_alive : c.process = .ok p) {f : Fault}
    (h : sendMessage p e.result.body (c.malloc mallocs).1 (c.malloc mallocs).2 = .error f) :
    consumingRound mallocs c e =
      ({ process := .error f
         passed := c.passed ++ [e.result.body]
         scanned :=
           if p.scans e.result.body (c.malloc mallocs).1 then c.scanned ++ [c.passed.length]
           else c.scanned
         effects := c.effects }, .die) := by
  unfold Consumer.malloc at h
  rw [consumingRound, Consumer.send, h_alive]
  dsimp only
  rw [h]
  rfl

/-- `rabbitmqConsuming_private` is never left. -/
theorem rabbitmqConsumingPrivate_ne_left (c : Consumer σ φ) (events : List Event) (n : ℕ) :
    (rabbitmqConsumingPrivate mallocs c events).2 ≠ .left n := by
  rcases loop_cases (consumingRound mallocs) 0 c events with
    ⟨d, -, h_loop⟩ | ⟨pre, u, e, d, control, -, h_round, h_stop, h_loop⟩
  · rw [rabbitmqConsumingPrivate, h_loop]
    exact Ending.noConfusion
  · rw [rabbitmqConsumingPrivate, h_loop]
    -- a round goes on, or the process ends in it
    unfold consumingRound at h_round
    dsimp only at h_round
    split at h_round
    · cases h_round
      exact Ending.noConfusion
    · cases h_round
      exact absurd rfl h_stop

/-- The round's call of `sendMessage` comes back, said of the process before the round. -/
def Consumer.SendReturns (Writable : σ → Prop) (mallocs : ℕ → Malloc ι × Malloc ι)
    (c : Consumer σ φ) (message : CharPtr) : Prop :=
  ∃ p, c.process = .ok p ∧
    p.SendReturns Writable message (c.malloc mallocs).1 (c.malloc mallocs).2

/-! ### A living process -/

/-- **What holds while the process lives**, after the events `pre`: both queues are usable; every
body was passed on; the bodies that were read are those of deliveries; and a body that was no
delivery's came to full queues, or was the null pointer. -/
structure Consumed (I : σ → Prop) (pre : List Event) (c : Consumer σ φ) : Prop where
  alive : ∃ p, c.process = .ok p ∧ p.Holds I ∧ ∀ e ∈ pre, ¬ e.result.Normal →
    (e.result.body = .null ∨ isFull (p.queues p.consumingQueue) = .ok true) ∧
      isFull (p.queues p.ptrQueue) = .ok true
  passed : c.passed = pre.map (·.result.body)
  scanned : ∀ i ∈ c.scanned, ∃ e, pre[i]? = some e ∧ e.result.Normal

variable [LawfulQueueAccess σ ι] {I Writable : σ → Prop} {pre : List Event}

/-- A round goes on exactly when its call of `sendMessage` comes back. -/
theorem Consumed.goOn_iff (h_usable : Usable I Writable) (h : Consumed I pre c) :
    (consumingRound mallocs c e).2 = .goOn ↔ c.SendReturns Writable mallocs e.result.body := by
  obtain ⟨p, h_alive, hp, -⟩ := h.alive
  have h_iff : c.SendReturns Writable mallocs e.result.body ↔
      ∃ r, sendMessage p e.result.body (c.malloc mallocs).1 (c.malloc mallocs).2 = .ok r := by
    rw [h_usable.sendMessage_returns hp]
    constructor
    · rintro ⟨p', h_alive', h_send⟩
      obtain rfl : p = p' := Except.ok.inj (h_alive.symm.trans h_alive')
      exact h_send
    · exact fun h_send => ⟨p, h_alive, h_send⟩
  rw [h_iff]
  cases h_send : sendMessage p e.result.body (c.malloc mallocs).1 (c.malloc mallocs).2 with
  | error f =>
    rw [consumingRound_of_error h_alive h_send]
    exact iff_of_false nofun nofun
  | ok r =>
    obtain ⟨p', out⟩ := r
    rw [consumingRound_of_ok h_alive h_send]
    exact iff_of_true rfl ⟨(p', out), rfl⟩

/-- A round that the process survives. -/
theorem Consumed.receive (h_usable : Usable I Writable) (h : Consumed I pre c)
    (h_step : receive mallocs c e = some d) : Consumed I (pre ++ [e]) d := by
  have h_round := goesOn_eq_some.mp h_step
  obtain ⟨p, h_alive, hp, h_failed⟩ := h.alive
  cases h_send : sendMessage p e.result.body (c.malloc mallocs).1 (c.malloc mallocs).2 with
  | error f =>
    rw [consumingRound_of_error h_alive h_send] at h_round
    cases h_round
  | ok r =>
    obtain ⟨p', out⟩ := r
    rw [consumingRound_of_ok h_alive h_send] at h_round
    cases h_round
    obtain ⟨hp', h_full₁, h_full₂⟩ := h_usable.of_sendMessage hp h_send
    have h_len : c.passed.length = pre.length := by rw [h.passed, List.length_map]
    refine ⟨⟨p', rfl, hp', ?_⟩, ?_, ?_⟩
    · intro e' h_e' h_error
      rcases List.mem_append.mp h_e' with h_old | h_new
      · exact (h_failed e' h_old h_error).imp (Or.imp_right h_full₁) h_full₂
      · -- the new body could not be measured, and was not
        obtain rfl := List.mem_singleton.mp h_new
        obtain ⟨f, h_strlen⟩ := ConsumeResult.strlen_body_of_not_normal h_error
        obtain ⟨h_first, h_second⟩ := (h_usable.sendMessage_returns hp).mp ⟨_, h_send⟩
        have h_no : ∀ malloc : Malloc ι, ¬ Copies e'.result.body malloc :=
          fun _ => not_copies_of_strlen_error h_strlen
        exact ⟨h_first.imp_right fun h => h_full₁ (h.resolve_right fun h => h_no _ h.2),
          h_full₂ (h_second.resolve_right fun h => h_no _ h.2)⟩
    · rw [h.passed, List.map_append, List.map_singleton]
    · intro i hi
      -- the new call was numbered by the calls before it
      have h_cases : i ∈ c.scanned ∨
          i = pre.length ∧ p.scans e.result.body (c.malloc mallocs).1 = true := by
        dsimp only at hi
        split at hi
        next h_scans =>
          rw [List.mem_append, List.mem_singleton, h_len] at hi
          exact hi.imp_right fun h_i => ⟨h_i, h_scans⟩
        next => exact Or.inl hi
      rcases h_cases with h_old | ⟨rfl, h_scans⟩
      · obtain ⟨e', h_e', h_normal⟩ := h.scanned i h_old
        have h_lt := (List.getElem?_eq_some_iff.mp h_e').1
        exact ⟨e', by rwa [List.getElem?_append_left h_lt], h_normal⟩
      · refine ⟨e, List.getElem?_concat_length, ?_⟩
        by_contra h_error
        -- reading the body of an error would have ended the process
        obtain ⟨f, h_strlen⟩ := ConsumeResult.strlen_body_of_not_normal h_error
        cases (sendMessage_of_scans h_scans h_strlen).symm.trans h_send

/-- **As long as the process lives**, whatever it has received. -/
theorem consumed_of_exec (h_usable : Usable I Writable) (hp : p.Holds I)
    (h : exec (receive mallocs) (Consumer.start p) pre = some c) : Consumed I pre c := by
  refine exec_history (I := Consumed I) ?_ ?_ h
  · exact ⟨⟨p, rfl, hp, fun _ h_e => absurd h_e List.not_mem_nil⟩, rfl,
      fun _ hi => absurd hi List.not_mem_nil⟩
  · exact fun _ _ _ _ h_pre h_step _ => h_pre.receive h_usable h_step

/-- The round in which the process ends has passed its body on, and has read it when it was no
delivery's. -/
theorem Consumed.died (h_usable : Usable I Writable) (h : Consumed I pre c) {control : Control}
    (h_round : consumingRound mallocs c e = (d, control)) (h_stop : control ≠ .goOn) :
    d.passed = (pre ++ [e]).map (·.result.body) ∧
      (∀ i ∈ d.scanned, i ∈ c.scanned ∨ i = pre.length) ∧
      (¬ e.result.Normal → pre.length ∈ d.scanned) ∧
      ¬ c.SendReturns Writable mallocs e.result.body := by
  have h_not : ¬ c.SendReturns Writable mallocs e.result.body := by
    rw [← h.goOn_iff h_usable, h_round]
    exact h_stop
  obtain ⟨p, h_alive, hp, -⟩ := h.alive
  have h_len : c.passed.length = pre.length := by rw [h.passed, List.length_map]
  cases h_send : sendMessage p e.result.body (c.malloc mallocs).1 (c.malloc mallocs).2 with
  | ok r =>
    exact absurd ⟨p, h_alive, (h_usable.sendMessage_returns hp).mp ⟨r, h_send⟩⟩ h_not
  | error f =>
    rw [consumingRound_of_error h_alive h_send] at h_round
    cases h_round
    refine ⟨by rw [h.passed, List.map_append, List.map_singleton], fun i hi => ?_, ?_, h_not⟩
    · dsimp only at hi
      split at hi
      · rwa [List.mem_append, List.mem_singleton, h_len] at hi
      · exact Or.inl hi
    · intro h_error
      obtain ⟨g, h_strlen⟩ := ConsumeResult.strlen_body_of_not_normal h_error
      have h_refused : ¬ p.SendReturns Writable e.result.body (c.malloc mallocs).1
          (c.malloc mallocs).2 := fun h_returns => h_not ⟨p, h_alive, h_returns⟩
      have h_scans := scans_of_not_sendReturns h_usable hp h_refused
      rw [if_pos h_scans, h_len]
      exact List.mem_append_right _ (List.mem_singleton.mpr rfl)

/-! ### Where the two loops are left -/

/-- Both loops go on past every event, or both are left after the same one. A loop in which the
program has ended does neither. -/
def LeavesAlike (a b : Ending) : Prop := a = b ∧ ∀ n, a ≠ .died n

/-- **Only deliveries are forwarded**: what is passed to `sendMessage` are the bodies of the
deliveries, in order, and no call reads the memory behind another body. -/
structure ForwardsDeliveries (events : List Event) (c : Consumer σ φ) : Prop where
  passed : c.passed = (events.filter (·.result.Normal)).map (·.result.body)
  scanned : ∀ i ∈ c.scanned, ∀ e, events[i]? = some e → e.result.Normal

/-- Bodies up to one that is not null are those of the deliveries only when they are all
deliveries, and no other comes later. Bodies that are null might be mistaken for each other. -/
theorem normal_of_map_eq {pre post : List Event} {a : Event} (h_a : a.result.Normal)
    (h_body : a.result.body ≠ .null)
    (h_null : ∀ e ∈ pre, ¬ e.result.Normal → e.result.body = .null)
    (h : (pre ++ [a]).map (·.result.body) =
      ((pre ++ a :: post).filter (·.result.Normal)).map (·.result.body)) :
    (∀ e ∈ pre, e.result.Normal) ∧ ∀ e ∈ post, ¬ e.result.Normal := by
  rw [List.filter_append, List.filter_cons_of_pos (by simpa using h_a), List.map_append,
    List.map_append, List.map_singleton, List.map_cons] at h
  -- the bodies that are not null are the same up to `a`
  have h_pre : (pre.map (·.result.body)).filter (· ≠ .null) =
      ((pre.filter (·.result.Normal)).map (·.result.body)).filter (· ≠ .null) := by
    rw [List.filter_map, List.filter_map, List.filter_filter]
    refine congrArg _ (List.filter_congr fun e h_e => ?_)
    have h_e := h_null e h_e
    by_cases h_normal : e.result.Normal
    · simp [h_normal]
    · simp [h_e h_normal]
  -- so there are none behind it, and the last one would be among them
  have h_none : ((post.filter (·.result.Normal)).map (·.result.body)).filter (· ≠ .null) = [] := by
    have h_len := congrArg (fun l => (l.filter (· ≠ CharPtr.null)).length) h
    simp only [List.filter_append, List.filter_cons, List.filter_nil, h_pre, List.length_append,
      if_pos (decide_eq_true h_body), List.length_cons, List.length_nil] at h_len
    exact List.length_eq_zero_iff.mp (by omega)
  have h_post : (post.filter (·.result.Normal)).map (·.result.body) = [] := by
    by_contra h_some
    have h_last := congrArg List.getLast? h
    rw [List.getLast?_append, List.getLast?_append, List.getLast?_singleton,
      List.getLast?_cons_of_ne_nil h_some, Option.some_or] at h_last
    have h_mem := List.mem_of_getLast? ((Option.or_of_isSome (by simpa using h_some)).symm.trans
      h_last.symm)
    have h_filter := List.filter_eq_nil_iff.mp h_none _ h_mem
    exact h_filter (decide_eq_true h_body)
  rw [h_post] at h
  constructor
  · have h_len := congrArg List.length (List.append_cancel_right h)
    rw [List.length_map, List.length_map, eq_comm, List.length_filter_eq_length_iff] at h_len
    exact fun e h_e => of_decide_eq_true (h_len e h_e)
  · intro e h_e h_normal
    have h_filter := List.map_eq_nil_iff.mp h_post
    exact absurd (decide_eq_true h_normal) (List.filter_eq_nil_iff.mp h_filter e h_e)

theorem normal_of_passed {pre post : List Event} {a : Event} (h_a : a.result.Normal)
    (h_null : ∀ e ∈ pre, ¬ e.result.Normal → e.result.body = .null ∧ a.result.body ≠ .null)
    (h : (pre ++ [a]).map (·.result.body) =
      ((pre ++ a :: post).filter (·.result.Normal)).map (·.result.body)) :
    (∀ e ∈ pre, e.result.Normal) ∧ ∀ e ∈ post, ¬ e.result.Normal := by
  by_cases h_pre : ∀ e ∈ pre, e.result.Normal
  · -- as many were passed on as there are deliveries up to `a`
    refine ⟨h_pre, fun e h_e h_normal => ?_⟩
    have h_len := congrArg List.length h
    have h_later : 0 < (post.filter (·.result.Normal)).length :=
      List.length_pos_of_mem (List.mem_filter.mpr ⟨h_e, decide_eq_true h_normal⟩)
    rw [List.length_map, List.length_map, List.filter_append,
      List.filter_eq_self.mpr fun e h_e => decide_eq_true (h_pre e h_e),
      List.filter_cons_of_pos (by simpa using h_a)] at h_len
    simp only [List.length_append, List.length_cons, List.length_nil] at h_len
    omega
  · obtain ⟨e, h_e, h_error⟩ : ∃ e ∈ pre, ¬ e.result.Normal := by simpa using h_pre
    exact normal_of_map_eq h_a (h_null e h_e h_error).2
      (fun e h_e h_error => (h_null e h_e h_error).1) h

/-- In a round that the process survives `sendMessage` comes back. -/
theorem sendReturns_of_takes (h_usable : Usable I Writable) (hp : p.Holds I)
    {events : List Event} {u d : Consumer σ φ}
    (h_takes : Takes (receive mallocs) (Consumer.start p) events pre u e)
    (h_exec : exec (receive mallocs) (Consumer.start p) events = some d) :
    u.SendReturns Writable mallocs e.result.body := by
  obtain ⟨v, h_step⟩ := h_takes.enabled h_exec
  rw [← (consumed_of_exec h_usable hp h_takes.2).goOn_iff h_usable, goesOn_eq_some.mp h_step]

omit [CPointer ι] [DecidableEq ι] [Kernel φ σ] [LawfulQueueAccess σ ι] in
/-- A process that lives on has passed on every body. -/
theorem Consumed.forwards_iff {events : List Event} {d : Consumer σ φ}
    (h : Consumed I events d) :
    ForwardsDeliveries events d ↔ ∀ e ∈ events, e.result.Normal := by
  constructor
  · intro h_forwards e h_e
    -- everything was passed on, so the filter has dropped nothing
    have h_len := congrArg List.length (h.passed.symm.trans h_forwards.passed)
    rw [List.length_map, List.length_map, eq_comm, List.length_filter_eq_length_iff] at h_len
    exact of_decide_eq_true (h_len e h_e)
  · intro h_normal
    refine ⟨?_, fun i _ e h_e => h_normal e (List.mem_of_getElem? h_e)⟩
    rw [h.passed, List.filter_eq_self.mpr fun e h_e => decide_eq_true (h_normal e h_e)]

/-- A process that ends with the body of `a` has passed on this one too, and no later one. -/
theorem Consumed.forwards_died_iff (h_usable : Usable I Writable) (h : Consumed I pre c)
    {a : Event} {control : Control} (h_round : consumingRound mallocs c a = (d, control))
    (h_stop : control ≠ .goOn) (post : List Event) :
    ForwardsDeliveries (pre ++ a :: post) d ↔
      (∀ e ∈ pre, e.result.Normal) ∧ a.result.Normal ∧ ∀ e ∈ post, ¬ e.result.Normal := by
  obtain ⟨h_passed, h_numbers, h_read, h_not⟩ := h.died h_usable h_round h_stop
  have h_at : (pre ++ a :: post)[pre.length]? = some a := by
    rw [List.getElem?_append_right le_rfl, Nat.sub_self, List.getElem?_cons_zero]
  constructor
  · intro h_forwards
    have h_a : a.result.Normal := by
      by_contra h_error
      exact h_error (h_forwards.scanned _ (h_read h_error) a h_at)
    -- an earlier body that was none went to a full queue, where that of `a` did not
    have h_null : ∀ e ∈ pre, ¬ e.result.Normal →
        e.result.body = .null ∧ a.result.body ≠ .null := by
      intro e h_e h_error
      obtain ⟨q, h_alive, -, h_failed⟩ := h.alive
      obtain ⟨h_first, h_full⟩ := h_failed e h_e h_error
      have h_room : ¬ (a.result.body = .null ∨
          isFull (q.queues q.consumingQueue) = .ok true) := by
        intro h_fits
        exact h_not ⟨q, h_alive, h_fits.imp_right Or.inl, Or.inl h_full⟩
      obtain ⟨h_body, h_consuming⟩ := not_or.mp h_room
      exact ⟨h_first.resolve_right h_consuming, h_body⟩
    obtain ⟨h_pre, h_post⟩ := normal_of_passed h_a h_null (h_passed.symm.trans h_forwards.passed)
    exact ⟨h_pre, h_a, h_post⟩
  · rintro ⟨h_pre, h_a, h_post⟩
    refine ⟨?_, fun i hi e h_e => ?_⟩
    · rw [h_passed, List.filter_append,
        List.filter_eq_self.mpr fun e h_e => decide_eq_true (h_pre e h_e),
        List.filter_cons_of_pos (by simpa using h_a),
        List.filter_eq_nil_iff.mpr fun e h_e => by simpa using h_post e h_e]
    · rcases h_numbers i hi with h_old | rfl
      · obtain ⟨e', h_e', h_normal⟩ := h.scanned i h_old
        have h_lt := (List.getElem?_eq_some_iff.mp h_e').1
        rw [List.getElem?_append_left h_lt, h_e'] at h_e
        exact Option.some.inj h_e ▸ h_normal
      · exact Option.some.inj (h_at.symm.trans h_e) ▸ h_a

end Rounds

/-- Allocators that find memory, for every call. -/
def memory : ℕ → Malloc Slot × Malloc Slot := fun _ => (Malloc.succeeds, Malloc.succeeds)

/-- A round that delivers a body of one byte, in front of a zero. -/
def dotDelivered : Event where
  result := .delivered [46] [0]
  waitStatus := amqpStatusOk
  frame := ⟨amqpFrameMethod, amqpBasicAckMethod⟩
  read := ⟨.normal, amqpStatusOk⟩

/-- A round in which the library finds a frame that it does not expect, a `channel.close`. -/
def channelClosed : Event where
  result := .libraryException amqpStatusUnexpectedState false
  waitStatus := amqpStatusOk
  frame := ⟨amqpFrameMethod, amqpChannelCloseMethod⟩
  read := ⟨.normal, amqpStatusOk⟩

/-- A round in which it finds a `basic.ack`. -/
def acknowledged : Event := { channelClosed with frame := ⟨amqpFrameMethod, amqpBasicAckMethod⟩ }

theorem holds_passedOn_one : (passedOn 1).Holds (Shape (ι := Slot)) :=
  ⟨⟨by decide, by decide, by decide, by decide⟩, ⟨by decide, by decide, by decide, by decide⟩⟩

theorem holds_passedOn_full : (passedOn 40560).Holds (Shape (ι := Slot)) :=
  ⟨⟨by decide, by decide, by decide, by decide⟩, ⟨by decide, by decide, by decide, by decide⟩⟩

/-- The body of one byte always gets through. -/
theorem sendReturns_dotDelivered {p : Process (Queue Slot) EmptyFile} (hp : p.Holds Shape)
    {events pre : List Event} {u : Consumer (Queue Slot) EmptyFile} {e : Event}
    (h : Takes (receive memory) (Consumer.start p) events pre u e) :
    u.SendReturns (fun _ => True) memory dotDelivered.result.body := by
  obtain ⟨q, h_alive, -⟩ := (consumed_of_exec Queue.usable hp h.2).alive
  have h_copies : Copies dotDelivered.result.body (Malloc.succeeds : Malloc Slot) :=
    ⟨1, rfl, Or.inr (by decide)⟩
  exact ⟨q, h_alive, Or.inr (Or.inr ⟨trivial, h_copies⟩), Or.inr ⟨trivial, h_copies⟩⟩

end Backend
end WateRMQ
