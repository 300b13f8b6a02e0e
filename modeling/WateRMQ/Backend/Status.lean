import WateRMQ.Backend.Length

/-!
# The status of `addMessageInQueue_private`

`addMessageInQueue_private` returns `1` for every message that is not `NULL`, whatever the call of
`enqueue` did with it, and `sendMessage` does not look at what it returns.

`acceptedIsStored_iff` says for which messages the status is nevertheless right, at every state
that a run of `enqueue` and `dequeue` comes to: those for which there is a slot, memory, and a
length that makes it through an `int`.
-/

namespace WateRMQ
namespace Backend

open CMem

variable {φ : Type} {q q' : Queue Slot} {m : CStr}

/-! ### What runs keep -/

/-- An `enqueue` leaves the pending messages where they are. -/
theorem contents_prefix_of_enqueue {value : CharPtr} {malloc : Malloc Slot} {out : List Output}
    (h : Shape q) (h_enqueue : enqueue q value malloc = .ok (q', out)) :
    q.contents <+: q'.contents := by
  obtain ⟨rear, h_load, ⟨-, rfl, -⟩ | ⟨h_room, len, q₁, -, h_store, h_null | h_stored⟩⟩ :=
    enqueue_ok_cases h_enqueue
  · exact List.prefix_refl _
  · -- what is written is behind them
    obtain rfl : q.rear = rear := Except.ok.inj h_load
    obtain ⟨-, rfl⟩ := Queue.setItem_ok h_store
    obtain ⟨-, rfl, -⟩ := h_null
    rw [q.contents_update_rear]
  · obtain rfl : q.rear = rear := Except.ok.inj h_load
    obtain ⟨-, rfl⟩ := Queue.setItem_ok h_store
    obtain rfl := Queue.setRear_ok h_stored.2.2.1
    have h_push := Queue.contents_push h (malloc (copySize len) (value.take (copySize len)))
    rw [Queue.push, if_neg h_room] at h_push
    exact ⟨_, h_push.symm⟩

/-- A state that the two writers come to is within its bounds. -/
theorem shape_of_run {q₀ q₁ : Queue Slot} {ops : List (Write Slot)}
    (h_init : initializeQueue q₀ = .ok q₁) (h_run : Runs.exec Write.next q₁ ops = some q) :
    Shape q := by
  rw [Queue.initializeQueue_eq] at h_init
  obtain rfl := Except.ok.inj h_init
  -- `initializeQueue` makes the bounds true, and both writers keep them
  refine Runs.exec_invariant (I := Shape) ?_
    ⟨le_rfl, le_rfl, le_rfl, show (0 : ℤ) ≤ maxSize by decide⟩ h_run
  intro u w v h h_next
  obtain ⟨out, h_exec⟩ := Write.next_eq_some.mp h_next
  cases w with
  | enqueue value malloc => exact h.enqueue h_exec
  | dequeue =>
    obtain ⟨-, rfl⟩ | ⟨h_empty, front, h_load, h_store⟩ := dequeue_ok_cases h_exec
    · exact h
    · obtain rfl : u.front = front := Except.ok.inj h_load
      obtain rfl := Queue.setFront_ok h_store
      rw [Queue.isEmpty_eq] at h_empty
      exact h.pop (of_decide_eq_false (Except.ok.inj h_empty))

/-! ### Status and effect -/

/-- The argument of a call: a message, or the null pointer. -/
def argument : Option CStr → CharPtr
  | none => .null
  | some m => m.ptr

/-- The messages pending in the instance's `consumingQueue`. -/
def Process.pending (p : Process (Queue Slot) φ) : List Slot :=
  (p.queues p.consumingQueue).contents

/-- **A message accepted is a message stored**: `addMessageInQueue_private` returns `1` when, and
only when, the message is the newest pending one, and otherwise nothing pending has changed; and no
`sendMessage` that returns has lost the message. -/
structure AcceptedIsStored [Kernel φ (Queue Slot)] (p : Process (Queue Slot) φ)
    (message : Option CStr) (ok : Bool) : Prop where
  status : ∃ ret p' out,
    addMessageInQueuePrivate p (argument message) (mallocThat ok) = .ok (ret, p', out) ∧
      (ret = 1 ↔ ∃ m, message = some m ∧ p'.pending = p.pending ++ [held m]) ∧
      (ret ≠ 1 → p'.pending = p.pending)
  sent : ∀ m ok' p' out, message = some m →
    sendMessage p m.ptr (mallocThat ok) (mallocThat ok') = .ok (p', out) → held m ∈ p'.pending

/-- What `enqueue` makes of a message that it stores. -/
theorem enqueue_stores (h : Shape q) (h_room : q.rear ≠ maxSize)
    (h_copy : copySize m.length = m.length + 1) :
    enqueue q m.ptr (mallocThat true) = .ok (q.push (held m), []) := by
  rw [enqueue_mallocThat h h_room, if_neg (by decide : ¬ true = false), if_pos h_copy.le,
    copied_eq_held h_copy]

/-- A push onto a queue with room. -/
theorem contents_push_room (h : Shape q) (h_room : q.rear ≠ maxSize) (slot : Slot) :
    (q.push slot).contents = q.contents ++ [slot] := by
  have h_pos : 1 ≤ q.room := by
    have h_le := h.rear_le
    unfold Queue.room
    omega
  calc (q.push slot).contents
      = q.contents ++ [slot].take q.room := Queue.contents_push h slot
    _ = q.contents ++ [slot] := by rw [List.take_of_length_le h_pos]

/-- When the message is the newest pending one, there was a slot, and memory, and the length made it
through the `int`. -/
theorem stored_of_contents {ok : Bool} {out : List Output} (h : Shape q)
    (h_enqueue : enqueue q m.ptr (mallocThat ok) = .ok (q', out))
    (h_contents : q'.contents = q.contents ++ [held m]) :
    q.rear ≠ maxSize ∧ ok = true ∧ copySize m.length = m.length + 1 := by
  by_cases h_room : q.rear = maxSize
  · -- a full queue is left as it is
    rw [enqueue_of_isFull (congrArg Except.ok h_room)] at h_enqueue
    obtain ⟨rfl, -⟩ := Prod.mk.inj (Except.ok.inj h_enqueue)
    cases List.self_eq_append_right.mp h_contents
  · rw [enqueue_mallocThat h h_room] at h_enqueue
    cases ok with
    | false =>
      -- without memory only a slot behind the messages is written
      rw [if_pos rfl] at h_enqueue
      obtain ⟨rfl, -⟩ := Prod.mk.inj (Except.ok.inj h_enqueue)
      rw [q.contents_update_rear] at h_contents
      cases List.self_eq_append_right.mp h_contents
    | true =>
      rw [if_neg (by decide : ¬ true = false)] at h_enqueue
      split at h_enqueue
      next h_le =>
        obtain ⟨rfl, -⟩ := Prod.mk.inj (Except.ok.inj h_enqueue)
        rw [contents_push_room h h_room] at h_contents
        have h_held := List.singleton_inj.mp (List.append_cancel_left h_contents)
        exact ⟨h_room, rfl, le_antisymm h_le (le_copySize_of_copied h_held)⟩
      · cases h_enqueue

variable [Kernel φ (Queue Slot)] {p : Process (Queue Slot) φ} {message : Option CStr} {ok : Bool}

/-- A null pointer is turned down. -/
theorem acceptedIsStored_none (p : Process (Queue Slot) φ) (ok : Bool) :
    AcceptedIsStored p none ok where
  status := by
    refine ⟨-1, p, [], if_pos rfl, iff_of_false (by decide) ?_, fun _ => rfl⟩
    rintro ⟨m, h_m, -⟩
    cases h_m
  sent m ok' p' out h_m := nomatch h_m

theorem acceptedIsStored_some (h : Shape (p.queues p.consumingQueue))
    (h_room : (p.queues p.consumingQueue).rear ≠ maxSize)
    (h_copy : copySize m.length = m.length + 1) : AcceptedIsStored p (some m) true where
  status := by
    -- the status is `1`, and `enqueue` has pushed the message
    have h_at := Process.enqueueAt_ok.mpr ⟨_, enqueue_stores h h_room h_copy, rfl⟩
    refine ⟨1, _, [], (addMessageInQueuePrivate_ok CharPtr.noConfusion).mpr ⟨rfl, h_at⟩,
      iff_of_true rfl ⟨m, rfl, ?_⟩, fun h_ne => absurd rfl h_ne⟩
    rw [Process.pending, Process.pending, ← contents_push_room h h_room]
    dsimp only
    rw [Function.update_self]
  sent := by
    rintro m' ok' p' out ⟨⟩ h_send
    -- the first `enqueue` of `sendMessage` is that of `addMessageInQueue_private`
    obtain ⟨q₁, out₁, q₂, out₂, h_first, h_second, rfl, -⟩ :=
      (sendMessage_ok CharPtr.noConfusion).mp h_send
    obtain ⟨rfl, -⟩ := Prod.mk.inj
      (Except.ok.inj ((enqueue_stores h h_room h_copy).symm.trans h_first))
    have h_mem : held m ∈ ((p.queues p.consumingQueue).push (held m)).contents := by
      rw [contents_push_room h h_room]
      exact List.mem_append_right _ (List.mem_singleton_self _)
    rw [Process.pending]
    dsimp only
    by_cases h_ptr : p.consumingQueue = p.ptrQueue
    · -- the second `enqueue` is on the same queue, and keeps what is pending
      rw [← h_ptr, Function.update_self] at h_second
      rw [← h_ptr, Function.update_self]
      exact (contents_prefix_of_enqueue (h.queuePush _) h_second).subset h_mem
    · rwa [Function.update_of_ne h_ptr, Function.update_self]

/-- **When a message accepted is a message stored**, at every state reached from `initializeQueue`:
when it is the null pointer, or there is a slot, and memory, and its length makes it through an
`int`. -/
theorem acceptedIsStored_iff {q₀ q₁ : Queue Slot} {ops : List (Write Slot)}
    (h_init : initializeQueue q₀ = .ok q₁)
    (h_run : Runs.exec Write.next q₁ ops = some (p.queues p.consumingQueue)) :
    AcceptedIsStored p message ok ↔ ∀ m, message = some m →
      (p.queues p.consumingQueue).rear ≠ maxSize ∧ ok = true ∧
        copySize m.length = m.length + 1 := by
  have h_shape := shape_of_run h_init h_run
  cases message with
  | none => exact iff_of_true (acceptedIsStored_none p ok) fun m h_m => nomatch h_m
  | some m =>
    refine ⟨?_, ?_⟩
    -- a message that is not null is accepted, so it must be the newest one
    · rintro ⟨⟨ret, p', out, h_add, h_iff, -⟩, -⟩ m' h_m
      obtain rfl := Option.some.inj h_m
      obtain ⟨rfl, h_at⟩ := (addMessageInQueuePrivate_ok CharPtr.noConfusion).mp h_add
      obtain ⟨q', h_enqueue, rfl⟩ := Process.enqueueAt_ok.mp h_at
      obtain ⟨m', h_m', h_pending⟩ := h_iff.mp rfl
      obtain rfl := Option.some.inj h_m'
      rw [Process.pending, Process.pending] at h_pending
      dsimp only at h_pending
      rw [Function.update_self] at h_pending
      exact stored_of_contents h_shape h_enqueue h_pending
    · intro h
      obtain ⟨h_room, rfl, h_copy⟩ := h m rfl
      exact acceptedIsStored_some h_shape h_room h_copy

/-- The state after `initializeQueue`, and no call after it. -/
theorem run_passedOn_zero : initializeQueue (⟨fun _ => .uninit, 7, 7⟩ : Queue Slot) =
      .ok ((passedOn 0).queues (passedOn 0).consumingQueue) ∧
    Runs.exec Write.next ((passedOn 0).queues (passedOn 0).consumingQueue) [] =
      some ((passedOn 0).queues (passedOn 0).consumingQueue) :=
  ⟨Queue.initializeQueue_eq _, rfl⟩

theorem acceptedIsStored_dot : AcceptedIsStored (passedOn 0) (some dot) true :=
  (acceptedIsStored_iff run_passedOn_zero.1 run_passedOn_zero.2).mpr fun m h_m => by
    obtain rfl := Option.some.inj h_m
    exact ⟨by decide, rfl, copySize_of_lt (by decide)⟩

/-- Right after `initializeQueue`, and without memory, the message is accepted and not stored. -/
theorem accepted_not_stored :
    initializeQueue (⟨fun _ => .uninit, 7, 7⟩ : Queue Slot) =
      .ok ((passedOn 0).queues (passedOn 0).consumingQueue) ∧
    (∃ p' out, addMessageInQueuePrivate (passedOn 0) dot.ptr (mallocThat false) =
      .ok (1, p', out) ∧ p'.pending = []) ∧ ¬ AcceptedIsStored (passedOn 0) (some dot) false := by
  have h_shape := shape_of_run run_passedOn_zero.1 run_passedOn_zero.2
  have h_room : ((passedOn 0).queues (passedOn 0).consumingQueue).rear ≠ maxSize := by decide
  have h_enqueue := enqueue_mallocThat h_shape h_room dot false
  rw [if_pos rfl] at h_enqueue
  have h_add := (addMessageInQueuePrivate_ok (p := passedOn 0) CharPtr.noConfusion).mpr
    ⟨rfl, Process.enqueueAt_ok.mpr ⟨_, h_enqueue, rfl⟩⟩
  refine ⟨run_passedOn_zero.1, ⟨_, _, h_add, rfl⟩, ?_⟩
  rintro ⟨⟨ret, p', out, h_status, h_iff, -⟩, -⟩
  obtain ⟨rfl, h_rest⟩ := Prod.mk.inj (Except.ok.inj (h_add.symm.trans h_status))
  obtain ⟨rfl, -⟩ := Prod.mk.inj h_rest
  -- the status is `1`, so the message would have to be pending
  obtain ⟨m, h_m, h_pending⟩ := h_iff.mp rfl
  cases h_pending

end Backend
end WateRMQ
