import WateRMQ.Lib.Run
import WateRMQ.Backend.Duplication

/-!
# The length of a message

`enqueue` keeps `strlen(value) + 1` in an `int`. On its way from `size_t` to `int` and back to the
`size_t` of `malloc` and `memcpy` a length may change: it may come back shorter, and then the
message is cut and its terminator lost, or longer, and then `memcpy` leaves the message.

`lengthKept_iff` says for which lengths `enqueue` keeps its promise: the message is stored whole,
and `peek` gives it once the messages in front of it are gone (`peek_later`), or nothing has
changed.
-/

namespace WateRMQ
namespace Backend

open CMem QueueAccess

/-! ### A slot that is not pending -/

/-- What is in the slot at `rear` is not pending. -/
theorem Queue.contents_update_rear {ι : Type} (q : Queue ι) (x : ι) :
    Queue.contents { q with items := Function.update q.items q.rear x } = q.contents := by
  refine List.map_congr_left ?_
  intro k hk
  have h_lt := List.mem_range.mp hk
  dsimp only at h_lt ⊢
  exact Function.update_of_ne (by omega) _ _

/-- `enqueue` of a message on a queue with room, when `malloc` gives a block of the requested size
or the null pointer. -/
theorem enqueue_mallocThat {q : Queue Slot} (h : Shape q) (h_room : q.rear ≠ maxSize) (m : CStr)
    (ok : Bool) :
    enqueue q m.ptr (mallocThat ok) =
      if ok = false then
        .ok ({ q with items := Function.update q.items q.rear .null },
          [allocationFailed q.rear q.front])
      else if copySize m.length ≤ m.length + 1 then .ok (q.push (copied m), [])
      else .error .outOfBounds := by
  have h_in := h.rear_inArray h_room
  -- without memory the null pointer is stored; with memory the bytes that were copied are
  cases ok with
  | false =>
    have h_malloc : mallocThat false (copySize m.length) (m.ptr.take (copySize m.length)) =
      Slot.null := rfl
    rw [enqueue_ptr m (Queue.getRear_eq q) h_room h_malloc (Queue.setItem_eq q h_in _) rfl
      (Queue.setRear_eq _ (h.rear_inInt h_room)), if_pos rfl,
      if_pos (show Slot.null = CPointer.null from rfl)]
  | true =>
    have h_malloc : mallocThat true (copySize m.length) (m.ptr.take (copySize m.length)) =
      copied m := rfl
    rw [enqueue_ptr m (Queue.getRear_eq q) h_room h_malloc (Queue.setItem_eq q h_in _) rfl
      (Queue.setRear_eq _ (h.rear_inInt h_room)), if_neg (by exact Slot.noConfusion),
      if_neg (by decide : ¬ true = false), Queue.push, if_neg h_room]

/-! ### A message in its slot -/

/-- The number of calls of `dequeue` in a run. -/
def dequeues {ι : Type} : List (Write ι) → ℕ
  | [] => 0
  | .enqueue _ _ :: ops => dequeues ops
  | .dequeue :: ops => dequeues ops + 1

/-- The slot `i` holds `slot`, and `n` messages are pending in front of it. -/
structure Waits (q : Queue Slot) (i : ℤ) (slot : Slot) (n : ℕ) : Prop where
  shape : Shape q
  held : q.items i = slot
  front : q.front + 1 + n = i
  rear : i < q.rear

/-- A message keeps its slot while others come behind it. -/
theorem Waits.enqueue {q q' : Queue Slot} {i : ℤ} {slot : Slot} {n : ℕ} {value : CharPtr}
    {malloc : Malloc Slot} {out : List Output} (h : Waits q i slot n)
    (h_enqueue : Backend.enqueue q value malloc = .ok (q', out)) : Waits q' i slot n := by
  have h_shape := h.shape.enqueue h_enqueue
  have h_rear := h.rear
  -- a full queue is left alone; without memory, or with it, one slot is written
  obtain ⟨rear, h_load, ⟨-, rfl, -⟩ | ⟨-, len, q₁, -, h_store, h_null | h_stored⟩⟩ :=
    enqueue_ok_cases h_enqueue
  · exact h
  · -- the slot behind the last message is written
    obtain rfl : q.rear = rear := Except.ok.inj h_load
    obtain ⟨-, rfl⟩ := Queue.setItem_ok h_store
    obtain ⟨-, rfl, -⟩ := h_null
    exact ⟨h_shape, (Function.update_of_ne h_rear.ne _ _).trans h.held, h.front, h.rear⟩
  · obtain rfl : q.rear = rear := Except.ok.inj h_load
    obtain ⟨-, rfl⟩ := Queue.setItem_ok h_store
    obtain rfl := Queue.setRear_ok h_stored.2.2.1
    exact ⟨h_shape, (Function.update_of_ne h_rear.ne _ _).trans h.held, h.front,
      lt_trans h_rear (lt_add_one q.rear)⟩

/-- A `dequeue` takes a message away from in front of it. -/
theorem Waits.dequeue {q q' : Queue Slot} {i : ℤ} {slot : Slot} {n : ℕ} {out : List Output}
    (h : Waits q i slot (n + 1)) (h_dequeue : Backend.dequeue q = .ok (q', out)) :
    Waits q' i slot n := by
  have h_front := h.front
  have h_rear := h.rear
  -- the message itself is pending, so the queue is not empty
  have h_pending : q.front ≠ q.rear - 1 := by omega
  obtain ⟨h_empty, -⟩ | ⟨-, front, h_load, h_store⟩ := dequeue_ok_cases h_dequeue
  · rw [Queue.isEmpty_eq, decide_eq_false h_pending] at h_empty
    cases h_empty
  · obtain rfl : q.front = front := Except.ok.inj h_load
    obtain rfl := Queue.setFront_ok h_store
    refine ⟨h.shape.pop h_pending, h.held, ?_, h.rear⟩
    dsimp only
    omega

/-- With nothing in front of it, a message is what `peek` gives. -/
theorem Waits.peek {q : Queue Slot} {i : ℤ} {slot : Slot} (h : Waits q i slot 0) :
    Backend.peek q = .ok (slot, []) := by
  have h_front := h.front
  have h_rear := h.rear
  have h_in : Queue.InArray (q.front + 1) := by
    have h_ge := h.shape.front_ge
    have h_le := h.shape.rear_le
    refine ⟨?_, ?_⟩ <;> omega
  have h_empty : isEmpty q = .ok false := by
    rw [Queue.isEmpty_eq, decide_eq_false (by omega)]
  have h_slot : q.items (q.front + 1) = slot := by
    rw [← h.held, ← h_front, Nat.cast_zero, add_zero]
  rw [peek_of_pending h_empty (Queue.getFront_eq q) (Queue.getItem_eq q h_in), h_slot]

/-- **First in, first out**: after as many calls of `dequeue` as there were messages in front of it,
a message is what `peek` gives, whatever is enqueued in between. -/
theorem peek_later {q q' : Queue Slot} {i : ℤ} {slot : Slot} {ops : List (Write Slot)}
    (h : Waits q i slot (dequeues ops)) (h_run : Runs.exec Write.next q ops = some q') :
    Backend.peek q' = .ok (slot, []) := by
  induction ops generalizing q with
  | nil =>
    obtain rfl : q = q' := Option.some.inj h_run
    exact h.peek
  | cons w ops ih =>
    obtain ⟨q₁, h_first, h_rest⟩ := Runs.exec_cons_eq_some.mp h_run
    obtain ⟨out, h_exec⟩ := Write.next_eq_some.mp h_first
    cases w with
    | enqueue value malloc => exact ih (h.enqueue h_exec) h_rest
    | dequeue => exact ih (h.dequeue h_exec) h_rest

/-! ### The promise of `enqueue` -/

/-- The message `m` is stored whole in a slot. -/
def StoredWhole (m : CStr) (slot : Slot) : Prop :=
  ∃ bytes, slot = .block bytes ∧ m.bytes <+: bytes

/-- **`enqueue` keeps the length**: when it advances `rear`, the slot holds a block with all
characters and the terminator, and `peek` gives the whole message when the messages in front of it
are gone; otherwise `front`, `rear` and the pending messages are as before. -/
def LengthKept (q : Queue Slot) (m : CStr) (ok : Bool) : Prop :=
  ∃ q' out, enqueue q m.ptr (mallocThat ok) = .ok (q', out) ∧
    (q'.rear ≠ q.rear → StoredWhole m (q'.items q.rear) ∧
      ∀ ops q'', Runs.exec Write.next q' ops = some q'' → dequeues ops = q.contents.length →
        ∃ slot, peek q'' = .ok (slot, []) ∧ slot.string = .ok m.chars) ∧
    (q'.rear = q.rear → q'.front = q.front ∧ q'.contents = q.contents)

variable {q : Queue Slot} {m : CStr} {ok : Bool}

/-- A message that is pushed waits behind the others. -/
theorem waits_push (h : Shape q) (h_room : q.rear ≠ maxSize) (slot : Slot) :
    Waits (q.push slot) q.rear slot q.contents.length := by
  have h_shape := h.queuePush slot
  have h_front := h.front_le
  rw [Queue.push, if_neg h_room] at h_shape ⊢
  refine ⟨h_shape, Function.update_self q.rear _ _, ?_, lt_add_one q.rear⟩
  rw [Queue.length_contents]
  dsimp only
  omega

/-- A block that holds a message whole is at least as long. -/
theorem StoredWhole.le_copySize (h : StoredWhole m (copied m)) :
    m.length + 1 ≤ copySize m.length := by
  obtain ⟨bytes, h_block, h_prefix⟩ := h
  obtain rfl : m.bytes.take (copySize m.length) = bytes := Slot.block.inj h_block
  calc m.length + 1
      = m.bytes.length := (CStr.length_bytes m).symm
    _ ≤ (m.bytes.take (copySize m.length)).length := h_prefix.length_le
    _ = min (copySize m.length) m.bytes.length := List.length_take
    _ ≤ copySize m.length := Nat.min_le_left _ _

theorem lengthKept_of_copySize (h : Shape q) (h_room : q.rear ≠ maxSize)
    (h_copy : copySize m.length = m.length + 1) : LengthKept q m true := by
  have h_enqueue := enqueue_mallocThat h h_room m true
  rw [if_neg (by decide : ¬ true = false), if_pos h_copy.le, copied_eq_held h_copy] at h_enqueue
  have h_waits := waits_push h h_room (held m)
  refine ⟨_, [], h_enqueue, fun _ => ⟨?_, ?_⟩, fun h_rear => absurd h_rear h_waits.rear.ne'⟩
  · exact ⟨m.bytes, h_waits.held, List.prefix_refl m.bytes⟩
  · intro ops q'' h_run h_count
    rw [← h_count] at h_waits
    exact ⟨held m, peek_later h_waits h_run, readString_bytes m⟩

/-- When memory was found, the length has made it through the `int`. -/
theorem copySize_of_lengthKept (h : Shape q) (h_room : q.rear ≠ maxSize)
    (h_kept : LengthKept q m true) : copySize m.length = m.length + 1 := by
  obtain ⟨q', out, h_enqueue, h_advance, -⟩ := h_kept
  rw [enqueue_mallocThat h h_room, if_neg (by decide : ¬ true = false)] at h_enqueue
  split at h_enqueue
  next h_le =>
    -- not more was copied than there is; and not less, as the message is whole
    obtain ⟨rfl, rfl⟩ := Prod.mk.inj (Except.ok.inj h_enqueue)
    have h_waits := waits_push h h_room (copied m)
    obtain ⟨h_whole, -⟩ := h_advance h_waits.rear.ne'
    rw [h_waits.held] at h_whole
    exact le_antisymm h_le h_whole.le_copySize
  · cases h_enqueue

/-- **When `enqueue` keeps the length**: when it finds no memory, or the length with the terminator
makes it through an `int`. -/
theorem lengthKept_iff (h : Shape q) (h_room : q.rear ≠ maxSize)
    (h_length : m.length + 1 < 2 ^ 64) :
    LengthKept q m ok ↔
      ok = false ∨ m.length + 1 < 2 ^ 31 ∨ 2 ^ 64 - 2 ^ 31 ≤ m.length + 1 := by
  rw [← copySize_eq_iff h_length]
  cases ok with
  | false =>
    have h_enqueue := enqueue_mallocThat h h_room m false
    rw [if_pos rfl] at h_enqueue
    -- `rear` stays, and the null pointer is in a slot that is not pending
    refine iff_of_true ⟨_, _, h_enqueue, fun h_ne => absurd rfl h_ne, fun _ => ⟨rfl, ?_⟩⟩
      (Or.inl rfl)
    exact q.contents_update_rear .null
  | true =>
    simp only [Bool.true_eq_false, false_or]
    exact ⟨copySize_of_lengthKept h h_room, lengthKept_of_copySize h h_room⟩

/-- A queue without messages. -/
def emptyQueue : Queue Slot := ⟨fun _ => .uninit, -1, 0⟩

theorem shape_emptyQueue : Shape emptyQueue := ⟨by decide, by decide, by decide, by decide⟩

theorem lengthKept_dot : LengthKept emptyQueue dot true :=
  (lengthKept_iff shape_emptyQueue (by decide) (by decide)).mpr (Or.inr (Or.inl (by decide)))

/-- A message of `n` times the same character. -/
def repeated (n : ℕ) : CStr :=
  ⟨List.replicate n 97, fun h => absurd (List.eq_of_mem_replicate h) (by decide)⟩

@[simp] theorem length_repeated (n : ℕ) : (repeated n).length = n :=
  List.length_replicate

/-- Of `2 ^ 32` characters one is stored, without a terminator. -/
theorem long_message_cut :
    enqueue emptyQueue (repeated (2 ^ 32)).ptr (mallocThat true) =
      .ok (emptyQueue.push (.block [97]), []) ∧
    ¬ LengthKept emptyQueue (repeated (2 ^ 32)) true := by
  have h_room : emptyQueue.rear ≠ maxSize := by decide
  -- the length with the terminator is `2 ^ 32 + 1`, and `1` as an `int`
  have h_copy : copySize (repeated (2 ^ 32)).length = 1 := by
    rw [length_repeated]
    decide
  have h_block : ∀ n, 0 < n → (repeated n).ptr.take 1 = [97] := by
    intro n h_pos
    obtain ⟨n, rfl⟩ := Nat.exists_eq_add_of_lt h_pos
    rfl
  refine ⟨?_, ?_⟩
  · rw [enqueue_mallocThat shape_emptyQueue h_room, if_neg (by decide : ¬ true = false), copied,
      h_copy, length_repeated, if_pos (by decide), h_block _ (Nat.two_pow_pos 32)]
  · intro h_kept
    have h_eq := copySize_of_lengthKept shape_emptyQueue h_room h_kept
    rw [h_copy, length_repeated] at h_eq
    exact absurd h_eq (by decide)

end Backend
end WateRMQ
