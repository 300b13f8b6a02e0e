import WateRMQ.Lib.Run
import WateRMQ.Backend.Queue

/-!
# The capacity of the backend's queue

`isFull` compares `rear` with `MAX_SIZE`, and no operation ever moves `rear` back. So what fills
the queue is not the number of pending messages but the number of messages ever accepted, the
`"."` of `create_WateRMQ_ConsumingQueue_private` included: `capacityOk_iff` says that the queue
keeps its capacity exactly as long as fewer than `MAX_SIZE - 1` calls of `enqueue` were made, and
`full_and_empty` is a run of alternating calls after which the queue is full and empty at once.

The invariant is `Counts`: `rear` is one more than the number of calls of `enqueue`, up to
`MAX_SIZE`, and `front` is not negative.
-/

namespace WateRMQ
namespace Backend

open CMem QueueAccess

/-! ### The property and the invariant -/

section Capacity

variable {ι : Type}

/-- The allocator of an `enqueue` finds memory. -/
def Write.Allocates [CPointer ι] : Write ι → Prop
  | .enqueue _ malloc => ∀ n bytes, malloc n bytes ≠ CPointer.null
  | .dequeue => True

/-- Whether a call is one of `enqueue`. -/
def Write.isEnqueue : Write ι → Bool
  | .enqueue _ _ => true
  | .dequeue => false

/-- What the calls `pre` leave of `front` and `rear`. -/
structure Counts (pre : List (Write ι)) (q : Queue ι) : Prop where
  shape : Shape q
  front_ge : 0 ≤ q.front
  rear_eq : q.rear = min (1 + (pre.countP Write.isEnqueue : ℤ)) maxSize

variable [CPointer ι] [DecidableEq ι]

/-- The queue turns a message down only when `MAX_SIZE` messages are pending, and is never full
and empty at once. -/
def CapacityOk (q : Queue ι) : Prop :=
  (∀ (value : CStr) (malloc : Malloc ι),
      enqueue q value.ptr malloc = .ok (q, [.stdout "Queue is full\n"]) →
    (q.contents.length : ℤ) = maxSize) ∧
  ¬ (isFull q = .ok true ∧ isEmpty q = .ok true)

/-- `enqueue` says that the queue is full only when `rear` is at the end of the array. -/
theorem rear_of_enqueue_full {q q' : Queue ι} {value : CharPtr} {malloc : Malloc ι}
    (h : enqueue q value malloc = .ok (q', [.stdout "Queue is full\n"])) : q.rear = maxSize := by
  obtain ⟨rear, h_rear, h_full | ⟨-, len, q₁, -, -, h_null | h_stored⟩⟩ := enqueue_ok_cases h
  · obtain rfl : q.rear = rear := Except.ok.inj h_rear
    exact h_full.1
  · obtain ⟨-, -, front, h_out⟩ := h_null
    cases h_out
  · obtain ⟨-, -, -, h_out⟩ := h_stored
    cases h_out

/-- **The queue keeps its capacity while `rear` is inside the array**, and no longer: once `rear`
has reached the end, fewer than `MAX_SIZE` messages are pending. -/
theorem Counts.capacityOk_iff_rear_lt {pre : List (Write ι)} {q : Queue ι} (h : Counts pre q) :
    CapacityOk q ↔ q.rear < maxSize := by
  have h_front := h.front_ge
  have h_bound := maxSize_eq
  constructor
  · rintro ⟨h_full, -⟩
    -- at the end of the array the message `dot` is turned down, with at most `rear - 1` pending
    refine lt_of_le_of_ne h.shape.rear_le fun h_rear => ?_
    have h_len := h_full dot (Malloc.fails ι) (enqueue_of_isFull (by rw [← h_rear]; rfl) _ _)
    rw [Queue.length_contents] at h_len
    omega
  · intro h_rear
    refine ⟨fun value malloc h_full => ?_, fun ⟨h_full, _⟩ => ?_⟩
    · exact absurd (rear_of_enqueue_full h_full) h_rear.ne
    · rw [Queue.isFull_eq, decide_eq_false h_rear.ne] at h_full
      cases h_full

/-! ### One step, and a run -/

theorem Counts.enqueue {pre : List (Write ι)} {q q' : Queue ι} {value : CStr} {malloc : Malloc ι}
    (h : Counts pre q) (h_malloc : ∀ n bytes, malloc n bytes ≠ CPointer.null)
    (h_next : (Write.enqueue value malloc).next q = some q') :
    Counts (pre ++ [.enqueue value malloc]) q' := by
  have h_rear := h.rear_eq
  have h_count : (pre ++ [Write.enqueue value malloc]).countP Write.isEnqueue =
      pre.countP Write.isEnqueue + 1 := by
    rw [List.countP_append]
    rfl
  obtain ⟨out, h_exec⟩ := Write.next_eq_some.mp h_next
  obtain ⟨rear, h_get, h_full | ⟨h_room, len, q₁, -, h_store, h_null | h_stored⟩⟩ :=
    enqueue_ok_cases h_exec
  · -- the array is used up: nothing changes, and the minimum stays where it is
    obtain rfl : q.rear = rear := Except.ok.inj h_get
    obtain ⟨h_max, rfl, -⟩ := h_full
    exact ⟨h.shape, h.front_ge, by rw [h_count]; push_cast; omega⟩
  · -- memory is always found
    exact absurd h_null.1 (h_malloc _ _)
  · obtain rfl : q.rear = rear := Except.ok.inj h_get
    obtain ⟨-, -, h_advance, -⟩ := h_stored
    -- the new `rear` is still at most `maxSize`, so the minimum grows by one
    obtain ⟨h_in, rfl⟩ := Queue.setItem_ok h_store
    obtain rfl := Queue.setRear_ok h_advance
    have h_lt := h_in.2
    refine ⟨h.shape.push h_room _, h.front_ge, ?_⟩
    rw [h_count]
    push_cast
    omega

theorem Counts.dequeue {pre : List (Write ι)} {q q' : Queue ι} (h : Counts pre q)
    (h_next : Write.next q .dequeue = some q') : Counts (pre ++ [.dequeue]) q' := by
  have h_count : (pre ++ [Write.dequeue]).countP Write.isEnqueue =
      pre.countP Write.isEnqueue := by
    rw [List.countP_append]
    rfl
  obtain ⟨out, h_exec⟩ := Write.next_eq_some.mp h_next
  -- an empty queue stays as it is; otherwise `front` goes on, and `rear` counts as before
  obtain ⟨-, rfl⟩ | ⟨h_pending, front, h_get, h_advance⟩ := dequeue_ok_cases h_exec
  · exact ⟨h.shape, h.front_ge, h_count ▸ h.rear_eq⟩
  · obtain rfl : q.front = front := Except.ok.inj h_get
    obtain rfl := Queue.setFront_ok h_advance
    have h_ne : q.front ≠ q.rear - 1 := by
      rw [Queue.isEmpty_eq] at h_pending
      exact of_decide_eq_false (Except.ok.inj h_pending)
    have h_front := h.front_ge
    exact ⟨h.shape.pop h_ne, by dsimp only; omega, h_count ▸ h.rear_eq⟩

/-- The `"."` of `create_WateRMQ_ConsumingQueue_private` takes the first slot for good. -/
theorem front_rear_of_create {q₀ q : Queue ι} {malloc : Malloc ι}
    (h_malloc : ∀ n bytes, malloc n bytes ≠ CPointer.null)
    (h_create : createWateRMQConsumingQueuePrivate (some q₀) malloc = .ok (some q)) :
    q.front = 0 ∧ q.rear = 1 := by
  obtain ⟨q₁, h_init, h_rest⟩ := bind_eq_ok.mp h_create
  obtain ⟨⟨q₂, out₂⟩, h_enqueue, h_rest⟩ := bind_eq_ok.mp h_rest
  obtain ⟨⟨q₃, out₃⟩, h_dequeue, h_rest⟩ := bind_eq_ok.mp h_rest
  obtain rfl : q₃ = q := Option.some.inj (Except.ok.inj h_rest)
  obtain rfl := Except.ok.inj ((Queue.initializeQueue_eq q₀).symm.trans h_init)
  obtain ⟨rear, h_rear, h_full | ⟨-, len, q₁, -, h_store, h_null | h_stored⟩⟩ :=
    enqueue_ok_cases h_enqueue
  · -- an empty array is not full
    obtain rfl : 0 = rear := Except.ok.inj h_rear
    exact absurd h_full.1 (by decide)
  · exact absurd h_null.1 (h_malloc _ _)
  · obtain rfl : 0 = rear := Except.ok.inj h_rear
    obtain ⟨-, rfl⟩ := Queue.setItem_ok h_store
    obtain rfl := Queue.setRear_ok h_stored.2.2.1
    -- the `"."` is pending, so `dequeue` passes over it
    obtain ⟨h_empty, -⟩ | ⟨-, front, h_front, h_advance⟩ := dequeue_ok_cases h_dequeue
    · cases h_empty
    · obtain rfl : -1 = front := Except.ok.inj h_front
      obtain rfl := Queue.setFront_ok h_advance
      exact ⟨rfl, rfl⟩

theorem counts_of_create {q₀ q : Queue ι} {malloc : Malloc ι}
    (h_malloc : ∀ n bytes, malloc n bytes ≠ CPointer.null)
    (h_create : createWateRMQConsumingQueuePrivate (some q₀) malloc = .ok (some q)) :
    Counts [] q := by
  obtain ⟨h_front, h_rear⟩ := front_rear_of_create h_malloc h_create
  have h_bound := maxSize_eq
  exact
    { shape := ⟨by omega, by omega, by omega, by omega⟩
      front_ge := h_front.ge
      rear_eq := by rw [h_rear, h_bound]; rfl }

theorem counts_of_run {q t : Queue ι} {ops : List (Write ι)} (h : Counts [] q)
    (h_alloc : ∀ w ∈ ops, w.Allocates) (h_run : Runs.exec Write.next q ops = some t) :
    Counts ops t := by
  refine Runs.exec_history h ?_ h_run
  intro pre u w v hu h_next h_mem
  cases w with
  | enqueue value malloc => exact hu.enqueue (h_alloc _ h_mem) h_next
  | dequeue => exact hu.dequeue h_next

/-- **When the queue keeps its capacity.** In the states of a run on the queue of
`create_WateRMQ_ConsumingQueue_private`, with memory for every message, `enqueue` turns a message
down only when `MAX_SIZE` messages are pending, and the queue is never full and empty at once:
exactly when the run makes fewer than `MAX_SIZE - 1` calls of `enqueue`. -/
theorem capacityOk_iff {q₀ q t : Queue ι} {malloc : Malloc ι} {ops : List (Write ι)}
    (h_malloc : ∀ n bytes, malloc n bytes ≠ CPointer.null)
    (h_create : createWateRMQConsumingQueuePrivate (some q₀) malloc = .ok (some q))
    (h_alloc : ∀ w ∈ ops, w.Allocates) (h_run : Runs.exec Write.next q ops = some t) :
    (∀ u, Runs.Visits Write.next q ops u → CapacityOk u) ↔
      (ops.countP Write.isEnqueue : ℤ) < maxSize - 1 := by
  have h_start := counts_of_create h_malloc h_create
  have h_last := counts_of_run h_start h_alloc h_run
  constructor
  · -- the last state of the run is enough
    intro h_all
    have h_rear := h_last.capacityOk_iff_rear_lt.mp (h_all t (Runs.Visits.last h_run))
    have h_eq := h_last.rear_eq
    omega
  · -- a visited state belongs to a part of the run, with no more calls than the whole
    rintro h_few u ⟨pre, h_pre, h_exec⟩
    have h_u := counts_of_run h_start (fun w hw => h_alloc w (h_pre.subset hw)) h_exec
    have h_le : pre.countP Write.isEnqueue ≤ ops.countP Write.isEnqueue :=
      h_pre.sublist.countP_le
    have h_eq := h_u.rear_eq
    exact h_u.capacityOk_iff_rear_lt.mpr (by omega)

end Capacity

theorem capacityOk_of_one_message :
    ∃ q t : Queue Slot,
      createWateRMQConsumingQueuePrivate (some ⟨fun _ => .uninit, 0, 0⟩) Malloc.succeeds =
        .ok (some q) ∧
      Runs.exec Write.next q [.enqueue dot Malloc.succeeds, .dequeue] = some t ∧
      ((∀ u, Runs.Visits Write.next q [.enqueue dot Malloc.succeeds, .dequeue] u →
          CapacityOk u) ↔ 1 < maxSize - 1) := by
  have h_malloc : ∀ n bytes, Malloc.succeeds n bytes ≠ CPointer.null := fun _ _ => Slot.noConfusion
  -- after the creation slot 0 is behind `front`; the message goes to slot 1 and is taken
  let items : ℤ → Slot := Function.update (fun _ => .uninit) 0 (.block dot.bytes)
  have h_create : createWateRMQConsumingQueuePrivate (some (⟨fun _ => .uninit, 0, 0⟩ : Queue Slot))
      Malloc.succeeds = .ok (some ⟨items, 0, 1⟩) := rfl
  refine ⟨_, ⟨Function.update items 1 (.block dot.bytes), 1, 2⟩, h_create, rfl, ?_⟩
  exact capacityOk_iff h_malloc h_create (by simp [Write.Allocates, h_malloc]) rfl

/-! ### A run past the capacity -/

/-- A message that is taken at once, `n` times. -/
def pairs (n : ℕ) : List (Write Slot) :=
  (List.replicate n [.enqueue dot Malloc.succeeds, .dequeue]).flatten

/-- One pair moves `front` and `rear` on by one. -/
theorem exec_pair {q : Queue Slot} (h : Shape q) (h_empty : q.front = q.rear - 1)
    (h_room : q.rear ≠ maxSize) :
    ∃ t, Runs.exec Write.next q [.enqueue dot Malloc.succeeds, .dequeue] = some t ∧ Shape t ∧
      t.front = t.rear - 1 ∧ t.rear = q.rear + 1 := by
  have h_shape := h.push h_room (.block dot.bytes)
  have h_enqueue := enqueue_ptr dot (show getRear q = _ from rfl) h_room
    (show Malloc.succeeds _ _ = Slot.block dot.bytes from rfl)
    (Queue.setItem_eq q (h.rear_inArray h_room) _) rfl (Queue.setRear_eq _ (h.rear_inInt h_room))
  rw [if_neg (by exact Slot.noConfusion), if_pos (by decide)] at h_enqueue
  -- what was enqueued is pending, so the `dequeue` takes it
  have h_pending : q.front ≠ q.rear + 1 - 1 := by omega
  have h_dequeue := dequeue_of_pending (decide_eq_false h_pending ▸ Queue.isEmpty_eq _) rfl
    (Queue.setFront_eq _ h_shape.front_inInt)
  refine ⟨_, ?_, h_shape.pop h_pending, ?_, rfl⟩
  · exact Runs.exec_cons_eq_some.mpr ⟨_, Write.next_enqueue h_enqueue,
      Runs.exec_cons_eq_some.mpr ⟨_, Write.next_dequeue h_dequeue, rfl⟩⟩
  · dsimp only
    omega

theorem exec_pairs {n : ℕ} {q : Queue Slot} (h : Shape q) (h_empty : q.front = q.rear - 1)
    (h_room : q.rear + n ≤ maxSize) :
    ∃ t, Runs.exec Write.next q (pairs n) = some t ∧ t.front = t.rear - 1 ∧
      t.rear = q.rear + n := by
  induction n generalizing q with
  | zero => exact ⟨q, rfl, h_empty, by omega⟩
  | succ n ih =>
    push_cast at h_room
    -- the first pair, and then the others from where it stops
    obtain ⟨u, h_pair, h_u, h_empty_u, h_rear_u⟩ := exec_pair h h_empty (by omega)
    obtain ⟨t, h_exec, h_empty_t, h_rear_t⟩ := ih h_u h_empty_u (by omega)
    refine ⟨t, ?_, h_empty_t, by omega⟩
    rw [pairs, List.replicate_succ, List.flatten_cons, Runs.exec_append, h_pair]
    exact h_exec

/-- After `MAX_SIZE - 1` messages that were each taken at once, nothing is pending, the queue is
full and empty, and the next message is turned down. -/
theorem full_and_empty :
    ∃ q t : Queue Slot,
      createWateRMQConsumingQueuePrivate (some ⟨fun _ => .uninit, 0, 0⟩) Malloc.succeeds =
        .ok (some q) ∧
      Runs.exec Write.next q (pairs 40559) = some t ∧ ¬ CapacityOk t ∧
      isFull t = .ok true ∧ isEmpty t = .ok true ∧ t.contents = [] ∧
      enqueue t dot.ptr Malloc.succeeds = .ok (t, [.stdout "Queue is full\n"]) := by
  obtain ⟨t, h_exec, h_empty, h_rear⟩ := exec_pairs (n := 40559)
    (q := ⟨Function.update (fun _ => Slot.uninit) 0 (.block dot.bytes), 0, 1⟩)
    ⟨by decide, by decide, by decide, by decide⟩ rfl (by decide)
  -- `rear` has come to the end of the array, and `front` is right behind it
  have h_full : isFull t = .ok true := by rw [Queue.isFull_eq, h_rear]; rfl
  have h_isEmpty : isEmpty t = .ok true := by rw [Queue.isEmpty_eq, decide_eq_true h_empty]
  refine ⟨_, t, rfl, h_exec, fun h => h.2 ⟨h_full, h_isEmpty⟩, h_full, h_isEmpty, ?_, ?_⟩
  · rw [← List.length_eq_zero_iff, Queue.length_contents]
    omega
  · exact enqueue_of_isFull (congrArg Except.ok h_rear) _ _

end Backend
end WateRMQ
