import WateRMQ.Backend.Instance

/-!
# What `sendMessage` stores

After the new-file branch of `configurationQueueMmap_private` the instance's `consumingQueue` and
the `ptr_queue` of its `qmmap` are one object, and `sendMessage` enqueues through both: every
message is stored twice, as long as there is room. `storedOnce_iff` says when a sequence of
messages nevertheless ends up in the queue once each: when the array runs out in time to discard
the second half, and the messages are all the same.

A run of `sendMessage` is a fold of `Queue.push` over the doubled messages (`sendMessages_ok`),
and a fold of `Queue.push` appends as many as there is room for (`contents_pushes`).
-/

namespace WateRMQ
namespace Backend

open CMem

/-! ### Pushing onto the array -/

section Push

variable {ι : Type}

/-- Append `x` at `rear`, when the array has a slot left. -/
def Queue.push (q : Queue ι) (x : ι) : Queue ι :=
  if q.rear = maxSize then q
  else { items := Function.update q.items q.rear x, front := q.front, rear := q.rear + 1 }

/-- The number of slots that are left. -/
def Queue.room (q : Queue ι) : ℕ := (maxSize - q.rear).toNat

theorem Shape.queuePush {q : Queue ι} (h : Shape q) (x : ι) : Shape (q.push x) := by
  unfold Queue.push
  split
  · exact h
  next h_room => exact h.push h_room x

theorem Queue.room_push {q : Queue ι} (h : Shape q) (x : ι) : (q.push x).room = q.room - 1 := by
  have h_le := h.rear_le
  unfold Queue.push Queue.room
  split
  · omega
  · dsimp only
    omega

/-- The new item is the last of the pending ones. -/
theorem Queue.contents_push {q : Queue ι} (h : Shape q) (x : ι) :
    (q.push x).contents = q.contents ++ [x].take q.room := by
  have h_le := h.rear_le
  have h_front := h.front_le
  by_cases h_room : q.rear = maxSize
  · -- a full array takes nothing
    have h_zero : q.room = 0 := by unfold Queue.room; omega
    rw [Queue.push, if_pos h_room, h_zero, List.take_zero, List.append_nil]
  · have h_pos : 1 ≤ q.room := by unfold Queue.room; omega
    have h_len : (q.rear + 1 - (q.front + 1)).toNat = (q.rear - (q.front + 1)).toNat + 1 := by
      omega
    have h_last : q.front + 1 + ((q.rear - (q.front + 1)).toNat : ℤ) = q.rear := by omega
    rw [Queue.push, if_neg h_room, List.take_of_length_le h_pos, Queue.contents]
    simp only [h_len, List.range_succ, List.map_append, List.map_singleton, h_last,
      Function.update_self]
    congr 1
    -- the slots in front of `rear` are not touched
    refine List.map_congr_left fun k hk => Function.update_of_ne ?_ _ _
    rw [List.mem_range] at hk
    omega

/-- Pushing a list appends as much of it as there is room for. -/
theorem contents_pushes {q : Queue ι} (h : Shape q) (xs : List ι) :
    (xs.foldl Queue.push q).contents = q.contents ++ xs.take q.room := by
  induction xs generalizing q with
  | nil => rw [List.foldl_nil, List.take_nil, List.append_nil]
  | cons x xs ih =>
    -- the first element takes one slot of those that are left, if there is one
    have h_take : [x].take q.room ++ xs.take (q.room - 1) = (x :: xs).take q.room := by
      cases q.room with
      | zero => rfl
      | succ n =>
        rw [List.take_succ_cons, List.take_succ_cons, List.take_nil, Nat.add_sub_cancel,
          List.singleton_append]
    calc (xs.foldl Queue.push (q.push x)).contents
        = (q.push x).contents ++ xs.take (q.push x).room := ih (h.queuePush x)
      _ = q.contents ++ ([x].take q.room ++ xs.take (q.room - 1)) := by
          rw [Queue.contents_push h, Queue.room_push h, List.append_assoc]
      _ = q.contents ++ (x :: xs).take q.room := by rw [h_take]

end Push

/-! ### Messages -/

/-- What `enqueue` stores for the message `m` when it finds memory. -/
def copied (m : CStr) : Slot := .block (m.ptr.take (copySize m.length))

/-- The slot that holds the message `m`. -/
def held (m : CStr) : Slot := .block m.bytes

theorem held_injective : Function.Injective held := fun _ _ h =>
  CStr.bytes_injective (Slot.block.inj h)

theorem copied_eq_held {m : CStr} (h : copySize m.length = m.length + 1) : copied m = held m := by
  rw [copied, held, h, take_ptr]

/-- A copy that holds the message has all its bytes. -/
theorem le_copySize_of_copied {m : CStr} (h : copied m = held m) :
    m.length + 1 ≤ copySize m.length := by
  have h_bytes : m.bytes.take (copySize m.length) = m.bytes := Slot.block.inj h
  have h_len := congrArg List.length h_bytes
  rw [List.length_take, CStr.length_bytes] at h_len
  omega

/-- Every element of the list, twice. -/
def twice (ms : List CStr) : List Slot := ms.flatMap fun m => [copied m, copied m]

theorem getElem?_twice (ms : List CStr) (i : ℕ) : (twice ms)[i]? = ms[i / 2]?.map copied := by
  induction ms generalizing i with
  | nil => rfl
  | cons m ms ih =>
    rcases i with _ | _ | i
    · rfl
    · rfl
    · have h_half : (i + 1 + 1) / 2 = i / 2 + 1 := by omega
      rw [h_half, List.getElem?_cons_succ, ← ih i]
      rfl

@[simp] theorem length_twice (ms : List CStr) : (twice ms).length = 2 * ms.length := by
  induction ms with
  | nil => rfl
  | cons m ms ih =>
    have h_cons : twice (m :: ms) = copied m :: copied m :: twice ms := rfl
    rw [h_cons, List.length_cons, List.length_cons, ih, List.length_cons]
    omega

/-- The first half of the doubled list is the list, slot by slot. -/
theorem take_twice_eq_iff (ms : List CStr) :
    (twice ms).take ms.length = ms.map held ↔
      ∀ i < ms.length, ms[i / 2]?.map copied = ms[i]?.map held := by
  rw [List.ext_getElem?_iff]
  refine forall_congr' ?_
  intro i
  by_cases hi : i < ms.length
  · rw [List.getElem?_take_of_lt hi, getElem?_twice, List.getElem?_map]
    exact ⟨fun h _ => h, fun h => h hi⟩
  · -- behind the first half both sides have nothing
    refine iff_of_true ?_ fun h => absurd h hi
    rw [List.getElem?_take_eq_none (by omega), List.getElem?_eq_none (by simpa using hi)]

/-! ### One call, and a run -/

section Runs

variable {φ : Type} [Kernel φ (Queue Slot)]

/-- `enqueue` with memory is a push. -/
theorem enqueue_push {q q' : Queue Slot} {m : CStr} {out : List Output}
    (h_enqueue : enqueue q m.ptr Malloc.succeeds = .ok (q', out)) : q' = q.push (copied m) := by
  obtain ⟨rear, h_rear, h_full | ⟨h_room, len, q₁, h_len, h_store, h_null | h_stored⟩⟩ :=
    enqueue_ok_cases h_enqueue
  · -- full: both leave the queue as it is
    obtain rfl : q.rear = rear := Except.ok.inj h_rear
    rw [Queue.push, if_pos h_full.1, h_full.2.1]
  · cases h_null.1
  · obtain rfl : q.rear = rear := Except.ok.inj h_rear
    obtain rfl : m.length = len := Except.ok.inj ((strlen_ptr m).symm.trans h_len)
    obtain ⟨-, rfl⟩ := Queue.setItem_ok h_store
    rw [Queue.push, if_neg h_room, Queue.setRear_ok h_stored.2.2.1]
    rfl

/-- A message whose length fits an `int` can be enqueued. -/
theorem enqueue_fitting {q : Queue Slot} (h : Shape q) {m : CStr}
    (h_copy : copySize m.length = m.length + 1) :
    ∃ out, enqueue q m.ptr Malloc.succeeds = .ok (q.push (copied m), out) := by
  by_cases h_room : q.rear = maxSize
  · exact ⟨_, by rw [Queue.push, if_pos h_room]; exact enqueue_of_isFull (congrArg _ h_room) _ _⟩
  · have h_malloc : Malloc.succeeds (copySize m.length) (m.ptr.take (copySize m.length)) =
      copied m := rfl
    have h_enqueue := enqueue_ptr m (show QueueAccess.getRear q = _ from rfl) h_room h_malloc
      (Queue.setItem_eq q (h.rear_inArray h_room) _) rfl (Queue.setRear_eq _ (h.rear_inInt h_room))
    rw [if_neg (by exact Slot.noConfusion), if_pos h_copy.le] at h_enqueue
    exact ⟨_, by rw [Queue.push, if_neg h_room]; exact h_enqueue⟩

/-- Both pointers of the instance are `ptr`, and the queue there is within its bounds. -/
structure Shared (p : Process (Queue Slot) φ) (ptr : QueuePtr) : Prop where
  consuming : p.consumingQueue = ptr
  mapped : p.ptrQueue = ptr
  shape : Shape (p.queues ptr)

/-- Calls of `sendMessage` that find memory. -/
def sendMessages (p : Process (Queue Slot) φ) : List CStr → Except Fault (Process (Queue Slot) φ)
  | [] => return p
  | m :: ms => do
    let (p, _) ← sendMessage p m.ptr Malloc.succeeds Malloc.succeeds
    sendMessages p ms

/-- `sendMessage` pushes the message twice onto the shared queue. -/
theorem sendMessage_shared {p p' : Process (Queue Slot) φ} {ptr : QueuePtr} {m : CStr}
    {out : List Output} (h : Shared p ptr)
    (h_send : sendMessage p m.ptr Malloc.succeeds Malloc.succeeds = .ok (p', out)) :
    Shared p' ptr ∧ p'.queues ptr = ((p.queues ptr).push (copied m)).push (copied m) := by
  obtain ⟨rfl, h_mapped, h_shape⟩ := h
  obtain ⟨q₁, out₁, q₂, out₂, h_first, h_second, rfl, -⟩ :=
    (sendMessage_ok CharPtr.noConfusion).mp h_send
  rw [h_mapped, Function.update_self] at h_second
  obtain rfl := enqueue_push h_first
  obtain rfl := enqueue_push h_second
  -- both pointers are one, so the second update replaces the first
  have h_queue : Function.update (Function.update p.queues p.consumingQueue
      ((p.queues p.consumingQueue).push (copied m))) p.ptrQueue
      (((p.queues p.consumingQueue).push (copied m)).push (copied m)) p.consumingQueue =
        ((p.queues p.consumingQueue).push (copied m)).push (copied m) := by
    rw [h_mapped, Function.update_self]
  have h_shape' := (h_shape.queuePush (copied m)).queuePush (copied m)
  rw [← h_queue] at h_shape'
  exact ⟨⟨rfl, h_mapped, h_shape'⟩, h_queue⟩

/-- A message whose length fits an `int` can be sent. -/
theorem sendMessage_fitting {p : Process (Queue Slot) φ} {ptr : QueuePtr} {m : CStr}
    (h : Shared p ptr) (h_copy : copySize m.length = m.length + 1) :
    ∃ r, sendMessage p m.ptr Malloc.succeeds Malloc.succeeds = .ok r := by
  obtain ⟨rfl, h_mapped, h_shape⟩ := h
  obtain ⟨out₁, h_first⟩ := enqueue_fitting h_shape h_copy
  obtain ⟨out₂, h_second⟩ := enqueue_fitting (h_shape.queuePush (copied m)) h_copy
  have h_second' : enqueue (Function.update p.queues p.consumingQueue
      ((p.queues p.consumingQueue).push (copied m)) p.ptrQueue) m.ptr Malloc.succeeds =
        .ok (((p.queues p.consumingQueue).push (copied m)).push (copied m), out₂) := by
    rw [h_mapped, Function.update_self, h_second]
  exact ⟨_, (sendMessage_ok CharPtr.noConfusion).mpr
    ⟨_, out₁, _, out₂, h_first, h_second', rfl, rfl⟩⟩

/-- A message that was sent while there was room has a length that fits. -/
theorem copySize_le_of_sendMessage {p : Process (Queue Slot) φ} {ptr : QueuePtr} {m : CStr}
    {r : Process (Queue Slot) φ × List Output} (h : Shared p ptr)
    (h_room : 0 < (p.queues ptr).room)
    (h_send : sendMessage p m.ptr Malloc.succeeds Malloc.succeeds = .ok r) :
    copySize m.length ≤ m.length + 1 := by
  obtain ⟨q₁, out₁, q₂, out₂, h_enqueue, -, -, -⟩ :=
    (sendMessage_ok CharPtr.noConfusion).mp h_send
  rw [h.consuming] at h_enqueue
  obtain ⟨rear, h_rear, h_full | ⟨-, len, q, h_len, -, h_null | h_stored⟩⟩ :=
    enqueue_ok_cases h_enqueue
  -- the queue is not full, and there is memory: the `memcpy` was inside the message
  · obtain rfl : (p.queues ptr).rear = rear := Except.ok.inj h_rear
    have h_max := h_full.1
    unfold Queue.room at h_room
    omega
  · cases h_null.1
  · obtain rfl : m.length = len := Except.ok.inj ((strlen_ptr m).symm.trans h_len)
    exact (readable_ptr m _).mp h_stored.2.1

/-- A run of `sendMessage` pushes every message twice. -/
theorem sendMessages_ok {p p' : Process (Queue Slot) φ} {ptr : QueuePtr} {ms : List CStr}
    (h : Shared p ptr) (h_send : sendMessages p ms = .ok p') :
    Shared p' ptr ∧ p'.queues ptr = (twice ms).foldl Queue.push (p.queues ptr) := by
  induction ms generalizing p with
  | nil =>
    cases h_send
    exact ⟨h, rfl⟩
  | cons m ms ih =>
    obtain ⟨⟨p₁, out⟩, h_first, h_rest⟩ := bind_eq_ok.mp h_send
    obtain ⟨h₁, h_queue⟩ := sendMessage_shared h h_first
    obtain ⟨h', h_rest'⟩ := ih h₁ h_rest
    exact ⟨h', by rw [h_rest', h_queue]; rfl⟩

theorem sendMessages_fitting {p : Process (Queue Slot) φ} {ptr : QueuePtr} {ms : List CStr}
    (h : Shared p ptr) (h_copy : ∀ m ∈ ms, copySize m.length = m.length + 1) :
    ∃ p', sendMessages p ms = .ok p' := by
  induction ms generalizing p with
  | nil => exact ⟨p, rfl⟩
  | cons m ms ih =>
    obtain ⟨h_m, h_ms⟩ := List.forall_mem_cons.mp h_copy
    obtain ⟨⟨p₁, out⟩, h_first⟩ := sendMessage_fitting h h_m
    obtain ⟨p', h_rest⟩ := ih (sendMessage_shared h h_first).1 h_ms
    exact ⟨p', bind_eq_ok.mpr ⟨(p₁, out), h_first, h_rest⟩⟩

/-! ### Once each -/

/-- **Every message is stored exactly once**: the calls complete, and the contents of the queue
behind `qmmap->ptr_queue` are extended by the messages, in order. -/
def StoredOnce (p : Process (Queue Slot) φ) (ms : List CStr) : Prop :=
  ∃ p', sendMessages p ms = .ok p' ∧
    (p'.queues p'.ptrQueue).contents = (p.queues p.ptrQueue).contents ++ ms.map held

/-- What is stored of the doubled messages, compared with the messages. -/
theorem take_twice_room_iff {ms : List CStr} {room : ℕ} (h_room : ms.length ≤ room) :
    (twice ms).take room = ms.map held ↔
      ms = [] ∨ (ms.length = room ∧ (∀ m ∈ ms, ∀ m' ∈ ms, m = m') ∧
        ∀ m ∈ ms, copied m = held m) := by
  constructor
  · intro h
    have h_len := congrArg List.length h
    rw [List.length_take, length_twice, List.length_map] at h_len
    -- by its length the stored part is as long as `ms`, so the room was exactly that
    rcases Nat.eq_zero_or_pos ms.length with h_zero | h_pos
    · exact Or.inl (List.length_eq_zero_iff.mp h_zero)
    · obtain rfl : room = ms.length := by omega
      have h_slots := (take_twice_eq_iff ms).mp h
      have h_copied : copied ms[0] = held ms[0] := by
        simpa [List.getElem?_eq_getElem h_pos] using h_slots 0 h_pos
      -- the slot `i` holds a copy of the message `i / 2`, which is the first by induction
      have h_first : ∀ i (hi : i < ms.length), ms[i] = ms[0] := by
        intro i
        induction i using Nat.strong_induction_on with
        | _ i ih =>
          intro hi
          rcases Nat.eq_zero_or_pos i with rfl | h_i
          · rfl
          · have h_half : i / 2 < ms.length := by omega
            have h_slot := h_slots i hi
            rw [List.getElem?_eq_getElem hi, List.getElem?_eq_getElem h_half,
              ih (i / 2) (by omega) h_half] at h_slot
            exact held_injective ((Option.some.inj h_slot).symm.trans h_copied)
      -- all messages are the first one, and the first one was copied in full
      refine Or.inr ⟨rfl, fun m hm m' hm' => ?_, fun m hm => ?_⟩
      · obtain ⟨i, hi, rfl⟩ := List.getElem_of_mem hm
        obtain ⟨j, hj, rfl⟩ := List.getElem_of_mem hm'
        rw [h_first i hi, h_first j hj]
      · obtain ⟨i, hi, rfl⟩ := List.getElem_of_mem hm
        rw [h_first i hi, h_copied]
  · rintro (rfl | ⟨rfl, h_same, h_copied⟩)
    · exact List.take_nil
    · refine (take_twice_eq_iff ms).mpr ?_
      intro i hi
      have h_half : i / 2 < ms.length := by omega
      rw [List.getElem?_eq_getElem hi, List.getElem?_eq_getElem h_half, Option.map_some,
        Option.map_some, h_same _ (List.getElem_mem h_half) _ (List.getElem_mem hi),
        h_copied _ (List.getElem_mem hi)]

theorem Shared.storedOnce_iff_last_slots {p : Process (Queue Slot) φ} {ptr : QueuePtr}
    {ms : List CStr} (h : Shared p ptr) (h_room : (p.queues ptr).rear + ms.length ≤ maxSize) :
    StoredOnce p ms ↔
      ms = [] ∨ ((p.queues ptr).rear + ms.length = maxSize ∧ (∀ m ∈ ms, ∀ m' ∈ ms, m = m') ∧
        ∀ m ∈ ms, copySize m.length = m.length + 1) := by
  have h_le : ms.length ≤ (p.queues ptr).room := by unfold Queue.room; omega
  have h_exact : ms.length = (p.queues ptr).room ↔ (p.queues ptr).rear + ms.length = maxSize := by
    unfold Queue.room
    have := h.shape.rear_le
    omega
  constructor
  · rintro ⟨p', h_send, h_contents⟩
    -- both queues of a process are one, so each message is pushed twice
    obtain ⟨h', h_queue⟩ := sendMessages_ok h h_send
    rw [h'.mapped, h.mapped, h_queue, contents_pushes h.shape] at h_contents
    rcases (take_twice_room_iff h_le).mp (List.append_cancel_left h_contents) with
      h_nil | ⟨h_len, h_same, h_copied⟩
    · exact Or.inl h_nil
    · -- the first message was sent while there was room, and the others are the same
      refine Or.inr ⟨h_exact.mp h_len, h_same, ?_⟩
      intro m hm
      refine le_antisymm ?_ (le_copySize_of_copied (h_copied m hm))
      cases ms with
      | nil => cases hm
      | cons m₀ ms =>
        obtain ⟨r, h_first, -⟩ := bind_eq_ok.mp h_send
        obtain rfl : m₀ = m := h_same _ List.mem_cons_self _ hm
        refine copySize_le_of_sendMessage h ?_ h_first
        rw [List.length_cons] at h_len
        omega
  · rintro (rfl | ⟨h_len, h_same, h_copy⟩)
    · exact ⟨p, rfl, by rw [List.map_nil, List.append_nil]⟩
    · obtain ⟨p', h_send⟩ := sendMessages_fitting h h_copy
      obtain ⟨h', h_queue⟩ := sendMessages_ok h h_send
      refine ⟨p', h_send, ?_⟩
      rw [h'.mapped, h.mapped, h_queue, contents_pushes h.shape]
      congr 1
      exact (take_twice_room_iff h_le).mpr (Or.inr ⟨h_exact.mpr h_len, h_same,
        fun m hm => copied_eq_held (h_copy m hm)⟩)

/-- **When every message is stored exactly once.** After the new-file branch, with enough free
slots for the messages and memory for them all: when there are no messages, or when the free slots
are exactly as many as the messages, so that half of the copies are turned down, and the messages
are all the same, of a length that fits an `int`. -/
theorem storedOnce_iff {p : Process (Queue Slot) φ} {ptr : QueuePtr} {ms : List CStr}
    (h_new : Kernel.size (Kernel.openFile p.world) = 0)
    (h_shape : Shape ((configurationQueueMmapPrivate p ptr).queues ptr))
    (h_room : ((configurationQueueMmapPrivate p ptr).queues ptr).rear + ms.length ≤ maxSize) :
    StoredOnce (configurationQueueMmapPrivate p ptr) ms ↔
      ms = [] ∨
        (((configurationQueueMmapPrivate p ptr).queues ptr).rear + ms.length = maxSize ∧
          (∀ m ∈ ms, ∀ m' ∈ ms, m = m') ∧ ∀ m ∈ ms, copySize m.length = m.length + 1) := by
  have h_shared : Shared (configurationQueueMmapPrivate p ptr) ptr := by
    have h_config := configurationQueueMmapPrivate_new ptr h_new
    exact ⟨by rw [h_config], by rw [h_config], h_shape⟩
  exact h_shared.storedOnce_iff_last_slots h_room

end Runs

/-! ### One message -/

/-- A bridge file without messages, by its size. -/
structure EmptyFile where
  size : ℕ

/-- The file system on such a file: its bytes are zero, and so are those of a mapping. -/
instance : Kernel EmptyFile (Queue Slot) where
  openFile f := f
  size f := f.size
  ftruncate _ n := ⟨n⟩
  mmap _ _ _ _ := ⟨fun _ => .null, 0, 0⟩
  msync f _ _ _ := f
  semWait f := f
  semClose f := f

/-- An instance whose queue has passed `n` messages on, before its bridge file exists. -/
def passedOn (n : ℕ) : Process (Queue Slot) EmptyFile where
  queues _ := ⟨fun _ => .uninit, n - 1, n⟩
  consumingQueue := .heap 0
  ptrQueue := .heap 0
  world := ⟨0⟩

theorem storedOnce_last_slot :
    StoredOnce (configurationQueueMmapPrivate (passedOn 40559) (.heap 0)) [dot] :=
  (storedOnce_iff rfl ⟨by decide, by decide, by decide, by decide⟩ (by decide)).mpr
    (Or.inr ⟨by decide, by simp, by simp [dot, CStr.length, copySize_of_lt]⟩)

/-- With two free slots the message is stored in both. -/
theorem message_stored_twice :
    (∃ p', sendMessages (configurationQueueMmapPrivate (passedOn 1) (.heap 0)) [dot] = .ok p' ∧
      (p'.queues p'.ptrQueue).contents = [held dot, held dot]) ∧
    ¬ StoredOnce (configurationQueueMmapPrivate (passedOn 1) (.heap 0)) [dot] := by
  have h : Shared (configurationQueueMmapPrivate (passedOn 1) (.heap 0)) (.heap 0) :=
    ⟨rfl, rfl, ⟨by decide, by decide, by decide, by decide⟩⟩
  have h_copy : copySize dot.length = dot.length + 1 := copySize_of_lt (by decide)
  obtain ⟨p', h_send⟩ := sendMessages_fitting h (List.forall_mem_singleton.mpr h_copy)
  obtain ⟨h', h_queue⟩ := sendMessages_ok h h_send
  constructor
  · refine ⟨p', h_send, ?_⟩
    rw [h'.mapped, h_queue, contents_pushes h.shape, ← copied_eq_held h_copy]
    rfl
  · rw [h.storedOnce_iff_last_slots (by decide)]
    rintro (h_nil | ⟨h_len, -⟩)
    · cases h_nil
    · exact absurd h_len (by decide)

end Backend
end WateRMQ
