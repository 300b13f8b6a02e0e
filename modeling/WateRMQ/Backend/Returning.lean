import WateRMQ.Backend.Bridge

/-!
# When `sendMessage` comes back

A call of `sendMessage` does not come back when one of its two `enqueue` finds room and cannot read
its argument, or cannot write its queue. `Usable` says what the memory has to be like for this to
be all: its instances are the structure itself (`Queue.usable`) and the bytes (`Region.usable`),
where a mapping of the bridge file may be read-only.

* `Usable.enqueue_returns` — when an `enqueue` comes back, and what it leaves (`Usable.of_enqueue`);
* `Usable.sendMessage_returns` — when a call of `sendMessage` comes back, read off the two queues
  as they are before the call, and what it leaves (`Usable.of_sendMessage`);
* `holds_configured` — the memory that `configurationQueueMmap_private` makes is such a memory.
-/

namespace WateRMQ
namespace Backend

open CMem QueueAccess

/-! ### Memory that `enqueue` can use -/

/-- In a memory where `I` holds, `rear` can be read; a queue that is `Writable` takes what `enqueue`
stores and stays so, and one that is not takes no item. -/
structure Usable {σ ι : Type} [QueueAccess σ ι] (I Writable : σ → Prop) : Prop where
  loads {q : σ} (hq : I q) : ∃ rear, getRear q = .ok rear
  takes {q : σ} {rear : ℤ} (hq : I q) (hw : Writable q) (h_rear : getRear q = .ok rear)
    (h_room : rear ≠ maxSize) (x : ι) :
    ∃ q₁ front q₂, setItem q rear x = .ok q₁ ∧ getFront q₁ = .ok front ∧
      setRear q₁ (rear + 1) = .ok q₂ ∧ (I q₁ ∧ Writable q₁ ∧ getRear q₁ = .ok rear) ∧
      I q₂ ∧ Writable q₂
  refuses {q q₁ : σ} {rear : ℤ} {x : ι} (hq : I q) (hw : ¬ Writable q)
    (h_rear : getRear q = .ok rear) (h_room : rear ≠ maxSize) : setItem q rear x ≠ .ok q₁

/-- The structure is always writable. -/
theorem Queue.usable {ι : Type} : Usable (Shape (ι := ι)) fun _ => True where
  loads {q} _ := ⟨q.rear, rfl⟩
  takes {q rear} hq _ h_rear h_room x := by
    obtain rfl : q.rear = rear := Except.ok.inj h_rear
    refine ⟨_, q.front, _, Queue.setItem_eq q (hq.rear_inArray h_room) x, rfl,
      Queue.setRear_eq _ (hq.rear_inInt h_room), ⟨?_, trivial, rfl⟩, hq.push h_room x, trivial⟩
    exact ⟨hq.front_ge, hq.front_le, hq.rear_ge, hq.rear_le⟩
  refuses _ hw := absurd trivial hw

/-- A range of memory whose pages hold a whole structure: a mapping that is read-only, with any
contents, or a block of the heap with a queue within its bounds. -/
structure Region.Paged (r : Region) : Prop where
  size_le : sizeofQueue ≤ pageEnd r.length
  heap : r.writable = true → HeapQueue r

theorem Region.usable : Usable Region.Paged fun r => r.writable = true where
  loads hq := ⟨_, Region.getRear_eq hq.size_le⟩
  takes {r rear} hq hw h_rear h_room x := by
    have h_heap := hq.heap hw
    obtain rfl : r.view.rear = rear :=
      Except.ok.inj ((Region.getRear_eq hq.size_le).symm.trans h_rear)
    -- the slot and then `rear`, both inside the structure
    obtain ⟨r₁, h_store⟩ := Region.setItem_succeeds h_heap.size_le hw
      (h_heap.shape.rear_inArray h_room) x
    have h_frame₁ := (Region.frame_keeps r).setItem (.refl r) h_store
    have h_size₁ : sizeofQueue ≤ r₁.length := h_frame₁.length ▸ h_heap.size_le
    have h_writable₁ := h_frame₁.writable.trans hw
    obtain ⟨-, h_view₁⟩ := Queue.setItem_ok (Region.view_setItem h_store)
    obtain ⟨r₂, h_advance⟩ := Region.setRear_succeeds h_size₁ h_writable₁
      (h_heap.shape.rear_inInt h_room)
    have h_frame₂ := (Region.frame_keeps r).setRear h_frame₁ h_advance
    have h_size₂ : sizeofQueue ≤ r₂.length := h_frame₂.length ▸ h_heap.size_le
    have h_writable₂ := h_frame₂.writable.trans hw
    have h_view₂ := Queue.setRear_ok (Region.view_setRear h_advance)
    have h_shape₁ : Shape r₁.view := by
      rw [h_view₁]
      exact ⟨h_heap.shape.front_ge, h_heap.shape.front_le, h_heap.shape.rear_ge,
        h_heap.shape.rear_le⟩
    have h_shape₂ : Shape r₂.view := by
      rw [h_view₂, h_view₁]
      exact h_heap.shape.push h_room x
    have h_rear₁ : getRear r₁ = .ok r.view.rear := by
      rw [Region.getRear_eq (h_size₁.trans (le_pageEnd _)), h_view₁]
    have h_end₁ := h_size₁.trans (le_pageEnd _)
    exact ⟨r₁, _, r₂, h_store, Region.getFront_eq h_end₁, h_advance,
      ⟨⟨h_end₁, fun _ => ⟨h_size₁, h_writable₁, h_shape₁⟩⟩, h_writable₁, h_rear₁⟩,
      ⟨h_size₂.trans (le_pageEnd _), fun _ => ⟨h_size₂, h_writable₂, h_shape₂⟩⟩, h_writable₂⟩
  refuses _ hw _ _ h_store := hw (Region.write_ok (Region.setItem_ok h_store).2).1

/-! ### One `enqueue` -/

/-- `enqueue` gets through its argument: it has a length, and the bytes that are copied can be read
when there is memory for them. -/
def Copies {ι : Type} [CPointer ι] (message : CharPtr) (malloc : Malloc ι) : Prop :=
  ∃ len, strlen message = .ok len ∧
    (malloc (copySize len) (message.take (copySize len)) = CPointer.null ∨
      message.Readable (copySize len))

theorem not_copies_of_strlen_error {ι : Type} [CPointer ι] {message : CharPtr} {malloc : Malloc ι}
    {f : Fault} (h : strlen message = .error f) : ¬ Copies message malloc := by
  rintro ⟨len, h_len, -⟩
  cases h.symm.trans h_len

namespace Usable

variable {σ ι : Type} [QueueAccess σ ι] [LawfulQueueAccess σ ι] [CPointer ι] [DecidableEq ι]
  {I Writable : σ → Prop} {q : σ} {message : CharPtr} {malloc : Malloc ι}

/-- **When an `enqueue` comes back**: on a full queue, and on a writable one with an argument that
it gets through. -/
theorem enqueue_returns (h : Usable I Writable) (hq : I q) :
    (∃ r, enqueue q message malloc = .ok r) ↔
      isFull q = .ok true ∨ Writable q ∧ Copies message malloc := by
  constructor
  · rintro ⟨⟨q', out⟩, h_enqueue⟩
    obtain ⟨rear, h_rear, ⟨h_max, -⟩ | ⟨h_room, len, q₁, h_len, h_store, h_rest⟩⟩ :=
      enqueue_ok_cases h_enqueue
    · exact Or.inl (by rw [isFull_eq_ok h_rear, decide_eq_true h_max])
    · refine Or.inr ⟨?_, len, h_len, h_rest.imp (·.1) (·.2.1)⟩
      by_contra hw
      exact h.refuses hq hw h_rear h_room h_store
  · rintro (h_full | ⟨hw, len, h_len, h_copy⟩)
    · obtain ⟨rear, h_rear, h_full⟩ := bind_eq_ok.mp h_full
      have h_max : rear = maxSize := of_decide_eq_true (Except.ok.inj h_full)
      exact ⟨_, enqueue_of_isFull (h_max ▸ h_rear) _ _⟩
    · obtain ⟨rear, h_rear⟩ := h.loads hq
      by_cases h_max : rear = maxSize
      · exact ⟨_, enqueue_of_isFull (h_max ▸ h_rear) _ _⟩
      · obtain ⟨q₁, front, q₂, h_store, h_front, h_advance, -⟩ := h.takes hq hw h_rear h_max
          (malloc (copySize len) (message.take (copySize len)))
        rw [enqueue_of_room h_len h_rear h_max rfl h_store h_front h_advance]
        split
        · exact ⟨_, rfl⟩
        next h_found => exact ⟨_, if_pos (h_copy.resolve_left h_found)⟩

/-- **What an `enqueue` leaves.** A full queue stays full; one that it fills is writable, and has
taken an argument that any other `enqueue` gets through as well. -/
theorem of_enqueue (h : Usable I Writable) (hq : I q) {q' : σ} {out : List Output}
    (h_enqueue : enqueue q message malloc = .ok (q', out)) :
    I q' ∧ (Writable q' ↔ Writable q) ∧ (isFull q = .ok true → isFull q' = .ok true) ∧
      (isFull q' = .ok true →
        isFull q = .ok true ∨ Writable q ∧ ∀ malloc₂ : Malloc ι, Copies message malloc₂) := by
  obtain ⟨rear, h_rear, ⟨h_max, rfl, -⟩ | ⟨h_room, len, q₁, h_len, h_store, h_rest⟩⟩ :=
    enqueue_ok_cases h_enqueue
  · exact ⟨hq, Iff.rfl, id, Or.inl⟩
  · have hw : Writable q := by
      by_contra hw
      exact h.refuses hq hw h_rear h_room h_store
    have h_not_full : isFull q = .ok false := by rw [isFull_eq_ok h_rear, decide_eq_false h_room]
    obtain ⟨q₁', front, q₂, h_store', -, h_advance, ⟨h_I₁, h_w₁, h_rear₁⟩, h_I₂, h_w₂⟩ :=
      h.takes hq hw h_rear h_room (malloc (copySize len) (message.take (copySize len)))
    obtain rfl : q₁ = q₁' := Except.ok.inj (h_store.symm.trans h_store')
    rcases h_rest with ⟨-, rfl, -⟩ | ⟨-, h_read, h_advance', -⟩
    · -- without memory the queue has the room that it had
      refine ⟨h_I₁, iff_of_true h_w₁ hw, fun h_full => ?_, fun h_full => ?_⟩
      · cases h_not_full.symm.trans h_full
      · rw [isFull_eq_ok h_rear₁, decide_eq_false h_room] at h_full
        cases h_full
    · obtain rfl : q₂ = q' := Except.ok.inj (h_advance.symm.trans h_advance')
      refine ⟨h_I₂, iff_of_true h_w₂ hw, fun h_full => ?_, fun _ => Or.inr ⟨hw, fun malloc₂ => ?_⟩⟩
      · cases h_not_full.symm.trans h_full
      · exact ⟨len, h_len, Or.inr h_read⟩

end Usable

/-! ### A call of `sendMessage` -/

section Sending

variable {σ φ ι : Type} [QueueAccess σ ι] [CPointer ι] [DecidableEq ι]

/-- What the first half of `sendMessage` leaves behind `consumingQueue`: the null pointer is turned
down, and any other message is enqueued. -/
def Process.FirstLeaves (p : Process σ φ) (message : CharPtr) (malloc : Malloc ι) (q₁ : σ) : Prop :=
  (message = .null ∧ q₁ = p.queues p.consumingQueue) ∨
    (message ≠ .null ∧ ∃ out, enqueue (p.queues p.consumingQueue) message malloc = .ok (q₁, out))

/-- Both queues of the process are as `I` says. -/
structure Process.Holds (I : σ → Prop) (p : Process σ φ) : Prop where
  consuming : I (p.queues p.consumingQueue)
  mapped : I (p.queues p.ptrQueue)

/-- **A call of `sendMessage` comes back**, said of the process before the call: for each of the two
`enqueue` the queue is full, or it is writable and the `enqueue` gets through the message; the first
one does not see the null pointer. -/
def Process.SendReturns (Writable : σ → Prop) (p : Process σ φ) (message : CharPtr)
    (malloc₁ malloc₂ : Malloc ι) : Prop :=
  (message = .null ∨ isFull (p.queues p.consumingQueue) = .ok true ∨
      Writable (p.queues p.consumingQueue) ∧ Copies message malloc₁) ∧
    (isFull (p.queues p.ptrQueue) = .ok true ∨
      Writable (p.queues p.ptrQueue) ∧ Copies message malloc₂)

variable [Kernel φ σ]

/-- `sendMessage` on any message, the null pointer included. -/
theorem sendMessage_ok_iff {p p' : Process σ φ} {message : CharPtr} {malloc₁ malloc₂ : Malloc ι} :
    (∃ out, sendMessage p message malloc₁ malloc₂ = .ok (p', out)) ↔
      ∃ q₁ q₂ out₂, p.FirstLeaves message malloc₁ q₁ ∧
        enqueue (Function.update p.queues p.consumingQueue q₁ p.ptrQueue) message malloc₂ =
          .ok (q₂, out₂) ∧
        p' =
          { queues :=
              Function.update (Function.update p.queues p.consumingQueue q₁) p.ptrQueue q₂
            consumingQueue := p.consumingQueue
            ptrQueue := p.ptrQueue
            world :=
              Kernel.semClose
                (Kernel.msync (Kernel.semWait p.world) p.ptrQueue q₂ sizeofQueue) } := by
  by_cases h_null : message = .null
  · subst h_null
    constructor
    · rintro ⟨out, h⟩
      -- nothing was done before the second `enqueue`
      obtain ⟨⟨ret, p₁, out₁⟩, h_add, h⟩ := bind_eq_ok.mp h
      rw [addMessageInQueuePrivate, if_pos rfl] at h_add
      cases h_add
      obtain ⟨⟨p₂, out₂⟩, h_enqueue, h⟩ := bind_eq_ok.mp h
      obtain ⟨q₂, h_second, rfl⟩ := Process.enqueueAt_ok.mp h_enqueue
      cases h
      refine ⟨_, q₂, out₂, Or.inl ⟨rfl, rfl⟩, ?_, ?_⟩
      · rw [Function.update_eq_self]
        exact h_second
      · dsimp only
        rw [Function.update_eq_self, Function.update_self]
    · rintro ⟨q₁, q₂, out₂, ⟨-, rfl⟩ | ⟨h_null, -⟩, h_second, rfl⟩
      · rw [Function.update_eq_self] at h_second ⊢
        refine ⟨[] ++ out₂, bind_eq_ok.mpr ⟨(-1, _, []), if_pos rfl, ?_⟩⟩
        refine bind_eq_ok.mpr ⟨(_, out₂), Process.enqueueAt_ok.mpr ⟨q₂, h_second, rfl⟩, ?_⟩
        dsimp only
        rw [Function.update_self]
        rfl
      · exact absurd rfl h_null
  · constructor
    · rintro ⟨out, h⟩
      obtain ⟨q₁, out₁, q₂, out₂, h_first, h_second, h_p', -⟩ := (sendMessage_ok h_null).mp h
      exact ⟨q₁, q₂, out₂, Or.inr ⟨h_null, out₁, h_first⟩, h_second, h_p'⟩
    · rintro ⟨q₁, q₂, out₂, ⟨h_eq, -⟩ | ⟨-, out₁, h_first⟩, h_second, h_p'⟩
      · exact absurd h_eq h_null
      · exact ⟨_, (sendMessage_ok h_null).mpr ⟨q₁, out₁, q₂, out₂, h_first, h_second, h_p', rfl⟩⟩

namespace Usable

variable [LawfulQueueAccess σ ι] {I Writable : σ → Prop} {p p' : Process σ φ} {message : CharPtr}
  {malloc₁ malloc₂ : Malloc ι}

omit [Kernel φ σ] in
/-- The objects after the first half: the one behind `consumingQueue`, and the one behind
`ptr_queue`, which is the same or was not touched. -/
theorem second_queue (h : Usable I Writable) (hp : p.Holds I) {q₁ : σ}
    (h_first : p.FirstLeaves message malloc₁ q₁) :
    I q₁ ∧ (isFull (p.queues p.consumingQueue) = .ok true → isFull q₁ = .ok true) ∧
      I (Function.update p.queues p.consumingQueue q₁ p.ptrQueue) ∧
      (Writable (Function.update p.queues p.consumingQueue q₁ p.ptrQueue) ↔
        Writable (p.queues p.ptrQueue)) ∧
      (isFull (p.queues p.ptrQueue) = .ok true →
        isFull (Function.update p.queues p.consumingQueue q₁ p.ptrQueue) = .ok true) ∧
      (isFull (Function.update p.queues p.consumingQueue q₁ p.ptrQueue) = .ok true →
        isFull (p.queues p.ptrQueue) = .ok true ∨
          Writable (p.queues p.ptrQueue) ∧ ∀ malloc : Malloc ι, Copies message malloc) := by
  rcases h_first with ⟨-, rfl⟩ | ⟨-, out, h_enqueue⟩
  · rw [Function.update_eq_self]
    exact ⟨hp.consuming, id, hp.mapped, Iff.rfl, id, Or.inl⟩
  · have h_left := h.of_enqueue hp.consuming h_enqueue
    refine ⟨h_left.1, h_left.2.2.1, ?_⟩
    -- one object behind both pointers, or two
    by_cases h_eq : p.ptrQueue = p.consumingQueue
    · rw [h_eq, Function.update_self]
      exact h_left
    · rw [Function.update_of_ne h_eq]
      exact ⟨hp.mapped, Iff.rfl, id, Or.inl⟩

/-- **When a call of `sendMessage` comes back.** -/
theorem sendMessage_returns (h : Usable I Writable) (hp : p.Holds I) :
    (∃ r, sendMessage p message malloc₁ malloc₂ = .ok r) ↔
      p.SendReturns Writable message malloc₁ malloc₂ := by
  constructor
  · rintro ⟨⟨p', out⟩, h_send⟩
    obtain ⟨q₁, q₂, out₂, h_first, h_second, -⟩ := sendMessage_ok_iff.mp ⟨out, h_send⟩
    obtain ⟨-, -, h_I, h_w, -, h_full⟩ := h.second_queue hp h_first
    refine ⟨?_, ?_⟩
    · rcases h_first with ⟨h_null, -⟩ | ⟨-, out₁, h_enqueue⟩
      · exact Or.inl h_null
      · exact Or.inr ((h.enqueue_returns hp.consuming).mp ⟨_, h_enqueue⟩)
    · rcases (h.enqueue_returns h_I).mp ⟨_, h_second⟩ with h_now | ⟨h_writable, h_copies⟩
      · -- full when the second `enqueue` comes to it: before the call, or by the first one
        exact (h_full h_now).imp id fun h_filled => ⟨h_filled.1, h_filled.2 malloc₂⟩
      · exact Or.inr ⟨h_w.mp h_writable, h_copies⟩
  · rintro ⟨h_consuming, h_mapped⟩
    have h_first : ∃ q₁, p.FirstLeaves message malloc₁ q₁ := by
      by_cases h_null : message = .null
      · exact ⟨_, Or.inl ⟨h_null, rfl⟩⟩
      · obtain ⟨⟨q₁, out₁⟩, h_enqueue⟩ :=
          (h.enqueue_returns hp.consuming).mpr (h_consuming.resolve_left h_null)
        exact ⟨q₁, Or.inr ⟨h_null, out₁, h_enqueue⟩⟩
    obtain ⟨q₁, h_first⟩ := h_first
    obtain ⟨-, -, h_I, h_w, h_stays, -⟩ := h.second_queue hp h_first
    obtain ⟨⟨q₂, out₂⟩, h_second⟩ := (h.enqueue_returns h_I).mpr
      (h_mapped.imp h_stays fun h_both => ⟨h_w.mpr h_both.1, h_both.2⟩)
    obtain ⟨out, h_send⟩ := sendMessage_ok_iff.mpr ⟨q₁, q₂, out₂, h_first, h_second, rfl⟩
    exact ⟨_, h_send⟩

/-- **What a call of `sendMessage` leaves**: both queues usable, and a full one full. -/
theorem of_sendMessage (h : Usable I Writable) (hp : p.Holds I) {out : List Output}
    (h_send : sendMessage p message malloc₁ malloc₂ = .ok (p', out)) :
    p'.Holds I ∧
      (isFull (p.queues p.consumingQueue) = .ok true →
        isFull (p'.queues p'.consumingQueue) = .ok true) ∧
      (isFull (p.queues p.ptrQueue) = .ok true → isFull (p'.queues p'.ptrQueue) = .ok true) := by
  obtain ⟨q₁, q₂, out₂, h_first, h_second, rfl⟩ := sendMessage_ok_iff.mp ⟨out, h_send⟩
  obtain ⟨h_q₁, h_full₁, h_I, -, h_stays, -⟩ := h.second_queue hp h_first
  obtain ⟨h_q₂, -, h_full₂, -⟩ := h.of_enqueue h_I h_second
  -- one object behind both pointers, or two
  by_cases h_eq : p.consumingQueue = p.ptrQueue
  · rw [h_eq, Function.update_self] at h_full₂
    rw [h_eq] at h_full₁
    refine ⟨⟨?_, ?_⟩, ?_, ?_⟩ <;> simp only [h_eq, Function.update_self]
    · exact h_q₂
    · exact h_q₂
    · exact fun h_before => h_full₂ (h_full₁ h_before)
    · exact fun h_before => h_full₂ (h_full₁ h_before)
  · refine ⟨⟨?_, ?_⟩, ?_, ?_⟩ <;> simp only [Function.update_of_ne h_eq, Function.update_self]
    · exact h_q₁
    · exact h_q₂
    · exact h_full₁
    · exact fun h_before => h_full₂ (h_stays h_before)

end Usable

end Sending

/-- After `configurationQueueMmap_private` both queues can be read: on a new file they are one queue
of the heap, and on an existing one whose pages hold a structure the second is its mapping. -/
theorem holds_configured {p : Process Region BridgeFile} {k n : ℕ}
    (h_arg : HeapQueue (p.queues (.heap k))) (h_consuming : p.consumingQueue = .heap n)
    (h_heap : HeapQueue (p.queues (.heap n)))
    (h_file : p.world.bytes ≠ [] → sizeofQueue ≤ pageEnd p.world.bytes.length) :
    (configurationQueueMmapPrivate p (.heap k)).Holds Region.Paged := by
  have h_paged : ∀ {r : Region}, HeapQueue r → r.Paged :=
    fun h => ⟨h.size_le.trans (le_pageEnd _), fun _ => h⟩
  have h_ne : ∀ i, QueuePtr.heap i ≠ .bridge := fun _ => QueuePtr.noConfusion
  by_cases h_size : Kernel.size (Kernel.openFile p.world) = 0
  · rw [configurationQueueMmapPrivate_new _ h_size]
    constructor <;> simp only [Function.update_of_ne (h_ne _)]
    · exact h_paged h_arg
    · exact h_paged h_arg
  · rw [configurationQueueMmapPrivate_existing _ h_size]
    constructor <;>
      simp only [h_consuming, Function.update_of_ne (h_ne _), Function.update_self]
    · exact h_paged h_heap
    · -- the mapping is read-only
      refine ⟨h_file fun h_nil => h_size ?_, nofun⟩
      change p.world.bytes.length = 0
      rw [h_nil, List.length_nil]

end Backend
end WateRMQ
