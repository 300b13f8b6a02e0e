import WateRMQ.Lib.Run
import WateRMQ.Backend.Layout
import WateRMQ.Frontend.Queue

/-!
# One block, two declarations

The backend and the frontend each declare a `Queue`, with arrays of different dimension and with a
`count` on one side only. `frontendView` reads a block of bytes at the frontend's offsets,
`Region.view` at the backend's. The block starts zeroed and the backend alone works on it.

`views_agree_iff`: in the states of a run the two ends see the same queue exactly when no `enqueue`
of the run finds memory for its message. The backend stores nothing behind its own structure
(`Region.frame_keeps`), and the frontend's `front`, `rear` and `count` all lie there: the frontend
sees an empty queue for ever.
-/

namespace WateRMQ

open CMem Runs Backend QueueAccess

/-- The offset of the frontend's `front`. -/
@[irreducible] def frontendFrontOffset : ℕ := 8 * Frontend.maxSize.toNat

/-- The offset of the frontend's `rear`. -/
@[irreducible] def frontendRearOffset : ℕ := frontendFrontOffset + 4

/-- The offset of the frontend's `count`. -/
@[irreducible] def frontendCountOffset : ℕ := frontendRearOffset + 4

/-- The frontend's `sizeof(Queue)`: three `int`s behind the array, and the padding that the
pointers ask for. -/
@[irreducible] def frontendSizeofQueue : ℕ := frontendCountOffset + 8

theorem frontendCountOffset_eq : frontendCountOffset = 327688 := by
  unfold frontendCountOffset frontendRearOffset frontendFrontOffset
  rfl

theorem frontendSizeofQueue_eq : frontendSizeofQueue = 327696 := by
  unfold frontendSizeofQueue
  rw [frontendCountOffset_eq]

/-- The bytes as the frontend declares them. -/
def frontendView (m : Bytes) : Frontend.Queue Word where
  items i := if Frontend.InArray i then loadWord m (8 * i.toNat) else 0
  front := loadInt m frontendFrontOffset
  rear := loadInt m frontendRearOffset
  count := loadInt m frontendCountOffset

/-- The shared block, zeroed, with the size that the frontend gives it. -/
def zeroedBlock : Region where
  bytes _ := 0
  length := frontendSizeofQueue
  writable := true
  shared := true
  stores := []

/-- **The two ends see the same queue**: both call it empty or not, both call it full or not, the
frontend's `count` is the number of pending messages, and both peek the same item. -/
structure ViewsAgree (r : Region) : Prop where
  empty : Frontend.isEmpty (frontendView r.bytes) = true ↔ Backend.isEmpty r = .ok true
  full : Frontend.isFull (frontendView r.bytes) = true ↔ Backend.isFull r = .ok true
  count : (frontendView r.bytes).count = r.view.contents.length
  peek : ∀ x, Frontend.peek (frontendView r.bytes) = .ok x ↔ ∃ out, Backend.peek r = .ok (x, out)

/-- An `enqueue` that finds memory for its message. -/
def FindsMemory : Write Word → Prop
  | .enqueue value malloc =>
    malloc (copySize value.length) (value.ptr.take (copySize value.length)) ≠ CPointer.null
  | .dequeue => False

/-! ### Before the first message -/

/-- The queue as `initializeQueue` leaves it, with nothing stored behind the structure. -/
structure Initial (r : Region) : Prop where
  front : r.view.front = -1
  rear : r.view.rear = 0
  frame : Region.Frame zeroedBlock r

/-- The backend never gives the frontend a `count`. -/
theorem frontend_count_eq {r : Region} (h : Region.Frame zeroedBlock r) :
    (frontendView r.bytes).count = 0 := by
  have h_zero : ∀ i, frontendCountOffset ≤ i → i < frontendCountOffset + 4 → r.bytes i = 0 := by
    intro i h_low _
    rw [frontendCountOffset_eq] at h_low
    refine h.behind i ?_
    rw [sizeofQueue_eq]
    omega
  change loadInt r.bytes frontendCountOffset = 0
  exact loadInt_zero h_zero

theorem sizeofQueue_le {r : Region} (h : Region.Frame zeroedBlock r) : sizeofQueue ≤ r.length := by
  rw [h.length, sizeofQueue_eq]
  change 324488 ≤ frontendSizeofQueue
  rw [frontendSizeofQueue_eq]
  decide

theorem frontend_isEmpty_eq {r : Region} (h : Region.Frame zeroedBlock r) :
    Frontend.isEmpty (frontendView r.bytes) = true :=
  decide_eq_true (frontend_count_eq h)

/-- On an empty queue the two ends agree. -/
theorem Initial.viewsAgree {r : Region} (h : Initial r) : ViewsAgree r := by
  have h_size := (sizeofQueue_le h.frame).trans (le_pageEnd _)
  have h_count := frontend_count_eq h.frame
  have h_isEmpty : Backend.isEmpty r = .ok true := by
    rw [isEmpty_eq_ok (Region.getFront_eq h_size) (Region.getRear_eq h_size), h.front, h.rear]
    rfl
  have h_isFull : Backend.isFull r = .ok false := by
    rw [isFull_eq_ok (Region.getRear_eq h_size), h.rear]
    rfl
  have h_peek : Backend.peek r = .ok (0, [.stdout "Queue is empty\n"]) := peek_of_isEmpty h_isEmpty
  -- the frontend finds a `count` of zero, and does not look at `items`
  have h_frontend_peek : Frontend.peek (frontendView r.bytes) = .ok 0 := by
    rw [Frontend.peek, frontend_isEmpty_eq h.frame]
    rfl
  exact
    { empty := iff_of_true (frontend_isEmpty_eq h.frame) h_isEmpty
      full := by
        rw [h_isFull, Frontend.isFull, h_count]
        decide
      count := by
        rw [h_count, Queue.length_contents, h.front, h.rear]
        rfl
      peek := fun x => by
        rw [h_frontend_peek, h_peek]
        constructor
        · rintro h_eq
          cases h_eq
          exact ⟨_, rfl⟩
        · rintro ⟨out, h_eq⟩
          cases h_eq
          rfl }

/-- Without memory for a message nothing happens to `front` and `rear`. -/
theorem Initial.next {r r' : Region} {w : Write Word} (h : Initial r) (h_next : w.next r = some r')
    (h_no : ¬ FindsMemory w) : Initial r' := by
  have h_frame := (Region.frame_keeps zeroedBlock).write h.frame h_next
  -- the same call on the structure behind the bytes
  obtain ⟨out, h_exec⟩ := Write.next_eq_some.mp (Region.view_view.write h_next)
  cases w with
  | enqueue value malloc =>
    obtain ⟨rear, -, ⟨-, h_same, -⟩ | ⟨-, len, q₁, h_len, h_store, h_null | h_stored⟩⟩ :=
      enqueue_ok_cases h_exec
    · exact ⟨h_same ▸ h.front, h_same ▸ h.rear, h_frame⟩
    · obtain ⟨-, h_queue⟩ := Queue.setItem_ok h_store
      obtain ⟨-, h_same, -⟩ := h_null
      rw [h_queue] at h_same
      exact ⟨by rw [h_same]; exact h.front, by rw [h_same]; exact h.rear, h_frame⟩
    · obtain rfl : value.length = len := Except.ok.inj ((strlen_ptr value).symm.trans h_len)
      exact absurd h_stored.1 h_no
  | dequeue =>
    obtain ⟨-, h_same⟩ | ⟨h_pending, -⟩ := dequeue_ok_cases h_exec
    · exact ⟨h_same ▸ h.front, h_same ▸ h.rear, h_frame⟩
    · rw [Queue.isEmpty_eq, h.front, h.rear] at h_pending
      cases h_pending

/-- The first message is pending for the backend, and not there for the frontend. -/
theorem Initial.not_viewsAgree {r r' : Region} {w : Write Word} (h : Initial r)
    (h_next : w.next r = some r') (h_finds : FindsMemory w) : ¬ ViewsAgree r' := by
  intro h_agree
  have h_frame := (Region.frame_keeps zeroedBlock).write h.frame h_next
  have h_isEmpty := Region.view_view.isEmpty (h_agree.empty.mp (frontend_isEmpty_eq h_frame))
  obtain ⟨out, h_exec⟩ := Write.next_eq_some.mp (Region.view_view.write h_next)
  cases w with
  | enqueue value malloc =>
    obtain ⟨rear, h_rear, h_full | ⟨-, len, q₁, h_len, h_store, h_null | h_stored⟩⟩ :=
      enqueue_ok_cases h_exec
    · obtain rfl : r.view.rear = rear := Except.ok.inj h_rear
      exact absurd (h.rear.symm.trans h_full.1) (by decide)
    · obtain rfl : value.length = len := Except.ok.inj ((strlen_ptr value).symm.trans h_len)
      exact h_finds h_null.1
    · obtain rfl : r.view.rear = rear := Except.ok.inj h_rear
      obtain ⟨-, rfl⟩ := Queue.setItem_ok h_store
      -- `rear` is now two ahead of `front`, which is not empty
      have h_queue := Queue.setRear_ok h_stored.2.2.1
      rw [Queue.isEmpty_eq, h_queue] at h_isEmpty
      have h_eq : r.view.front = r.view.rear + 1 - 1 := of_decide_eq_true (Except.ok.inj h_isEmpty)
      rw [h.front, h.rear] at h_eq
      cases h_eq
  | dequeue => exact h_finds

theorem initial_of_initializeQueue {r₀ : Region} (h_init : initializeQueue zeroedBlock = .ok r₀) :
    Initial r₀ := by
  have h_view := Region.view_view.initializeQueue h_init
  rw [Queue.initializeQueue_eq] at h_view
  have h_queue := Except.ok.inj h_view
  exact
    { front := by rw [← h_queue]
      rear := by rw [← h_queue]
      frame := (Region.frame_keeps zeroedBlock).initializeQueue (.refl _) h_init }

/-- **When the two ends see the same queue**: in every state of a run of the backend on the zeroed
block, exactly when no `enqueue` of the run finds memory for its message. -/
theorem views_agree_iff {r₀ r : Region} {ops : List (Write Word)}
    (h_init : initializeQueue zeroedBlock = .ok r₀) (h_run : exec Write.next r₀ ops = some r) :
    (∀ u, Visits Write.next r₀ ops u → ViewsAgree u) ↔ ∀ w ∈ ops, ¬ FindsMemory w :=
  forall_visits_iff (fun _ h => h.viewsAgree) (fun _ _ _ h h_next h_no => h.next h_next h_no)
    (fun _ _ _ h h_next h_finds => h.not_viewsAgree h_next (not_not.mp h_finds))
    (initial_of_initializeQueue h_init) h_run

/-! ### The first runs -/

theorem initializeQueue_zeroedBlock : ∃ r₀, initializeQueue zeroedBlock = .ok r₀ := by
  have h_refl := Region.Frame.refl zeroedBlock
  obtain ⟨r₁, h_front⟩ := Region.setFront_succeeds (sizeofQueue_le h_refl) rfl
    (show InInt (-1) by decide)
  have h_frame := (Region.frame_keeps zeroedBlock).setFront h_refl h_front
  obtain ⟨r₂, h_rear⟩ := Region.setRear_succeeds (sizeofQueue_le h_frame) h_frame.writable
    (show InInt 0 by decide)
  exact ⟨r₂, bind_eq_ok.mpr ⟨r₁, h_front, h_rear⟩⟩

/-- The allocator that gives the block at address `w`. -/
def mallocAt (w : Word) : Malloc Word := fun _ _ => w

/-- The first message, for which `malloc` gives the address `w`. -/
theorem Initial.enqueue_dot {r : Region} (h : Initial r) (w : Word) :
    ∃ r₁ r₂, setItem r r.view.rear w = .ok r₁ ∧ setRear r₁ (r.view.rear + 1) = .ok r₂ ∧
      Write.next r (.enqueue dot (mallocAt w)) = some (if w = CPointer.null then r₁ else r₂) := by
  have h_size := sizeofQueue_le h.frame
  obtain ⟨r₁, h_store⟩ := Region.setItem_succeeds h_size h.frame.writable
    (show Queue.InArray r.view.rear by rw [h.rear]; decide) w
  have h_frame₁ := (Region.frame_keeps zeroedBlock).setItem h.frame h_store
  have h_size₁ := sizeofQueue_le h_frame₁
  obtain ⟨r₂, h_advance⟩ := Region.setRear_succeeds h_size₁ h_frame₁.writable
    (show InInt (r.view.rear + 1) by rw [h.rear]; decide)
  have h_malloc : mallocAt w (copySize dot.length) (dot.ptr.take (copySize dot.length)) = w := rfl
  have h_enqueue := enqueue_ptr dot (Region.getRear_eq (h_size.trans (le_pageEnd _)))
    (by rw [h.rear]; decide) h_malloc h_store
    (Region.getFront_eq (h_size₁.trans (le_pageEnd _))) h_advance
  refine ⟨r₁, r₂, h_store, h_advance, ?_⟩
  by_cases h_w : w = CPointer.null
  · rw [if_pos h_w] at h_enqueue ⊢
    exact Write.next_enqueue h_enqueue
  · rw [if_neg h_w, if_pos (by decide)] at h_enqueue
    rw [if_neg h_w]
    exact Write.next_enqueue h_enqueue

/-- `dequeue` on an empty queue changes nothing. -/
theorem Initial.dequeue {r : Region} (h : Initial r) : Write.next r .dequeue = some r := by
  have h_isEmpty := h.viewsAgree.empty.mp (frontend_isEmpty_eq h.frame)
  exact Write.next_dequeue (dequeue_of_isEmpty h_isEmpty)

/-- A message without memory and a `dequeue`, and a message without memory and one with it. -/
theorem views_agree_in_two_runs :
    ∃ r₀, initializeQueue zeroedBlock = .ok r₀ ∧
      (∃ r, exec Write.next r₀ [.enqueue dot (mallocAt 0), .dequeue] = some r ∧
        ∀ u, Visits Write.next r₀ [.enqueue dot (mallocAt 0), .dequeue] u → ViewsAgree u) ∧
      ∃ r, exec Write.next r₀ [.enqueue dot (mallocAt 0), .enqueue dot (mallocAt 4096)] = some r ∧
        ¬ ∀ u, Visits Write.next r₀ [.enqueue dot (mallocAt 0), .enqueue dot (mallocAt 4096)] u →
          ViewsAgree u := by
  obtain ⟨r₀, h_init⟩ := initializeQueue_zeroedBlock
  have h := initial_of_initializeQueue h_init
  have h_not : ¬ FindsMemory (.enqueue dot (mallocAt 0)) := not_not.mpr rfl
  have h_finds : FindsMemory (.enqueue dot (mallocAt 4096)) := by
    change (4096 : Word) ≠ 0
    decide
  obtain ⟨r₁, _, -, -, h_first⟩ := h.enqueue_dot 0
  rw [if_pos (show (0 : Word) = CPointer.null from rfl)] at h_first
  have h₁ := h.next h_first h_not
  obtain ⟨_, r₂, -, -, h_second⟩ := h₁.enqueue_dot 4096
  rw [if_neg (by decide)] at h_second
  have h_run₁ : exec Write.next r₀ [.enqueue dot (mallocAt 0), .dequeue] = some r₁ := by
    rw [exec_cons, h_first, Option.bind_some, exec_cons, h₁.dequeue]
    rfl
  have h_run₂ : exec Write.next r₀ [.enqueue dot (mallocAt 0), .enqueue dot (mallocAt 4096)] =
      some r₂ := by
    rw [exec_cons, h_first, Option.bind_some, exec_cons, h_second]
    rfl
  refine ⟨r₀, h_init, ⟨r₁, h_run₁, (views_agree_iff h_init h_run₁).mpr ?_⟩, r₂, h_run₂, fun h_all =>
    (views_agree_iff h_init h_run₂).mp h_all _ (.tail _ (.head _)) h_finds⟩
  exact List.forall_mem_cons.mpr ⟨h_not, List.forall_mem_singleton.mpr id⟩

/-- The first message, at address 4096 of the backend's heap: pending for the backend, and unknown
to the frontend. -/
theorem first_message_not_seen :
    ∃ r₀ r, initializeQueue zeroedBlock = .ok r₀ ∧
      exec Write.next r₀ [.enqueue dot (mallocAt 4096)] = some r ∧
      r.view.contents = [4096] ∧ (frontendView r.bytes).count = 0 ∧ ¬ ViewsAgree r := by
  obtain ⟨r₀, h_init⟩ := initializeQueue_zeroedBlock
  have h := initial_of_initializeQueue h_init
  obtain ⟨r₁, r₂, h_store, h_advance, h_next⟩ := h.enqueue_dot 4096
  rw [if_neg (by decide)] at h_next
  have h_frame₁ := (Region.frame_keeps zeroedBlock).setItem h.frame h_store
  have h_frame₂ := (Region.frame_keeps zeroedBlock).setRear h_frame₁ h_advance
  refine ⟨r₀, r₂, h_init, by rw [exec_cons, h_next]; rfl, ?_, frontend_count_eq h_frame₂,
    h.not_viewsAgree h_next (show (4096 : Word) ≠ 0 by decide)⟩
  -- what the bytes stand for after the two stores
  have h_view₁ := (Queue.setItem_ok (Region.view_view.setItem h_store)).2
  have h_view₂ := Queue.setRear_ok (Region.view_view.setRear h_advance)
  rw [h_view₂, h_view₁, h.rear, Queue.contents, h.front]
  rfl

end WateRMQ
