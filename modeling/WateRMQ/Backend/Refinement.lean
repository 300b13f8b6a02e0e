import WateRMQ.Lib.Log
import WateRMQ.Lib.Run
import WateRMQ.Backend.Queue

/-!
# The backend's queue is a FIFO list

`refines_fifo`: over every run of `enqueue`, `dequeue`, `peek` and `printQueue` that starts from
`initializeQueue`, the queue is a bounded log with a cursor (`BoundedLog`). The pending strings
are those behind the cursor; `peek` gives the oldest and `printQueue` lists them all.

The run is made on `Audited` memory, which faults on a load from a slot that no successful
`enqueue` has filled, but for the slot that the running `enqueue` has just stored and reads back.
That the run goes through is the statement that no other slot is ever read, and `Audited.view`
carries every result over to the queue itself. Without that exception the run does not go through
(`unfilled_slot_read_back`): an `enqueue` that finds no memory compares the null pointer that it
has stored.

The relation between the two levels is `Represents`. `front` is one behind the oldest pending
slot, so it is the cursor minus one; `represents_enqueue` and `represents_dequeue` are the two
steps that move something.
-/

namespace WateRMQ
namespace Backend

open CMem QueueAccess

/-! ### Operations -/

/-- An operation on a queue, with what its environment decides. -/
inductive Op
  | enqueue (value : CStr) (mallocOk : Bool)
  | dequeue
  | peek
  | printQueue

/-- The strings whose length, terminator included, is an `int`. -/
def Op.Short : Op → Prop
  | .enqueue value _ => value.length < 2 ^ 31 - 1
  | _ => True

/-- The operations that `queue` turns down: `dequeue` on an empty queue, `enqueue` on a full one
or without memory. -/
def Op.Rejected (queue : Queue Slot) : Op → Prop
  | .enqueue _ mallocOk => isFull queue = .ok true ∨ mallocOk = false
  | .dequeue => isEmpty queue = .ok true
  | _ => False

/-! ### Audited memory -/

/-- A queue together with the slots that a successful `enqueue` has filled, and the slot that the
running `enqueue` has stored to. `readsBack` says whether that `enqueue` may load the slot even
when it does not come to fill it. -/
structure Audited (readsBack : Bool) where
  queue : Queue Slot
  filled : List ℤ
  stored : Option ℤ

namespace Audited

variable {readsBack : Bool}

/-- The audit of a queue with no slot filled. -/
def fresh (q : Queue Slot) : Audited readsBack where
  queue := q
  filled := []
  stored := none

/-- The slots that may be loaded: those that are filled; and the one that the running `enqueue`
has stored to, where it is about to be filled or may be read back all the same. -/
def Allows (a : Audited readsBack) (i : ℤ) : Prop :=
  i ∈ a.filled ∨ a.stored = some i ∧ (readsBack = true ∨ a.queue.items i ≠ .null)

instance (a : Audited readsBack) (i : ℤ) : Decidable (a.Allows i) :=
  inferInstanceAs (Decidable (_ ∨ _))

/-- A load that the audit does not allow is a fault; a store to a slot leaves it unfilled, until
the `enqueue` that made the store has succeeded. -/
instance access : QueueAccess (Audited readsBack) Slot where
  getItem a i := if a.Allows i then getItem a.queue i else .error .uninitialized
  getFront a := getFront a.queue
  getRear a := getRear a.queue
  setItem a i x := do
    return { queue := ← setItem a.queue i x, filled := a.filled.filter (· ≠ i), stored := some i }
  setFront a n := do return { a with queue := ← setFront a.queue n }
  setRear a n := do return { a with queue := ← setRear a.queue n }

/-- A slot that may be loaded is loaded as from the queue. -/
theorem getItem_of_allows {a : Audited readsBack} {i : ℤ} (h : a.Allows i) :
    getItem a i = getItem a.queue i :=
  if_pos h

/-- A slot that a successful `enqueue` has filled may be. -/
theorem getItem_eq {a : Audited readsBack} {i : ℤ} (h : i ∈ a.filled) (h_in : Queue.InArray i) :
    getItem a i = .ok (a.queue.items i) := by
  rw [getItem_of_allows (Or.inl h), Queue.getItem_eq a.queue h_in]

/-- A store says which slot it was. -/
theorem setItem_eq (a : Audited readsBack) {i : ℤ} (h : Queue.InArray i) (x : Slot) :
    setItem a i x =
      .ok { queue := { a.queue with items := Function.update a.queue.items i x }
            filled := a.filled.filter (· ≠ i)
            stored := some i } :=
  bind_eq_ok.mpr ⟨_, Queue.setItem_eq a.queue h x, rfl⟩

theorem setFront_eq (a : Audited readsBack) {n : ℤ} (h : InInt n) :
    setFront a n = .ok { a with queue := { a.queue with front := n } } :=
  bind_eq_ok.mpr ⟨_, Queue.setFront_eq a.queue h, rfl⟩

theorem setRear_eq (a : Audited readsBack) {n : ℤ} (h : InInt n) :
    setRear a n = .ok { a with queue := { a.queue with rear := n } } :=
  bind_eq_ok.mpr ⟨_, Queue.setRear_eq a.queue h, rfl⟩

/-- With the exception, the slot that was just stored can be loaded, whatever it holds. -/
instance : LawfulQueueAccess (Audited true) Slot where
  getItem_setItem {a b i x} h := by
    obtain ⟨q, h_store, h⟩ := bind_eq_ok.mp h
    cases h
    rw [getItem_of_allows (Or.inr ⟨rfl, Or.inl rfl⟩)]
    exact LawfulQueueAccess.getItem_setItem h_store

/-- Whatever succeeds on audited memory does the same on the queue. -/
theorem view : View (fun a : Audited readsBack => a.queue) where
  getItem {a i x} h := by
    -- a slot that the audit lets be read is read in the same way without it
    change (if a.Allows i then getItem a.queue i else .error .uninitialized) = .ok x at h
    split at h
    · exact h
    · cases h
  getFront h := h
  getRear h := h
  setItem h := by
    obtain ⟨q, h_store, h⟩ := bind_eq_ok.mp h
    cases h
    exact h_store
  setFront h := by
    obtain ⟨q, h_store, h⟩ := bind_eq_ok.mp h
    cases h
    exact h_store
  setRear h := by
    obtain ⟨q, h_store, h⟩ := bind_eq_ok.mp h
    cases h
    exact h_store

/-- The end of an `enqueue` that found `rear` at `i`: the slot counts as filled when `rear` has
moved on, and is not the slot of a running `enqueue` any more. -/
def settle (a : Audited readsBack) (i : ℤ) : Audited readsBack where
  queue := a.queue
  filled := if i < a.queue.rear then i :: a.filled else a.filled
  stored := none

/-- One operation of a run. -/
def step (a : Audited readsBack) : Op → Except Fault (Audited readsBack)
  | .enqueue value mallocOk => do
    let (b, _) ← enqueue a value.ptr (mallocThat mallocOk)
    return b.settle a.queue.rear
  | .dequeue => do
    let (b, _) ← dequeue a
    return b
  | .peek => do
    let _ ← peek a
    return a
  | .printQueue => do
    let _ ← printQueue Slot.string a
    return a

/-- The runs of the queue: a run stops at the first fault. -/
def next (a : Audited readsBack) (op : Op) : Option (Audited readsBack) := (a.step op).toOption

/-- A step of a run is a call without a fault. -/
theorem next_eq_some {a b : Audited readsBack} {op : Op} :
    a.next op = some b ↔ a.step op = .ok b := by
  unfold next
  cases a.step op with
  | error e => simp [Except.toOption]
  | ok c => simp [Except.toOption]

/-- `enqueue` as a step. -/
theorem next_enqueue {a b : Audited readsBack} {value : CStr} {mallocOk : Bool}
    {out : List Output} (h : enqueue a value.ptr (mallocThat mallocOk) = .ok (b, out)) :
    a.next (.enqueue value mallocOk) = some (b.settle a.queue.rear) :=
  next_eq_some.mpr (bind_eq_ok.mpr ⟨(b, out), h, rfl⟩)

/-- `dequeue` as a step. -/
theorem next_dequeue {a b : Audited readsBack} {out : List Output}
    (h : dequeue a = .ok (b, out)) : a.next .dequeue = some b :=
  next_eq_some.mpr (bind_eq_ok.mpr ⟨(b, out), h, rfl⟩)

/-- `peek` changes nothing. -/
theorem next_peek {a : Audited readsBack} {r : Slot × List Output} (h : peek a = .ok r) :
    a.next .peek = some a :=
  next_eq_some.mpr (bind_eq_ok.mpr ⟨r, h, rfl⟩)

/-- Nor does `printQueue`. -/
theorem next_printQueue {a : Audited readsBack} {out : List Output}
    (h : printQueue Slot.string a = .ok out) : a.next .printQueue = some a :=
  next_eq_some.mpr (bind_eq_ok.mpr ⟨out, h, rfl⟩)

end Audited

/-! ### The specification -/

/-- The log of a queue. -/
abbrev Log := BoundedLog CStr maxSize.toNat

namespace Log

/-- What an operation does to the log. -/
def next (l : Log) : Op → Log
  | .enqueue value mallocOk => if mallocOk then l.append value else l
  | .dequeue => l.advance
  | _ => l

/-- **The log is a FIFO list.** A string that is accepted goes to the end of the pending ones,
`dequeue` takes the oldest, and everything else leaves them as they are. -/
theorem pending_next (l : Log) (op : Op) :
    (next l op).pending =
      match op with
      | .enqueue value mallocOk =>
        if mallocOk = true ∧ ¬ l.IsFull then l.pending ++ [value] else l.pending
      | .dequeue => l.pending.tail
      | _ => l.pending := by
  cases op with
  | enqueue value mallocOk =>
    cases mallocOk with
    -- without memory the log does not see the string
    | false => rfl
    | true =>
      change (l.append value).pending = if true = true ∧ ¬ l.IsFull then _ else _
      by_cases h_full : l.IsFull
      · rw [if_neg fun h => h.2 h_full, BoundedLog.append_of_isFull h_full]
      · rw [if_pos ⟨rfl, h_full⟩, BoundedLog.pending_append h_full]
  | dequeue => exact l.pending_advance
  | peek => rfl
  | printQueue => rfl

/-- The log after the operations `ops` on a fresh queue. -/
def after (ops : List Op) : Log := ops.foldl next (BoundedLog.empty CStr maxSize.toNat)

/-- What `peek` gives for the pending strings `ss`. -/
def peeked : List CStr → Slot × List Output
  | [] => (.null, [.stdout "Queue is empty\n"])
  | s :: _ => (.block s.bytes, [])

/-- The strings `ss` as `printQueue` lists them. -/
def listed (ss : List CStr) : List Output :=
  ss.flatMap fun s => [.stdoutStr s.chars, .stdout " "]

/-- What `printQueue` prints for the pending strings `ss`. -/
def printed : List CStr → List Output
  | [] => [.stdout "Queue is empty\n"]
  | s :: ss => [.stdout "Current Queue: "] ++ listed (s :: ss) ++ [.stdout "\n"]

end Log

/-! ### The relation -/

/-- The queue holds the log: slot `i` has entry `i`, and the cursor is one ahead of `front`. -/
structure Represents (a : Audited true) (l : Log) : Prop where
  front : a.queue.front = l.taken - 1
  rear : a.queue.rear = l.entries.length
  items : ∀ (i : ℕ) (h : i < l.entries.length), a.queue.items i = .block l.entries[i].bytes
  filled : ∀ i : ℕ, i < l.entries.length → (i : ℤ) ∈ a.filled

namespace Represents

variable {a : Audited true} {l : Log}

/-- The log has no more entries than the queue has slots. -/
theorem length_le (l : Log) : (l.entries.length : ℤ) ≤ maxSize := by
  have h_cap : (maxSize.toNat : ℤ) = maxSize := rfl
  have h_len := l.length_le
  omega

/-- The log is full when every slot has been used. -/
theorem isFull_iff (l : Log) : l.IsFull ↔ (l.entries.length : ℤ) = maxSize := by
  have h_cap : (maxSize.toNat : ℤ) = maxSize := rfl
  unfold BoundedLog.IsFull
  omega

/-- A queue that stands for a log is within its bounds. -/
theorem shape (h : Represents a l) : Shape a.queue where
  front_ge := by rw [h.front]; omega
  front_le := by have := l.taken_le; rw [h.front, h.rear]; omega
  rear_ge := by rw [h.rear]; omega
  rear_le := by rw [h.rear]; exact length_le l

/-- `isEmpty` says whether something is pending. -/
theorem isEmpty_eq (h : Represents a l) : isEmpty a = .ok (decide (l.pending = [])) := by
  have h_iff : l.taken = l.entries.length ↔ a.queue.front = a.queue.rear - 1 := by
    rw [h.front, h.rear]
    omega
  rw [isEmpty_eq_ok (q := a) rfl rfl]
  simp only [BoundedLog.pending_eq_nil_iff, h_iff]

/-- The oldest pending entry, or any other, is in the slot behind `front`. -/
theorem getItem_pending (h : Represents a l) {k : ℕ} (hk : k < l.pending.length) :
    getItem a (a.queue.front + 1 + k) = .ok (.block l.pending[k].bytes) := by
  have h_len := l.length_pending
  have h_lt : l.taken + k < l.entries.length := by omega
  have h_slot : a.queue.front + 1 + k = ((l.taken + k : ℕ) : ℤ) := by
    rw [h.front]
    omega
  have h_in : Queue.InArray ((l.taken + k : ℕ) : ℤ) := by
    have := length_le l
    constructor <;> omega
  rw [h_slot, Audited.getItem_eq (h.filled _ h_lt) h_in, h.items _ h_lt]
  simp only [BoundedLog.pending, List.getElem_drop]

/-- `printQueue` prints as many items as are pending. -/
theorem length_eq (h : Represents a l) :
    (a.queue.rear - (a.queue.front + 1)).toNat = l.pending.length := by
  have h_taken := l.taken_le
  rw [h.front, h.rear, l.length_pending]
  omega

/-- What is pending in the queue is what is pending in the log. -/
theorem contents_eq (h : Represents a l) :
    a.queue.contents = l.pending.map fun s => .block s.bytes := by
  -- slot by slot: the `k`-th pending slot holds the `k`-th pending entry
  refine List.ext_getElem (by simp [Queue.contents, h.length_eq]) ?_
  intro k h₁ h₂
  have h_pending : k < l.pending.length := by simpa using h₂
  obtain ⟨-, h_item⟩ := Queue.getItem_ok (Audited.view.getItem (h.getItem_pending h_pending))
  simpa [Queue.contents] using h_item

/-! ### One step -/

/-- A queue that was initialized stands for the empty log. -/
theorem start (q : Queue Slot) :
    Represents (Audited.fresh { q with front := -1, rear := 0 })
      (BoundedLog.empty CStr maxSize.toNat) where
  front := rfl
  rear := rfl
  items _ h := absurd h (Nat.not_lt_zero _)
  filled _ h := absurd h (Nat.not_lt_zero _)

/-- An `enqueue` that ends where it started leaves what it found. -/
theorem settle (h : Represents a l) : Represents (a.settle a.queue.rear) l where
  front := h.front
  rear := h.rear
  items := h.items
  filled i hi := by
    rw [Audited.settle, if_neg (lt_irrefl _)]
    exact h.filled i hi

/-- A slot at or behind `rear` may be written without touching the log. -/
theorem write (h : Represents a l) (item : Slot) (stored : Option ℤ) :
    Represents
      { queue := { a.queue with items := Function.update a.queue.items a.queue.rear item }
        filled := a.filled.filter (· ≠ a.queue.rear)
        stored := stored } l where
  front := h.front
  rear := h.rear
  items i hi := by
    have h_ne : (i : ℤ) ≠ a.queue.rear := by rw [h.rear]; omega
    exact (Function.update_of_ne h_ne _ _).trans (h.items i hi)
  filled i hi := by
    have h_ne : (i : ℤ) ≠ a.queue.rear := by rw [h.rear]; omega
    exact List.mem_filter.mpr ⟨h.filled i hi, by simpa using h_ne⟩

/-- Advancing `rear` over a slot that was just filled appends to the log. -/
theorem push (h : Represents a l) (h_full : ¬ l.IsFull) (value : CStr) :
    Represents
      { queue :=
          { items := Function.update a.queue.items a.queue.rear (.block value.bytes)
            front := a.queue.front
            rear := a.queue.rear + 1 }
        filled := a.queue.rear :: a.filled.filter (· ≠ a.queue.rear)
        stored := none } (l.append value) where
  front := by rw [BoundedLog.taken_append]; exact h.front
  rear := by
    rw [BoundedLog.entries_append h_full, List.length_append, List.length_singleton]
    have := h.rear
    push_cast
    omega
  items i hi := by
    simp only [BoundedLog.entries_append h_full] at hi ⊢
    rw [List.length_append, List.length_singleton] at hi
    -- the messages that were there are in their slots, and the new one is at `rear`
    rcases Nat.lt_succ_iff_lt_or_eq.mp hi with h_old | rfl
    · rw [List.getElem_append_left h_old]
      exact (h.write (.block value.bytes) none).items i h_old
    · rw [List.getElem_concat_length rfl, ← h.rear, Function.update_self]
  filled i hi := by
    rw [BoundedLog.entries_append h_full, List.length_append, List.length_singleton] at hi
    rcases Nat.lt_succ_iff_lt_or_eq.mp hi with h_old | rfl
    · exact List.mem_cons_of_mem _ ((h.write .null none).filled i h_old)
    · rw [← h.rear]
      exact List.mem_cons_self

/-- `enqueue` on a full queue, or without memory, is no step of the log; otherwise it appends. -/
theorem enqueue (h : Represents a l) {value : CStr} (h_short : value.length < 2 ^ 31 - 1)
    (mallocOk : Bool) :
    ∃ b, a.next (.enqueue value mallocOk) = some b ∧
      Represents b (Log.next l (.enqueue value mallocOk)) := by
  by_cases h_full : l.IsFull
  · -- a full log: `rear` is at the end of the array, and nothing is written
    have h_rear : getRear a = .ok maxSize := by
      rw [← (isFull_iff l).mp h_full, ← h.rear]
      rfl
    refine ⟨_, Audited.next_enqueue (enqueue_of_isFull h_rear _ _), ?_⟩
    simpa [Log.next, BoundedLog.append_of_isFull h_full] using h.settle
  · have h_room : a.queue.rear ≠ maxSize := by
      rw [h.rear]
      exact fun h_eq => h_full ((isFull_iff l).mpr h_eq)
    have h_copy : copySize value.length = value.length + 1 := copySize_of_lt (by omega)
    have h_store := Audited.setItem_eq a (h.shape.rear_inArray h_room)
    have h_advance := fun b : Audited true => Audited.setRear_eq b (h.shape.rear_inInt h_room)
    cases mallocOk with
    | false =>
      -- the slot at `rear` becomes null, and stays behind the log
      have h_malloc : mallocThat false (copySize value.length)
          (value.ptr.take (copySize value.length)) = CPointer.null := rfl
      have h_outcome := enqueue_ptr value (show getRear a = _ from rfl) h_room h_malloc
        (h_store _) rfl (h_advance _)
      rw [if_pos rfl] at h_outcome
      exact ⟨_, Audited.next_enqueue h_outcome, (h.write .null _).settle⟩
    | true =>
      have h_malloc : mallocThat true (copySize value.length)
          (value.ptr.take (copySize value.length)) = .block value.bytes := by
        rw [h_copy, take_ptr]
        rfl
      have h_outcome := enqueue_ptr value (show getRear a = _ from rfl) h_room h_malloc
        (h_store _) rfl (h_advance _)
      rw [if_neg (by exact Slot.noConfusion), h_copy, if_pos le_rfl] at h_outcome
      refine ⟨_, Audited.next_enqueue h_outcome, ?_⟩
      -- `rear` moved, so the slot counts as filled
      have h_moved : a.queue.rear < a.queue.rear + 1 := by omega
      simp only [Audited.settle, if_pos h_moved]
      exact h.push h_full value

/-- `dequeue` moves the cursor, when there is something to move it over. -/
theorem dequeue (h : Represents a l) :
    ∃ b, a.next .dequeue = some b ∧ Represents b (Log.next l .dequeue) := by
  by_cases h_pending : l.pending = []
  · -- the cursor has reached the end, as `front` has reached `rear - 1`
    have h_empty : isEmpty a = .ok true := by rw [h.isEmpty_eq, decide_eq_true h_pending]
    refine ⟨a, Audited.next_dequeue (dequeue_of_isEmpty h_empty), ?_⟩
    simpa [Log.next, BoundedLog.advance_of_taken ((l.pending_eq_nil_iff).mp h_pending)] using h
  · have h_empty : isEmpty a = .ok false := by rw [h.isEmpty_eq, decide_eq_false h_pending]
    have h_advance := Audited.setFront_eq a h.shape.front_inInt
    have h_taken : l.advance.taken = l.taken + 1 :=
      BoundedLog.taken_advance fun h_eq => h_pending ((l.pending_eq_nil_iff).mpr h_eq)
    refine ⟨_, Audited.next_dequeue (dequeue_of_pending h_empty rfl h_advance), ?_⟩
    exact
      { front := by
          have h_front := h.front
          simp only [Log.next, h_taken]
          push_cast
          omega
        rear := by simpa [Log.next] using h.rear
        items := by simpa [Log.next] using h.items
        filled := by simpa [Log.next] using h.filled }

/-! ### Reading -/

/-- `peek` gives the oldest pending string. -/
theorem peek (h : Represents a l) : Backend.peek a = .ok (Log.peeked l.pending) := by
  have h_isEmpty := h.isEmpty_eq
  have h_item := @h.getItem_pending
  cases h_list : l.pending with
  | nil =>
    rw [h_list] at h_isEmpty
    exact peek_of_isEmpty h_isEmpty
  | cons s ss =>
    simp only [h_list] at h_isEmpty h_item
    exact peek_of_pending h_isEmpty rfl (by simpa using h_item (k := 0) (Nat.succ_pos _))

/-- The loop of `printQueue` over slots that hold strings. -/
theorem printItems_eq {σ : Type} [QueueAccess σ Slot] {q : σ} {i : ℤ} {ss : List CStr}
    (h : ∀ (k : ℕ) (hk : k < ss.length), getItem q (i + k) = .ok (.block ss[k].bytes)) :
    printItems Slot.string q i ss.length = .ok (Log.listed ss) := by
  induction ss generalizing i with
  | nil => rfl
  | cons s ss ih =>
    have h_first : getItem q i = .ok (.block s.bytes) := by
      simpa using h 0 (Nat.succ_pos _)
    have h_rest := ih (i := i + 1) fun k hk => by
      have h_next := h (k + 1) (Nat.succ_lt_succ hk)
      rwa [Nat.cast_succ, ← add_assoc, add_right_comm] at h_next
    exact bind_eq_ok.mpr ⟨_, h_first, bind_eq_ok.mpr ⟨_, readString_bytes s,
      bind_eq_ok.mpr ⟨_, h_rest, rfl⟩⟩⟩

/-- `printQueue` lists the pending strings in order. -/
theorem printQueue (h : Represents a l) :
    Backend.printQueue Slot.string a = .ok (Log.printed l.pending) := by
  have h_isEmpty := h.isEmpty_eq
  have h_items := printItems_eq (q := a) @h.getItem_pending
  cases h_list : l.pending with
  | nil =>
    rw [h_list] at h_isEmpty
    exact printQueue_of_isEmpty h_isEmpty
  | cons s ss =>
    -- the loop runs from `front + 1` to `rear`, once for each pending message
    have h_count : (a.queue.rear - (a.queue.front + 1)).toNat = l.pending.length := by
      rw [h.length_eq]
    rw [← h_count] at h_items
    simp only [h_list] at h_isEmpty h_items
    exact printQueue_of_pending h_isEmpty rfl rfl h_items

/-- One operation of a run. -/
theorem next (h : Represents a l) {op : Op} (h_short : op.Short) :
    ∃ b, a.next op = some b ∧ Represents b (Log.next l op) := by
  cases op with
  | enqueue value mallocOk => exact h.enqueue h_short mallocOk
  | dequeue => exact h.dequeue
  | peek => exact ⟨a, Audited.next_peek h.peek, h⟩
  | printQueue => exact ⟨a, Audited.next_printQueue h.printQueue, h⟩

/-- An operation that is turned down leaves the pending strings as they are. -/
theorem pending_of_rejected (h : Represents a l) {op : Op} (h_rejected : op.Rejected a.queue) :
    (Log.next l op).pending = l.pending := by
  rw [Log.pending_next]
  cases op with
  | enqueue value mallocOk =>
    refine if_neg ?_
    rintro ⟨rfl, h_room⟩
    rcases h_rejected with h_full | h_malloc
    · -- the queue is full where the log is
      apply h_room
      rw [isFull_iff, ← h.rear]
      simpa using h_full
    · cases h_malloc
  | dequeue =>
    -- a `dequeue` is turned down when nothing is pending
    have h_pending : l.pending = [] := by
      have h_empty := Audited.view.isEmpty h.isEmpty_eq
      rw [show isEmpty a.queue = .ok true from h_rejected] at h_empty
      exact of_decide_eq_true (Except.ok.inj h_empty).symm
    dsimp only
    rw [h_pending, List.tail_nil]
  | peek => exact h_rejected.elim
  | printQueue => exact h_rejected.elim

end Represents

/-- **The queue refines a FIFO list.** After any operations on a fresh queue, made on memory that
faults on a load from a slot that no successful `enqueue` has filled and the running `enqueue` has
not just stored to: `front` and `rear` are within their bounds; the pending strings are those of
the log; `peek` gives the oldest, and `printQueue` lists them in order; an operation that is turned
down leaves them as they are. -/
theorem refines_fifo (q₀ : Queue Slot) (ops : List Op) (h_short : ∀ op ∈ ops, op.Short) :
    ∃ (q₁ : Queue Slot) (a : Audited true), initializeQueue q₀ = .ok q₁ ∧
      Runs.exec Audited.next (Audited.fresh q₁) ops = some a ∧
      Shape a.queue ∧
      a.queue.contents = (Log.after ops).pending.map (fun s => .block s.bytes) ∧
      peek a.queue = .ok (Log.peeked (Log.after ops).pending) ∧
      printQueue Slot.string a.queue = .ok (Log.printed (Log.after ops).pending) ∧
      ∀ op : Op, op.Short → op.Rejected a.queue →
        ∃ b, a.next op = some b ∧ b.queue.contents = a.queue.contents := by
  -- the simulation gives the last state with its log; the rest are readings of `Represents`
  obtain ⟨a, h_run, h⟩ := Runs.exec_simulates (R := Represents) (f := Log.next)
    (fun _ _ _ h h_op => h.next h_op) (Represents.start q₀) h_short
  refine ⟨_, a, Queue.initializeQueue_eq q₀, h_run, h.shape, h.contents_eq,
    Audited.view.peek h.peek, Audited.view.printQueue h.printQueue, ?_⟩
  intro op h_op h_rejected
  obtain ⟨b, h_next, h_b⟩ := h.next h_op
  exact ⟨b, h_next, by rw [h_b.contents_eq, h.contents_eq, h.pending_of_rejected h_rejected]⟩

theorem refines_fifo_after_failure :
    ∃ (q₁ : Queue Slot) (a : Audited true),
      initializeQueue { items := fun _ => Slot.uninit, front := 7, rear := 3 } = .ok q₁ ∧
      Runs.exec Audited.next (Audited.fresh q₁)
        [.dequeue, .enqueue dot true, .enqueue dot false, .printQueue] = some a ∧
      a.queue.contents = [.block [46, 0]] ∧ peek a.queue = .ok (.block [46, 0], []) := by
  obtain ⟨q₁, a, h_init, h_run, -, h_contents, h_peek, -⟩ :=
    refines_fifo { items := fun _ => Slot.uninit, front := 7, rear := 3 }
      [.dequeue, .enqueue dot true, .enqueue dot false, .printQueue]
      (by simp [Op.Short, dot, CStr.length])
  exact ⟨q₁, a, h_init, h_run, h_contents, h_peek⟩

/-- Without the exception the audit stops an `enqueue` that finds no memory: `rear` is at a slot
that no `enqueue` has filled, and the comparison with `NULL` loads it. -/
theorem unfilled_slot_read_back :
    ∃ (q₁ : Queue Slot) (a : Audited false),
      initializeQueue { items := fun _ => Slot.uninit, front := 7, rear := 3 } = .ok q₁ ∧
      Runs.exec Audited.next (Audited.fresh q₁) [.enqueue dot true] = some a ∧
      a.filled = [0] ∧ a.queue.rear = 1 ∧ (Op.enqueue dot false).Short ∧
      a.step (.enqueue dot false) = .error .uninitialized := by
  let items : ℤ → Slot := Function.update (fun _ => .uninit) 0 (.block dot.bytes)
  refine ⟨⟨fun _ => .uninit, -1, 0⟩, ⟨⟨items, -1, 1⟩, [0], none⟩, rfl, rfl, rfl, rfl, ?_, rfl⟩
  simp [Op.Short, dot, CStr.length]

end Backend
end WateRMQ
