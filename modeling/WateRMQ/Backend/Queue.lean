import Mathlib.Logic.Function.Basic
import WateRMQ.Lib.CString

/-!
# The backend's queue

`Queue`, `initializeQueue`, `isEmpty`, `isFull`, `enqueue`, `dequeue`, `peek` and `printQueue` of
`BackLibWaterRMQ.c`. The queue is an array that is filled from the left: `rear` is the next slot
to fill and `front` is one *behind* the oldest pending slot, so the pending messages lie in the
slots strictly between `front` and `rear`.

The functions are written once over `QueueAccess`, the loads and stores that C makes through a
`Queue *`. Its instance here is the structure itself; `Backend/Layout.lean` gives the instance on
raw bytes.

* `enqueue_ok_cases` — everything a successful `enqueue` can do, for any memory;
* `enqueue_of_isFull`, `enqueue_ptr`, `dequeue_of_isEmpty`, `dequeue_of_pending` and their kin —
  the outcome of each function, for any memory;
* `View` — a map from one memory to another that keeps the loads and stores. Every function then
  does the same on both;
* `Keeps` — what the three stores keep, every function keeps;
* `Shape` — the bounds on `front` and `rear`.
-/

namespace WateRMQ
namespace Backend

open CMem

/-! ### The data model -/

/-- `MESSAGE_UNIT`. -/
def messageUnit : ℤ := 10

/-- `MAX_SIZE`, the macro `4056*MESSAGE_UNIT`. -/
def maxSize : ℤ := 4056 * messageUnit

theorem maxSize_eq : maxSize = 40560 := rfl

/-- What the functions print. `stdoutStr` is a `%s` argument, a string of the queue. -/
inductive Output
  | stdout (text : String)
  | stdoutStr (chars : List UInt8)
  | stderr (text : String)
  deriving DecidableEq

/-- The message of `enqueue` for a `malloc` that found no memory. -/
def allocationFailed (rear front : ℤ) : Output :=
  .stderr s!"Impossible to perform malloc on enqueue : REAR={rear}, FRONT={front}\n"

/-- The loads and stores through a `Queue *` into an object of type `σ`, whose slots hold pointers
of type `ι`. An access that C does not define, or that the memory does not allow, is a fault. -/
class QueueAccess (σ : Type) (ι : outParam Type) where
  getItem : σ → ℤ → Except Fault ι
  getFront : σ → Except Fault ℤ
  getRear : σ → Except Fault ℤ
  setItem : σ → ℤ → ι → Except Fault σ
  setFront : σ → ℤ → Except Fault σ
  setRear : σ → ℤ → Except Fault σ

open QueueAccess

/-- A memory whose slots give back what was stored to them. -/
class LawfulQueueAccess (σ : Type) (ι : outParam Type) [QueueAccess σ ι] : Prop where
  getItem_setItem {q q' : σ} {i : ℤ} {x : ι} (h : setItem q i x = .ok q') : getItem q' i = .ok x

/-! ### The functions of the source -/

section Functions

variable {σ ι : Type} [QueueAccess σ ι]

/-- `initializeQueue`. -/
def initializeQueue (q : σ) : Except Fault σ := do
  let q ← setFront q (-1)
  setRear q 0

/-- `isEmpty`. -/
def isEmpty (q : σ) : Except Fault Bool := do
  let front ← getFront q
  let rear ← getRear q
  return decide (front = rear - 1)

/-- `isFull`. -/
def isFull (q : σ) : Except Fault Bool := do
  let rear ← getRear q
  return decide (rear = maxSize)

/-- `enqueue`. The length is kept in an `int`, so `malloc` and `memcpy` are given
`copySize (strlen value)` bytes. The slot at `rear` is read back twice: for the comparison with
`NULL`, and for the destination of `memcpy`. -/
def enqueue [CPointer ι] [DecidableEq ι] (q : σ) (value : CharPtr) (malloc : Malloc ι) :
    Except Fault (σ × List Output) := do
  if ← isFull q then
    return (q, [.stdout "Queue is full\n"])
  else
    let len ← strlen value
    let lenValue := copySize len
    -- one load of `rear`: nothing stores to it before `q->rear++`
    let rear ← getRear q
    let q ← setItem q rear (malloc lenValue (value.take lenValue))
    let item ← getItem q rear
    if item = CPointer.null then
      let front ← getFront q
      return (q, [allocationFailed rear front])
    else
      let _ ← getItem q rear
      if value.Readable lenValue then
        let q ← setRear q (rear + 1)
        return (q, [])
      else
        throw .outOfBounds

/-- `dequeue`. -/
def dequeue (q : σ) : Except Fault (σ × List Output) := do
  if ← isEmpty q then
    return (q, [.stdout "Queue is empty\n"])
  else
    let front ← getFront q
    let q ← setFront q (front + 1)
    return (q, [])

/-- `peek`. -/
def peek [CPointer ι] (q : σ) : Except Fault (ι × List Output) := do
  if ← isEmpty q then
    return (CPointer.null, [.stdout "Queue is empty\n"])
  else
    let front ← getFront q
    let item ← getItem q (front + 1)
    return (item, [])

/-- The string literal of `create_WateRMQ_ConsumingQueue_private`. -/
def dot : CStr := ⟨[46], by decide⟩

/-- `create_WateRMQ_ConsumingQueue_private`: `block` is what its `malloc(sizeof(Queue))` gave, and
`malloc` is the allocator that `enqueue` then calls. -/
def createWateRMQConsumingQueuePrivate [CPointer ι] [DecidableEq ι] (block : Option σ)
    (malloc : Malloc ι) : Except Fault (Option σ) :=
  match block with
  | none => return none
  | some q => do
    let q ← initializeQueue q
    let (q, _) ← enqueue q dot.ptr malloc
    let (q, _) ← dequeue q
    return some q

/-- The loop of `printQueue`, from slot `i` for the `n` rounds up to `rear`; `str` reads the
string behind a slot. -/
def printItems (str : ι → Except Fault (List UInt8)) (q : σ) (i : ℤ) :
    ℕ → Except Fault (List Output)
  | 0 => return []
  | n + 1 => do
    let item ← getItem q i
    let chars ← str item
    let rest ← printItems str q (i + 1) n
    return .stdoutStr chars :: .stdout " " :: rest

/-- `printQueue`. -/
def printQueue (str : ι → Except Fault (List UInt8)) (q : σ) : Except Fault (List Output) := do
  if ← isEmpty q then
    return [.stdout "Queue is empty\n"]
  else
    let front ← getFront q
    let rear ← getRear q
    let items ← printItems str q (front + 1) (rear - (front + 1)).toNat
    return [.stdout "Current Queue: "] ++ items ++ [.stdout "\n"]

/-- **Everything a successful `enqueue` can do.** It finds the queue full; or it stores what
`malloc` gave at `rear` and stops there when that is the null pointer; or it copies the string and
advances `rear`. -/
theorem enqueue_ok_cases [LawfulQueueAccess σ ι] [CPointer ι] [DecidableEq ι] {q q' : σ}
    {value : CharPtr} {malloc : Malloc ι} {out : List Output}
    (h : enqueue q value malloc = .ok (q', out)) :
    ∃ rear, getRear q = .ok rear ∧
      ((rear = maxSize ∧ q' = q ∧ out = [.stdout "Queue is full\n"]) ∨
        (rear ≠ maxSize ∧ ∃ len q₁, strlen value = .ok len ∧
          setItem q rear (malloc (copySize len) (value.take (copySize len))) = .ok q₁ ∧
          ((malloc (copySize len) (value.take (copySize len)) = CPointer.null ∧ q' = q₁ ∧
              ∃ front, out = [allocationFailed rear front]) ∨
            (malloc (copySize len) (value.take (copySize len)) ≠ CPointer.null ∧
              value.Readable (copySize len) ∧ setRear q₁ (rear + 1) = .ok q' ∧ out = [])))) := by
  unfold enqueue isFull at h
  simp only [bind_eq_ok] at h
  obtain ⟨full, ⟨rear, h_rear, h_full⟩, h⟩ := h
  obtain rfl := Except.ok.inj h_full
  refine ⟨rear, h_rear, ?_⟩
  -- the branches of the source, in its order: full, no memory, copied
  by_cases h_max : rear = maxSize
  · rw [if_pos (decide_eq_true h_max)] at h
    cases h
    exact Or.inl ⟨h_max, rfl, rfl⟩
  · rw [if_neg (by simpa using h_max)] at h
    simp only [bind_eq_ok] at h
    obtain ⟨len, h_len, rear', h_rear', q₁, h_store, item, h_item, h⟩ := h
    -- `rear` is loaded twice, from the same object, and the slot gives back what was stored
    obtain rfl : rear = rear' := Except.ok.inj (h_rear.symm.trans h_rear')
    have h_load := LawfulQueueAccess.getItem_setItem h_store
    obtain rfl := Except.ok.inj (h_load.symm.trans h_item)
    refine Or.inr ⟨h_max, len, q₁, h_len, h_store, ?_⟩
    by_cases h_null : malloc (copySize len) (value.take (copySize len)) = CPointer.null
    · rw [if_pos h_null] at h
      obtain ⟨front, -, h⟩ := bind_eq_ok.mp h
      cases h
      exact Or.inl ⟨h_null, rfl, front, rfl⟩
    · rw [if_neg h_null] at h
      obtain ⟨-, -, h⟩ := bind_eq_ok.mp h
      by_cases h_read : value.Readable (copySize len)
      · rw [if_pos h_read] at h
        obtain ⟨q₂, h_rear₂, h⟩ := bind_eq_ok.mp h
        cases h
        exact Or.inr ⟨h_null, h_read, h_rear₂, rfl⟩
      · rw [if_neg h_read] at h
        cases h

/-! ### The outcome of each function, for any memory -/

/-- `isEmpty` needs both indices. -/
theorem isEmpty_eq_ok {q : σ} {front rear : ℤ} (h_front : getFront q = .ok front)
    (h_rear : getRear q = .ok rear) : isEmpty q = .ok (decide (front = rear - 1)) := by
  unfold isEmpty
  rw [h_front, h_rear]
  rfl

/-- `isFull` needs `rear` only. -/
theorem isFull_eq_ok {q : σ} {rear : ℤ} (h_rear : getRear q = .ok rear) :
    isFull q = .ok (decide (rear = maxSize)) := by
  unfold isFull
  rw [h_rear]
  rfl

/-- A full queue takes nothing, whatever it is given: the string is not read. -/
theorem enqueue_of_isFull [CPointer ι] [DecidableEq ι] {q : σ} (h : getRear q = .ok maxSize)
    (value : CharPtr) (malloc : Malloc ι) :
    enqueue q value malloc = .ok (q, [.stdout "Queue is full\n"]) := by
  unfold enqueue
  rw [isFull_eq_ok h, decide_eq_true rfl]
  rfl

/-- `enqueue` on a queue with room: the slot at `rear` gets what `malloc` gave, and `rear` moves on
unless that is the null pointer. -/
theorem enqueue_of_room [LawfulQueueAccess σ ι] [CPointer ι] [DecidableEq ι] {q q₁ q₂ : σ}
    {front rear : ℤ} {len : ℕ} {value : CharPtr} {item : ι} {malloc : Malloc ι}
    (h_len : strlen value = .ok len) (h_rear : getRear q = .ok rear) (h_room : rear ≠ maxSize)
    (h_malloc : malloc (copySize len) (value.take (copySize len)) = item)
    (h_store : setItem q rear item = .ok q₁) (h_front : getFront q₁ = .ok front)
    (h_advance : setRear q₁ (rear + 1) = .ok q₂) :
    enqueue q value malloc =
      if item = CPointer.null then
        .ok (q₁, [allocationFailed rear front])
      else if value.Readable (copySize len) then .ok (q₂, [])
      else .error .outOfBounds := by
  unfold enqueue
  -- every access of the function has its result in a hypothesis
  rw [isFull_eq_ok h_rear, decide_eq_false h_room, h_len, h_rear]
  simp only [bind, Except.bind, Bool.false_eq_true, if_false, h_malloc, h_store,
    LawfulQueueAccess.getItem_setItem h_store, h_front, h_advance]
  rfl

/-- `enqueue` of a string on a queue with room. -/
theorem enqueue_ptr [LawfulQueueAccess σ ι] [CPointer ι] [DecidableEq ι] {q q₁ q₂ : σ}
    {front rear : ℤ} {item : ι} {malloc : Malloc ι} (s : CStr) (h_rear : getRear q = .ok rear)
    (h_room : rear ≠ maxSize)
    (h_malloc : malloc (copySize s.length) (s.ptr.take (copySize s.length)) = item)
    (h_store : setItem q rear item = .ok q₁) (h_front : getFront q₁ = .ok front)
    (h_advance : setRear q₁ (rear + 1) = .ok q₂) :
    enqueue q s.ptr malloc =
      if item = CPointer.null then
        .ok (q₁, [allocationFailed rear front])
      else if copySize s.length ≤ s.length + 1 then .ok (q₂, [])
      else .error .outOfBounds := by
  rw [enqueue_of_room (strlen_ptr s) h_rear h_room h_malloc h_store h_front h_advance]
  simp only [readable_ptr]

/-- An empty queue stays as it is. -/
theorem dequeue_of_isEmpty {q : σ} (h : isEmpty q = .ok true) :
    dequeue q = .ok (q, [.stdout "Queue is empty\n"]) := by
  unfold dequeue
  rw [h]
  rfl

/-- `dequeue` moves `front` on, and does not free the item. -/
theorem dequeue_of_pending {q q' : σ} {front : ℤ} (h : isEmpty q = .ok false)
    (h_front : getFront q = .ok front) (h_advance : setFront q (front + 1) = .ok q') :
    dequeue q = .ok (q', []) := by
  unfold dequeue
  rw [h, h_front]
  simp only [bind, Except.bind, Bool.false_eq_true, if_false, h_advance]
  rfl

/-- There is nothing to see in an empty queue, which `peek` answers with the null pointer. -/
theorem peek_of_isEmpty [CPointer ι] {q : σ} (h : isEmpty q = .ok true) :
    peek q = .ok (CPointer.null, [.stdout "Queue is empty\n"]) := by
  unfold peek
  rw [h]
  rfl

/-- `peek` gives the item behind `front`. -/
theorem peek_of_pending [CPointer ι] {q : σ} {front : ℤ} {item : ι} (h : isEmpty q = .ok false)
    (h_front : getFront q = .ok front) (h_item : getItem q (front + 1) = .ok item) :
    peek q = .ok (item, []) := by
  unfold peek
  rw [h, h_front]
  simp only [bind, Except.bind, Bool.false_eq_true, if_false, h_item]
  rfl

/-- An empty queue is printed as such. -/
theorem printQueue_of_isEmpty {str : ι → Except Fault (List UInt8)} {q : σ}
    (h : isEmpty q = .ok true) : printQueue str q = .ok [.stdout "Queue is empty\n"] := by
  unfold printQueue
  rw [h]
  rfl

/-- The items are printed between the two texts. -/
theorem printQueue_of_pending {str : ι → Except Fault (List UInt8)} {q : σ} {front rear : ℤ}
    {items : List Output} (h : isEmpty q = .ok false) (h_front : getFront q = .ok front)
    (h_rear : getRear q = .ok rear)
    (h_items : printItems str q (front + 1) (rear - (front + 1)).toNat = .ok items) :
    printQueue str q = .ok ([.stdout "Current Queue: "] ++ items ++ [.stdout "\n"]) := by
  unfold printQueue
  rw [h, h_front, h_rear]
  simp only [bind, Except.bind, Bool.false_eq_true, if_false, h_items]
  rfl

/-- Everything a successful `dequeue` can do. -/
theorem dequeue_ok_cases {q q' : σ} {out : List Output} (h : dequeue q = .ok (q', out)) :
    (isEmpty q = .ok true ∧ q' = q) ∨
      (isEmpty q = .ok false ∧ ∃ front, getFront q = .ok front ∧
        setFront q (front + 1) = .ok q') := by
  obtain ⟨empty, h_empty, h⟩ := bind_eq_ok.mp h
  cases empty with
  | true =>
    cases h
    exact Or.inl ⟨h_empty, rfl⟩
  | false =>
    simp only [Bool.false_eq_true, if_false] at h
    obtain ⟨front, h_front, h⟩ := bind_eq_ok.mp h
    obtain ⟨q₁, h_advance, h⟩ := bind_eq_ok.mp h
    cases h
    exact Or.inr ⟨h_empty, front, h_front, h_advance⟩

end Functions

/-! ### Runs of the two writers -/

/-- A call of `enqueue` or `dequeue`, with the allocator that `enqueue` finds. -/
inductive Write (ι : Type)
  | enqueue (value : CStr) (malloc : Malloc ι)
  | dequeue

namespace Write

variable {σ ι : Type} [QueueAccess σ ι] [CPointer ι] [DecidableEq ι]

/-- The call. -/
def exec (q : σ) : Write ι → Except Fault (σ × List Output)
  | .enqueue value malloc => Backend.enqueue q value.ptr malloc
  | .dequeue => Backend.dequeue q

/-- The runs of the two writers: a run stops at the first fault. -/
def next (q : σ) (w : Write ι) : Option σ := (w.exec q).toOption.map Prod.fst

/-- A step of a run is a call that succeeds. -/
theorem next_eq_some {q q' : σ} {w : Write ι} :
    w.next q = some q' ↔ ∃ out, w.exec q = .ok (q', out) := by
  unfold next
  cases w.exec q with
  | error e => simp [Except.toOption]
  | ok r => exact ⟨fun h => ⟨r.2, by cases h; rfl⟩, fun ⟨out, h⟩ => by cases h; rfl⟩

/-- `enqueue` as a step. -/
theorem next_enqueue {q q' : σ} {value : CStr} {malloc : Malloc ι} {out : List Output}
    (h : Backend.enqueue q value.ptr malloc = .ok (q', out)) :
    (Write.enqueue value malloc).next q = some q' :=
  next_eq_some.mpr ⟨out, h⟩

/-- `dequeue` as a step. -/
theorem next_dequeue {q q' : σ} {out : List Output} (h : Backend.dequeue q = .ok (q', out)) :
    (Write.dequeue : Write ι).next q = some q' :=
  next_eq_some.mpr ⟨out, h⟩

end Write

/-! ### Two memories -/

/-- A map between two memories that keeps every load and store that succeeds. -/
structure View {σ τ ι : Type} [QueueAccess σ ι] [QueueAccess τ ι] (view : σ → τ) : Prop where
  getItem {q : σ} {i : ℤ} {x : ι} (h : getItem q i = .ok x) :
    QueueAccess.getItem (view q) i = .ok x
  getFront {q : σ} {n : ℤ} (h : getFront q = .ok n) : QueueAccess.getFront (view q) = .ok n
  getRear {q : σ} {n : ℤ} (h : getRear q = .ok n) : QueueAccess.getRear (view q) = .ok n
  setItem {q q' : σ} {i : ℤ} {x : ι} (h : setItem q i x = .ok q') :
    QueueAccess.setItem (view q) i x = .ok (view q')
  setFront {q q' : σ} {n : ℤ} (h : setFront q n = .ok q') :
    QueueAccess.setFront (view q) n = .ok (view q')
  setRear {q q' : σ} {n : ℤ} (h : setRear q n = .ok q') :
    QueueAccess.setRear (view q) n = .ok (view q')

namespace View

variable {σ τ ι : Type} [QueueAccess σ ι] [QueueAccess τ ι] {view : σ → τ} {q q' : σ}

/-- `initializeQueue` on both sides. -/
theorem initializeQueue (h_view : View view) (h : Backend.initializeQueue q = .ok q') :
    Backend.initializeQueue (view q) = .ok (view q') := by
  obtain ⟨q₁, h_front, h_rear⟩ := bind_eq_ok.mp h
  exact bind_eq_ok.mpr ⟨view q₁, h_view.setFront h_front, h_view.setRear h_rear⟩

/-- `isEmpty` on both sides. -/
theorem isEmpty (h_view : View view) {b : Bool} (h : Backend.isEmpty q = .ok b) :
    Backend.isEmpty (view q) = .ok b := by
  obtain ⟨front, h_front, h⟩ := bind_eq_ok.mp h
  obtain ⟨rear, h_rear, h⟩ := bind_eq_ok.mp h
  rw [isEmpty_eq_ok (h_view.getFront h_front) (h_view.getRear h_rear)]
  exact h

/-- `isFull` on both sides. -/
theorem isFull (h_view : View view) {b : Bool} (h : Backend.isFull q = .ok b) :
    Backend.isFull (view q) = .ok b := by
  obtain ⟨rear, h_rear, h⟩ := bind_eq_ok.mp h
  rw [isFull_eq_ok (h_view.getRear h_rear)]
  exact h

/-- `enqueue` on both sides: the same branch, with the same stores. -/
theorem enqueue [CPointer ι] [DecidableEq ι] (h_view : View view) {value : CharPtr}
    {malloc : Malloc ι} {out : List Output} (h : Backend.enqueue q value malloc = .ok (q', out)) :
    Backend.enqueue (view q) value malloc = .ok (view q', out) := by
  obtain ⟨full, h_full, h⟩ := bind_eq_ok.mp h
  refine bind_eq_ok.mpr ⟨full, h_view.isFull h_full, ?_⟩
  cases full with
  | true =>
    cases h
    rfl
  | false =>
    simp only [Bool.false_eq_true, if_false] at h ⊢
    obtain ⟨len, h_len, h⟩ := bind_eq_ok.mp h
    obtain ⟨rear, h_rear, h⟩ := bind_eq_ok.mp h
    obtain ⟨q₁, h_store, h⟩ := bind_eq_ok.mp h
    obtain ⟨item, h_item, h⟩ := bind_eq_ok.mp h
    -- `strlen` reads the argument, not the queue: it gives the same on both sides
    refine bind_eq_ok.mpr ⟨len, h_len, bind_eq_ok.mpr ⟨rear, h_view.getRear h_rear,
      bind_eq_ok.mpr ⟨view q₁, h_view.setItem h_store,
        bind_eq_ok.mpr ⟨item, h_view.getItem h_item, ?_⟩⟩⟩⟩
    split at h
    next h_null =>
      obtain ⟨front, h_front, h⟩ := bind_eq_ok.mp h
      cases h
      rw [if_pos h_null]
      exact bind_eq_ok.mpr ⟨front, h_view.getFront h_front, rfl⟩
    next h_null =>
      obtain ⟨destination, h_destination, h⟩ := bind_eq_ok.mp h
      rw [if_neg h_null]
      refine bind_eq_ok.mpr ⟨destination, h_view.getItem h_destination, ?_⟩
      split at h
      next h_read =>
        obtain ⟨q₂, h_advance, h⟩ := bind_eq_ok.mp h
        cases h
        rw [if_pos h_read]
        exact bind_eq_ok.mpr ⟨view q', h_view.setRear h_advance, rfl⟩
      next => cases h

/-- `dequeue` on both sides. -/
theorem dequeue (h_view : View view) {out : List Output} (h : Backend.dequeue q = .ok (q', out)) :
    Backend.dequeue (view q) = .ok (view q', out) := by
  obtain ⟨empty, h_empty, h⟩ := bind_eq_ok.mp h
  refine bind_eq_ok.mpr ⟨empty, h_view.isEmpty h_empty, ?_⟩
  cases empty with
  | true =>
    cases h
    rfl
  | false =>
    simp only [Bool.false_eq_true, if_false] at h ⊢
    obtain ⟨front, h_front, h⟩ := bind_eq_ok.mp h
    obtain ⟨q₁, h_advance, h⟩ := bind_eq_ok.mp h
    cases h
    exact bind_eq_ok.mpr ⟨front, h_view.getFront h_front,
      bind_eq_ok.mpr ⟨view q', h_view.setFront h_advance, rfl⟩⟩

/-- A step of a run on both sides. -/
theorem write [CPointer ι] [DecidableEq ι] (h_view : View view) {w : Write ι}
    (h : w.next q = some q') : w.next (view q) = some (view q') := by
  obtain ⟨out, h_exec⟩ := Write.next_eq_some.mp h
  refine Write.next_eq_some.mpr ⟨out, ?_⟩
  cases w with
  | enqueue value malloc => exact h_view.enqueue h_exec
  | dequeue => exact h_view.dequeue h_exec

/-- `peek` on both sides. -/
theorem peek [CPointer ι] (h_view : View view) {item : ι} {out : List Output}
    (h : Backend.peek q = .ok (item, out)) : Backend.peek (view q) = .ok (item, out) := by
  obtain ⟨empty, h_empty, h⟩ := bind_eq_ok.mp h
  refine bind_eq_ok.mpr ⟨empty, h_view.isEmpty h_empty, ?_⟩
  cases empty with
  | true => exact h
  | false =>
    simp only [Bool.false_eq_true, if_false] at h ⊢
    obtain ⟨front, h_front, h⟩ := bind_eq_ok.mp h
    obtain ⟨x, h_item, h⟩ := bind_eq_ok.mp h
    exact bind_eq_ok.mpr ⟨front, h_view.getFront h_front,
      bind_eq_ok.mpr ⟨x, h_view.getItem h_item, h⟩⟩

/-- The loop of `printQueue` on both sides. -/
theorem printItems (h_view : View view) {str : ι → Except Fault (List UInt8)} {i : ℤ} {n : ℕ}
    {out : List Output} (h : Backend.printItems str q i n = .ok out) :
    Backend.printItems str (view q) i n = .ok out := by
  induction n generalizing i out with
  | zero => exact h
  | succ n ih =>
    obtain ⟨item, h_item, h⟩ := bind_eq_ok.mp h
    obtain ⟨chars, h_chars, h⟩ := bind_eq_ok.mp h
    obtain ⟨rest, h_rest, h⟩ := bind_eq_ok.mp h
    exact bind_eq_ok.mpr ⟨item, h_view.getItem h_item,
      bind_eq_ok.mpr ⟨chars, h_chars, bind_eq_ok.mpr ⟨rest, ih h_rest, h⟩⟩⟩

/-- `printQueue` on both sides. -/
theorem printQueue (h_view : View view) {str : ι → Except Fault (List UInt8)}
    {out : List Output} (h : Backend.printQueue str q = .ok out) :
    Backend.printQueue str (view q) = .ok out := by
  obtain ⟨empty, h_empty, h⟩ := bind_eq_ok.mp h
  refine bind_eq_ok.mpr ⟨empty, h_view.isEmpty h_empty, ?_⟩
  cases empty with
  | true => exact h
  | false =>
    simp only [Bool.false_eq_true, if_false] at h ⊢
    obtain ⟨front, h_front, h⟩ := bind_eq_ok.mp h
    obtain ⟨rear, h_rear, h⟩ := bind_eq_ok.mp h
    obtain ⟨items, h_items, h⟩ := bind_eq_ok.mp h
    exact bind_eq_ok.mpr ⟨front, h_view.getFront h_front, bind_eq_ok.mpr ⟨rear,
      h_view.getRear h_rear, bind_eq_ok.mpr ⟨items, h_view.printItems h_items, h⟩⟩⟩

end View

/-! ### What the stores keep -/

/-- The stores keep `I`. -/
structure Keeps {σ ι : Type} [QueueAccess σ ι] (I : σ → Prop) : Prop where
  setItem {q q' : σ} {i : ℤ} {x : ι} (hq : I q) (h : setItem q i x = .ok q') : I q'
  setFront {q q' : σ} {n : ℤ} (hq : I q) (h : setFront q n = .ok q') : I q'
  setRear {q q' : σ} {n : ℤ} (hq : I q) (h : setRear q n = .ok q') : I q'

namespace Keeps

variable {σ ι : Type} [QueueAccess σ ι] {I : σ → Prop} {q q' : σ}

/-- `initializeQueue` only stores. -/
theorem initializeQueue (h_keeps : Keeps I) (hq : I q)
    (h : Backend.initializeQueue q = .ok q') : I q' := by
  obtain ⟨q₁, h_front, h_rear⟩ := bind_eq_ok.mp h
  exact h_keeps.setRear (h_keeps.setFront hq h_front) h_rear

/-- `enqueue` stores a slot and perhaps `rear`, and nothing else. -/
theorem enqueue [LawfulQueueAccess σ ι] [CPointer ι] [DecidableEq ι] (h_keeps : Keeps I)
    {value : CharPtr} {malloc : Malloc ι} {out : List Output} (hq : I q)
    (h : Backend.enqueue q value malloc = .ok (q', out)) : I q' := by
  obtain ⟨rear, -, ⟨-, rfl, -⟩ | ⟨-, len, q₁, -, h_store, h_null | h_stored⟩⟩ :=
    enqueue_ok_cases h
  · exact hq
  · -- without memory only the slot was written
    obtain ⟨-, rfl, -⟩ := h_null
    exact h_keeps.setItem hq h_store
  · -- the slot first, `rear` after it
    exact h_keeps.setRear (h_keeps.setItem hq h_store) h_stored.2.2.1

/-- `dequeue` stores `front` at most. -/
theorem dequeue (h_keeps : Keeps I) {out : List Output} (hq : I q)
    (h : Backend.dequeue q = .ok (q', out)) : I q' := by
  obtain ⟨-, rfl⟩ | ⟨-, front, -, h_advance⟩ := dequeue_ok_cases h
  · exact hq
  · exact h_keeps.setFront hq h_advance

/-- So does every step of a run. -/
theorem write [LawfulQueueAccess σ ι] [CPointer ι] [DecidableEq ι] (h_keeps : Keeps I)
    {w : Write ι} (hq : I q) (h : w.next q = some q') : I q' := by
  obtain ⟨out, h_exec⟩ := Write.next_eq_some.mp h
  cases w with
  | enqueue value malloc => exact h_keeps.enqueue hq h_exec
  | dequeue => exact h_keeps.dequeue hq h_exec

end Keeps

/-! ### The structure itself -/

/-- `Queue`. -/
@[ext] structure Queue (ι : Type) where
  items : ℤ → ι
  front : ℤ
  rear : ℤ

namespace Queue

variable {ι : Type}

/-- The pending items, oldest first. -/
def contents (q : Queue ι) : List ι :=
  (List.range (q.rear - (q.front + 1)).toNat).map fun k : ℕ => q.items (q.front + 1 + k)

/-- As many items are pending as lie between the indices. -/
@[simp] theorem length_contents (q : Queue ι) :
    q.contents.length = (q.rear - (q.front + 1)).toNat := by
  rw [contents, List.length_map, List.length_range]

/-- An index of the array `items`. -/
def InArray (i : ℤ) : Prop := 0 ≤ i ∧ i < maxSize

instance (i : ℤ) : Decidable (InArray i) := inferInstanceAs (Decidable (_ ∧ _))

instance access : QueueAccess (Queue ι) ι where
  getItem q i := if InArray i then .ok (q.items i) else .error .outOfBounds
  getFront q := .ok q.front
  getRear q := .ok q.rear
  setItem q i x :=
    if InArray i then .ok { q with items := Function.update q.items i x } else .error .outOfBounds
  setFront q n := if InInt n then .ok { q with front := n } else .error .intOverflow
  setRear q n := if InInt n then .ok { q with rear := n } else .error .intOverflow

/-- A slot inside the array can be loaded. -/
theorem getItem_eq (q : Queue ι) {i : ℤ} (h : InArray i) : getItem q i = .ok (q.items i) :=
  if_pos h

@[simp] theorem getFront_eq (q : Queue ι) : getFront q = .ok q.front := rfl

@[simp] theorem getRear_eq (q : Queue ι) : getRear q = .ok q.rear := rfl

/-- It can be stored to. -/
theorem setItem_eq (q : Queue ι) {i : ℤ} (h : InArray i) (x : ι) :
    setItem q i x = .ok { q with items := Function.update q.items i x } :=
  if_pos h

theorem setFront_eq (q : Queue ι) {n : ℤ} (h : InInt n) :
    setFront q n = .ok { q with front := n } :=
  if_pos h

theorem setRear_eq (q : Queue ι) {n : ℤ} (h : InInt n) :
    setRear q n = .ok { q with rear := n } :=
  if_pos h

/-- A load of a slot is one inside the array. -/
theorem getItem_ok {q : Queue ι} {i : ℤ} {x : ι} (h : getItem q i = .ok x) :
    InArray i ∧ q.items i = x := by
  by_cases h_in : InArray i
  · rw [getItem_eq q h_in] at h
    exact ⟨h_in, Except.ok.inj h⟩
  · rw [show getItem q i = .error .outOfBounds from if_neg h_in] at h
    cases h

/-- A store to the array changes one slot. -/
theorem setItem_ok {q q' : Queue ι} {i : ℤ} {x : ι} (h : setItem q i x = .ok q') :
    InArray i ∧ q' = { q with items := Function.update q.items i x } := by
  by_cases h_in : InArray i
  · rw [setItem_eq q h_in] at h
    exact ⟨h_in, (Except.ok.inj h).symm⟩
  · rw [show setItem q i x = .error .outOfBounds from if_neg h_in] at h
    cases h

instance : LawfulQueueAccess (Queue ι) ι where
  getItem_setItem {q q' i x} h := by
    obtain ⟨h_in, rfl⟩ := setItem_ok h
    exact (getItem_eq _ h_in).trans (congrArg Except.ok (Function.update_self i x q.items))

/-- A store to `rear` changes nothing else. -/
theorem setRear_ok {q q' : Queue ι} {n : ℤ} (h : setRear q n = .ok q') :
    q' = { q with rear := n } := by
  by_cases h_in : InInt n
  · rw [setRear_eq q h_in] at h
    exact (Except.ok.inj h).symm
  · rw [show setRear q n = .error .intOverflow from if_neg h_in] at h
    cases h

/-- A store to `front` changes nothing else. -/
theorem setFront_ok {q q' : Queue ι} {n : ℤ} (h : setFront q n = .ok q') :
    q' = { q with front := n } := by
  by_cases h_in : InInt n
  · rw [setFront_eq q h_in] at h
    exact (Except.ok.inj h).symm
  · rw [show setFront q n = .error .intOverflow from if_neg h_in] at h
    cases h

@[simp] theorem isEmpty_eq (q : Queue ι) : isEmpty q = .ok (decide (q.front = q.rear - 1)) := rfl

@[simp] theorem isFull_eq (q : Queue ι) : isFull q = .ok (decide (q.rear = maxSize)) := rfl

/-- `initializeQueue` leaves the array as it was. -/
theorem initializeQueue_eq (q : Queue ι) :
    initializeQueue q = .ok { q with front := -1, rear := 0 } := by
  unfold initializeQueue
  rw [setFront_eq q (show InInt (-1) by decide)]
  exact setRear_eq _ (show InInt 0 by decide)

end Queue

/-! ### Where `front` and `rear` may be -/

/-- The bounds on `front` and `rear`: `-1 ≤ front ≤ rear - 1` and `0 ≤ rear ≤ MAX_SIZE`. -/
structure Shape {ι : Type} (q : Queue ι) : Prop where
  front_ge : -1 ≤ q.front
  front_le : q.front ≤ q.rear - 1
  rear_ge : 0 ≤ q.rear
  rear_le : q.rear ≤ maxSize

namespace Shape

variable {ι : Type} {q : Queue ι}

/-- While there is room, `rear` is an index of the array. -/
theorem rear_inArray (h : Shape q) (h_room : q.rear ≠ maxSize) : Queue.InArray q.rear :=
  ⟨h.rear_ge, lt_of_le_of_ne h.rear_le h_room⟩

/-- Then it can be incremented. -/
theorem rear_inInt (h : Shape q) (h_room : q.rear ≠ maxSize) : InInt (q.rear + 1) := by
  have h_in := h.rear_inArray h_room
  have h_low := h_in.1
  have h_high := h_in.2
  rw [maxSize_eq] at h_high
  constructor <;> omega

/-- `front` can always be incremented. -/
theorem front_inInt (h : Shape q) : InInt (q.front + 1) := by
  have h_low := h.front_ge
  have h_mid := h.front_le
  have h_high := h.rear_le
  rw [maxSize_eq] at h_high
  constructor <;> omega

/-- A queue with room takes a new item at `rear`. -/
theorem push (h : Shape q) (h_room : q.rear ≠ maxSize) (item : ι) :
    Shape { q with items := Function.update q.items q.rear item, rear := q.rear + 1 } where
  front_ge := h.front_ge
  front_le := by have := h.front_le; dsimp only; omega
  rear_ge := by have := h.rear_ge; dsimp only; omega
  rear_le := (h.rear_inArray h_room).2

/-- A queue with a pending item lets its `front` move on. -/
theorem pop (h : Shape q) (h_pending : q.front ≠ q.rear - 1) :
    Shape { q with front := q.front + 1 } where
  front_ge := by have := h.front_ge; dsimp only; omega
  front_le := by have := h.front_le; dsimp only; omega
  rear_ge := h.rear_ge
  rear_le := h.rear_le

/-- `enqueue` keeps the bounds. -/
theorem enqueue [CPointer ι] [DecidableEq ι] {q' : Queue ι} {value : CharPtr} {malloc : Malloc ι}
    {out : List Output} (h : Shape q) (h_enqueue : Backend.enqueue q value malloc = .ok (q', out)) :
    Shape q' := by
  obtain ⟨rear, h_rear, ⟨-, rfl, -⟩ | ⟨h_room, len, q₁, -, h_store, h_null | h_stored⟩⟩ :=
    enqueue_ok_cases h_enqueue
  · exact h
  · obtain ⟨-, rfl⟩ := Queue.setItem_ok h_store
    obtain ⟨-, rfl, -⟩ := h_null
    exact ⟨h.front_ge, h.front_le, h.rear_ge, h.rear_le⟩
  · obtain rfl : q.rear = rear := Except.ok.inj h_rear
    obtain ⟨-, rfl⟩ := Queue.setItem_ok h_store
    rw [Queue.setRear_ok h_stored.2.2.1]
    exact h.push h_room _

end Shape

end Backend
end WateRMQ
