import WateRMQ.Lib.CString

/-!
# The frontend's queue

`Queue` of `WateRMQ.hpp` and the functions of `WateRMQ.cpp` that read it: `_isEmpty`, `_isFull`,
`_peek`, `_readMessage` and `consumingMessage`. The queue is meant as a ring of `MAX_SIZE` slots
whose pending messages start *at* `front` and are `count` many.

`_readMessage` is given twice: once with one load of the slot at `front`, and once, in `Checked`,
with the check of every access; `Checked.readMessage_eq` says that they are one function.

The macro `MAX_SIZE` is `4096 * 10` without parentheses, so `(front + 1) % MAX_SIZE` is
`((front + 1) % 4096) * 10` (`advance`). `advance_eq_iff` says where this is the next slot of the
ring: only in front of the wrap-around.
-/

namespace WateRMQ
namespace Frontend

open CMem

/-! ### The data model -/

/-- `MAX_SIZE`, where it stands alone: the dimension of `items` and the bound of `_isFull`. -/
def maxSize : ℤ := 4096 * 10

theorem maxSize_eq : maxSize = 40960 := rfl

/-- `(front + 1) % MAX_SIZE`, with the macro replaced by its text. -/
def advance (front : ℤ) : ℤ := (front + 1).tmod 4096 * 10

/-- An index of the array `items`. -/
def InArray (i : ℤ) : Prop := 0 ≤ i ∧ i < maxSize

instance (i : ℤ) : Decidable (InArray i) := inferInstanceAs (Decidable (_ ∧ _))

/-- `Queue`. -/
@[ext] structure Queue (ι : Type) where
  items : ℤ → ι
  front : ℤ
  rear : ℤ
  count : ℤ

set_option linter.dupNamespace false in
/-- The members of `WateRMQ` that a reader uses, with what they point to: `_sem`, by the value of
its semaphore, and `_ptr_queue`. `freed` lists the pointers that were passed to `free`, the newest
first. -/
structure WateRMQ (ι : Type) where
  sem : Option ℕ
  ptrQueue : Option (Queue ι)
  freed : List ι

/-- Why a call does not return: it waits for a semaphore, or the program ends. -/
inductive Stop
  | blocked
  | fault (f : Fault)
  deriving DecidableEq

/-! ### The functions of the source -/

/-- `SemaphoreCPP::wait`. -/
def wait : ℕ → Except Stop ℕ
  | 0 => .error .blocked
  | value + 1 => .ok value

/-- `SemaphoreCPP::post`. -/
def post (value : ℕ) : ℕ := value + 1

section Functions

variable {ι : Type} [CPointer ι] [DecidableEq ι]

/-- `_isEmpty`. -/
def isEmpty (q : Queue ι) : Bool := decide (q.count = 0)

/-- `_isFull`. -/
def isFull (q : Queue ι) : Bool := decide (q.count = maxSize)

/-- `_peek`. -/
def peek (q : Queue ι) : Except Stop ι :=
  if isEmpty q then return CPointer.null
  else if InArray q.front then return q.items q.front
  else throw (.fault .outOfBounds)

/-- What `_readMessage` does to the queue once it has a message: the slot is cleared, `front`
advances and `count` goes down. -/
def Queue.pop (q : Queue ι) : Queue ι where
  items := Function.update q.items q.front CPointer.null
  front := advance q.front
  rear := q.rear
  count := q.count - 1

/-- `_readMessage`; `str` is `string(const char *)` on the memory as the call finds it. The slot at
`front` is loaded once here; `Checked.readMessage` has every access of the source. -/
def readMessage (str : ι → Except Fault (List UInt8)) (w : WateRMQ ι) :
    Except Stop (List UInt8 × WateRMQ ι) :=
  match w.sem with
  | none => return ([], w)
  | some value => do
    let value ← wait value
    match w.ptrQueue with
    | none => throw (.fault .nullPointer)
    | some q =>
      let msg ← peek q
      if msg = CPointer.null then
        return ([], { w with sem := some (post value) })
      else
        match str msg with
        | .error f => throw (.fault f)
        | .ok result =>
          if InInt (q.count - 1) then
            return (result,
              { sem := some (post value), ptrQueue := some q.pop, freed := msg :: w.freed })
          else throw (.fault .intOverflow)

/-- `consumingMessage`. -/
def consumingMessage (str : ι → Except Fault (List UInt8)) (w : WateRMQ ι) :
    Except Stop (List UInt8 × WateRMQ ι) :=
  readMessage str w

/-- `string(const char *)` on a memory in which the pointers `freed` were freed. -/
def afterFree (str : ι → Except Fault (List UInt8)) (freed : List ι) (p : ι) :
    Except Fault (List UInt8) :=
  if p ∈ freed then .error .useAfterFree else str p

omit [CPointer ι] in
@[simp] theorem afterFree_nil (str : ι → Except Fault (List UInt8)) : afterFree str [] = str :=
  funext fun _ => if_neg List.not_mem_nil

end Functions

/-! ### The functions with a check at every access -/

namespace Checked

variable {ι : Type} [CPointer ι] [DecidableEq ι]

/-- `q->items[i]`. -/
def getItem (q : Queue ι) (i : ℤ) : Except Stop ι :=
  if InArray i then return q.items i else throw (.fault .outOfBounds)

/-- `q->items[i] = x`. -/
def setItem (q : Queue ι) (i : ℤ) (x : ι) : Except Stop (Queue ι) :=
  if InArray i then return { q with items := Function.update q.items i x }
  else throw (.fault .outOfBounds)

/-- `free(p)`, where `freed` was freed before. -/
def free (freed : List ι) (p : ι) : Except Stop (List ι) :=
  if p ∈ freed then throw (.fault .useAfterFree) else return p :: freed

/-- `string(p)`. -/
def string (str : ι → Except Fault (List UInt8)) (freed : List ι) (p : ι) :
    Except Stop (List UInt8) :=
  (afterFree str freed p).mapError .fault

/-- `_peek`. -/
def peek (q : Queue ι) : Except Stop ι :=
  if isEmpty q then return CPointer.null else getItem q q.front

/-- `_readMessage`. -/
def readMessage (str : ι → Except Fault (List UInt8)) (w : WateRMQ ι) :
    Except Stop (List UInt8 × WateRMQ ι) :=
  match w.sem with
  | none => return ([], w)
  | some value => do
    let value ← wait value
    match w.ptrQueue with
    | none => throw (.fault .nullPointer)
    | some q =>
      let msg ← peek q
      if msg = CPointer.null then return ([], { w with sem := some (post value) })
      else
        let result ← string str w.freed msg
        let item ← getItem q q.front
        let freed ← free w.freed item
        let q ← setItem q q.front CPointer.null
        if InInt (q.front + 1) ∧ InInt (q.count - 1) then
          let q := { q with front := advance q.front, count := q.count - 1 }
          return (result, { sem := some (post value), ptrQueue := some q, freed := freed })
        else throw (.fault .intOverflow)

/-- `consumingMessage`. -/
def consumingMessage (str : ι → Except Fault (List UInt8)) (w : WateRMQ ι) :
    Except Stop (List UInt8 × WateRMQ ι) :=
  readMessage str w

omit [CPointer ι] [DecidableEq ι] in
theorem getItem_of_inArray {q : Queue ι} {i : ℤ} (h : InArray i) :
    getItem q i = .ok (q.items i) :=
  if_pos h

omit [CPointer ι] [DecidableEq ι] in
theorem setItem_of_inArray {q : Queue ι} {i : ℤ} (h : InArray i) (x : ι) :
    setItem q i x = .ok { q with items := Function.update q.items i x } :=
  if_pos h

omit [CPointer ι] [DecidableEq ι] in
theorem inInt_front {q : Queue ι} (h : InArray q.front) : InInt (q.front + 1) := by
  obtain ⟨h_low, h_high⟩ := h
  rw [maxSize_eq] at h_high
  constructor <;> omega

/-- **The two are one function.** A pointer whose string was read can be freed, and an index that
was loaded from can be stored to. -/
theorem readMessage_eq (str : ι → Except Fault (List UInt8)) (w : WateRMQ ι) :
    readMessage str w = Frontend.readMessage (afterFree str w.freed) w := by
  unfold readMessage Frontend.readMessage
  cases w.sem with
  | none => rfl
  | some value =>
    cases value with
    | zero => rfl
    | succ value =>
      cases w.ptrQueue with
      | none => rfl
      | some q =>
        simp only [wait, bind, Except.bind, peek, Frontend.peek, getItem]
        by_cases h_empty : isEmpty q = true
        · simp only [if_pos h_empty, pure, Except.pure, if_true]
        · by_cases h_front : InArray q.front
          · simp only [if_neg h_empty, if_pos h_front, pure, Except.pure, string]
            by_cases h_null : q.items q.front = CPointer.null
            · simp only [if_pos h_null]
            · simp only [if_neg h_null]
              cases h_str : afterFree str w.freed (q.items q.front) with
              | error f => rfl
              | ok s =>
                -- what was read had not been freed
                have h_free : free w.freed (q.items q.front) =
                    .ok (q.items q.front :: w.freed) := by
                  refine if_neg fun h_mem => ?_
                  rw [afterFree, if_pos h_mem] at h_str
                  cases h_str
                simp only [Except.mapError, h_free, setItem_of_inArray h_front,
                  inInt_front h_front, true_and]
                rfl
          · simp only [if_neg h_empty, if_neg h_front]
            rfl

end Checked

/-! ### The advance of `front` -/

theorem advance_of_nonneg {front : ℤ} (h : 0 ≤ front) :
    advance front = (front + 1) % 4096 * 10 := by
  rw [advance, Int.tmod_eq_emod_of_nonneg (by omega)]

/-- `front` stays inside the array. -/
theorem advance_inArray {front : ℤ} (h : 0 ≤ front) : InArray (advance front) := by
  rw [advance_of_nonneg h, InArray, maxSize_eq]
  omega

/-- A position of the ring, taken modulo its size, is an index of the array. -/
theorem emod_inArray (i : ℤ) : InArray (i % maxSize) :=
  ⟨Int.emod_nonneg _ (by decide), Int.emod_lt_of_pos _ (by decide)⟩

theorem emod_of_inArray {i : ℤ} (h : InArray i) : i % maxSize = i :=
  Int.emod_eq_of_lt h.1 h.2

/-- **The slot that `front` moves to is the next one of the ring only at the wrap-around.** -/
theorem advance_eq_iff {front : ℤ} (h : InArray front) :
    advance front = (front + 1) % maxSize ↔ front = maxSize - 1 := by
  obtain ⟨h_low, h_high⟩ := h
  rw [maxSize_eq] at h_high ⊢
  rw [advance_of_nonneg h_low]
  omega

/-! ### The outcome of `_readMessage` -/

section Outcomes

variable {ι : Type} [CPointer ι] [DecidableEq ι] {str : ι → Except Fault (List UInt8)}
  {w : WateRMQ ι} {q : Queue ι} {value : ℕ}

omit [DecidableEq ι] in
theorem peek_of_pending (h_count : q.count ≠ 0) (h_front : InArray q.front) :
    peek q = .ok (q.items q.front) := by
  rw [peek, isEmpty, decide_eq_false h_count, if_neg Bool.false_ne_true, if_pos h_front]
  rfl

/-- A slot with a string is delivered and cleared. -/
theorem readMessage_of_string {s : List UInt8} (h_sem : w.sem = some (value + 1))
    (h_queue : w.ptrQueue = some q) (h_count : q.count ≠ 0) (h_front : InArray q.front)
    (h_null : q.items q.front ≠ CPointer.null) (h_str : str (q.items q.front) = .ok s)
    (h_int : InInt (q.count - 1)) :
    readMessage str w =
      .ok (s, { sem := w.sem, ptrQueue := some q.pop, freed := q.items q.front :: w.freed }) := by
  unfold readMessage
  rw [h_sem]
  simp only [wait, h_queue, peek_of_pending h_count h_front, bind, Except.bind, if_neg h_null,
    h_str, if_pos h_int]
  rfl

/-- A null slot is no message, and changes nothing: the next call finds it again. -/
theorem readMessage_of_null (h_sem : w.sem = some (value + 1)) (h_queue : w.ptrQueue = some q)
    (h_count : q.count ≠ 0) (h_front : InArray q.front)
    (h_null : q.items q.front = CPointer.null) : readMessage str w = .ok ([], w) := by
  unfold readMessage
  rw [h_sem]
  simp only [wait, h_queue, peek_of_pending h_count h_front, bind, Except.bind, if_pos h_null]
  rw [post, ← h_sem, ← h_queue]
  rfl

/-- A slot whose string cannot be read ends the program. -/
theorem readMessage_of_fault {f : Fault} (h_sem : w.sem = some (value + 1))
    (h_queue : w.ptrQueue = some q) (h_count : q.count ≠ 0) (h_front : InArray q.front)
    (h_null : q.items q.front ≠ CPointer.null) (h_str : str (q.items q.front) = .error f) :
    readMessage str w = .error (.fault f) := by
  unfold readMessage
  rw [h_sem]
  simp only [wait, h_queue, peek_of_pending h_count h_front, bind, Except.bind, if_neg h_null,
    h_str]
  rfl

/-- The string in slot `i`, when the slot is not null and its string can be read. -/
def string (str : ι → Except Fault (List UInt8)) (q : Queue ι) (i : ℤ) : Option (List UInt8) :=
  if q.items i = CPointer.null then none else (str (q.items i)).toOption

/-- **Everything `_readMessage` can do on a pending queue**: it delivers the string of the front
slot, or finds that slot null and changes nothing. -/
theorem readMessage_ok_cases {w' : WateRMQ ι} {r : List UInt8}
    (h_sem : w.sem = some (value + 1)) (h_queue : w.ptrQueue = some q) (h_count : q.count ≠ 0)
    (h_front : InArray q.front) (h_int : InInt (q.count - 1))
    (h : readMessage str w = .ok (r, w')) :
    (string str q q.front = some r ∧ w'.sem = w.sem ∧ w'.ptrQueue = some q.pop ∧
        w'.freed = q.items q.front :: w.freed) ∨
      (q.items q.front = CPointer.null ∧ w' = w) := by
  -- a null slot, a string, or a slot whose string ends the program
  by_cases h_null : q.items q.front = CPointer.null
  · rw [readMessage_of_null h_sem h_queue h_count h_front h_null] at h
    cases h
    exact Or.inr ⟨h_null, rfl⟩
  · cases h_str : str (q.items q.front) with
    | error f =>
      rw [readMessage_of_fault h_sem h_queue h_count h_front h_null h_str] at h
      cases h
    | ok s =>
      rw [readMessage_of_string h_sem h_queue h_count h_front h_null h_str h_int] at h
      cases h
      exact Or.inl ⟨by rw [string, if_neg h_null, h_str]; rfl, rfl, rfl, rfl⟩

/-- A front slot with a string is delivered. -/
theorem readMessage_of_string_eq {s : List UInt8} (h_sem : w.sem = some (value + 1))
    (h_queue : w.ptrQueue = some q) (h_count : q.count ≠ 0) (h_front : InArray q.front)
    (h_int : InInt (q.count - 1)) (h : string str q q.front = some s) :
    ∃ w', readMessage str w = .ok (s, w') ∧ w'.sem = w.sem ∧ w'.ptrQueue = some q.pop ∧
      w'.freed = q.items q.front :: w.freed := by
  unfold string at h
  split at h
  · cases h
  next h_null =>
    cases h_str : str (q.items q.front) with
    | error f => rw [h_str] at h; cases h
    | ok t =>
      rw [h_str] at h
      cases h
      exact ⟨_, readMessage_of_string h_sem h_queue h_count h_front h_null h_str h_int,
        rfl, rfl, rfl⟩

end Outcomes

end Frontend
end WateRMQ
