import WateRMQ.Backend.Consuming
import WateRMQ.Frontend.Queue

/-!
# From a message body to a string

The bytes of a message on their way from the library to a reader: `rabbitmqConsuming_private` casts
`body.bytes` to `const char *`, `enqueue` measures it with `strlen` and copies it, and
`_readMessage` turns the copy into a `string`.

`not_survives`: no body makes it to the reader as a copy should make it. A scan that ends within the
body has met a zero there (`Survives.zero_mem`), and what comes out of a `string` constructor holds
no zero (`Survives.zero_notMem`). A text comes back when a zero happens to lie behind it
(`text_comes_back`), and then that zero was read.
-/

namespace WateRMQ

open CMem Backend

/-- The number of bytes that `enqueue` reads of its argument: `strlen` reads up to the terminator,
and `memcpy` as many as it is given. -/
def bytesRead (value : CharPtr) : Except Fault ℕ := do
  let len ← strlen value
  return max (len + 1) (copySize len)

/-- A reader that may go ahead, with a queue whose front slot holds `slot`. -/
structure Reads (w : Frontend.WateRMQ Slot) (slot : Slot) : Prop where
  sem : ∃ value, w.sem = some (value + 1)
  queue : ∃ q, w.ptrQueue = some q ∧ Frontend.InArray q.front ∧ 0 < q.count ∧
    q.count ≤ Frontend.maxSize ∧ q.items q.front = slot

/-- Every reader of `slot` gets the string `r`. -/
def ComesBack (slot : Slot) (r : List UInt8) : Prop :=
  ∀ w, Reads w slot → ∃ w', Frontend.readMessage Slot.string w = .ok (r, w')

/-- No reader of `slot` that consumes it gets the empty string, the answer without a message. -/
def Distinct (slot : Slot) : Prop :=
  ∀ w r w', Reads w slot → Frontend.readMessage Slot.string w = .ok (r, w') →
    w'.ptrQueue ≠ w.ptrQueue → r ≠ []

/-- **The bytes of `body` survive the copy path**, where `behind` lies behind them and `q` is the
queue: no byte outside of them is read, and they are stored in a slot from which exactly these
bytes come back, told apart from no message. -/
structure Survives (body behind : List UInt8) (q : Backend.Queue Slot) : Prop where
  inside : ∃ n, bytesRead (bodyBytes body behind) = .ok n ∧ n ≤ body.length
  stored : ∃ q', Backend.enqueue q (bodyBytes body behind) Malloc.succeeds = .ok (q', []) ∧
    ComesBack (q'.items q.rear) body ∧ Distinct (q'.items q.rear)

/-! ### Readers -/

/-- A reader of `slot`. -/
def reader (slot : Slot) : Frontend.WateRMQ Slot where
  sem := some 1
  ptrQueue := some ⟨fun _ => slot, 0, 1, 1⟩
  freed := []

theorem reads_reader (slot : Slot) : Reads (reader slot) slot where
  sem := ⟨0, rfl⟩
  queue := ⟨_, rfl, ⟨le_rfl, show (0 : ℤ) < Frontend.maxSize by decide⟩, Int.zero_lt_one,
    show (1 : ℤ) ≤ Frontend.maxSize by decide, rfl⟩

/-- A reader gets the string of its slot, or the empty string when the slot is null. -/
theorem Reads.readMessage_ok {w w' : Frontend.WateRMQ Slot} {slot : Slot} {r : List UInt8}
    (h : Reads w slot) (h_read : Frontend.readMessage Slot.string w = .ok (r, w')) :
    r = [] ∨ slot.string = .ok r := by
  obtain ⟨⟨value, h_sem⟩, q, h_queue, h_front, h_pos, h_le, rfl⟩ := h
  by_cases h_null : q.items q.front = CPointer.null
  · rw [Frontend.readMessage_of_null h_sem h_queue h_pos.ne' h_front h_null] at h_read
    cases h_read
    exact Or.inl rfl
  -- the front slot is the one in question, and its string is what is returned
  · have h_int : InInt (q.count - 1) := by
      rw [Frontend.maxSize_eq] at h_le
      constructor <;> omega
    cases h_str : (q.items q.front).string with
    | error f =>
      rw [Frontend.readMessage_of_fault h_sem h_queue h_pos.ne' h_front h_null h_str] at h_read
      cases h_read
    | ok s =>
      rw [Frontend.readMessage_of_string h_sem h_queue h_pos.ne' h_front h_null h_str h_int]
        at h_read
      cases h_read
      exact Or.inr rfl

/-- What can be read from a slot comes back. -/
theorem comesBack_of_string {slot : Slot} {s : List UInt8} (h_str : slot.string = .ok s) :
    ComesBack slot s := by
  rintro w ⟨⟨value, h_sem⟩, q, h_queue, h_front, h_pos, h_le, rfl⟩
  have h_null : q.items q.front ≠ CPointer.null := by
    intro h
    rw [h] at h_str
    cases h_str
  have h_int : InInt (q.count - 1) := by
    rw [Frontend.maxSize_eq] at h_le
    constructor <;> omega
  exact ⟨_, Frontend.readMessage_of_string h_sem h_queue h_pos.ne' h_front h_null h_str h_int⟩

/-- The string of a slot holds no zero. -/
theorem zero_notMem_of_string {slot : Slot} {s : List UInt8} (h : slot.string = .ok s) :
    (0 : UInt8) ∉ s := by
  cases slot with
  | uninit => cases h
  | null => cases h
  | block bytes => exact zero_notMem_of_readString h

/-- **A text with a zero behind it comes back.** -/
theorem text_comes_back {m : CStr} {q : Backend.Queue Slot} (h_nonempty : m.chars ≠ [])
    (h_len : m.length + 1 < 2 ^ 31) (h_shape : Shape q) (h_room : q.rear ≠ maxSize) :
    ∃ q', Backend.enqueue q (bodyBytes m.chars [0]) Malloc.succeeds = .ok (q', []) ∧
      ComesBack (q'.items q.rear) m.chars := by
  have h_copy := copySize_of_lt h_len
  -- with the zero behind it the body is a C string
  have h_ptr : bodyBytes m.chars [0] = m.ptr := if_neg h_nonempty
  have h_malloc : Malloc.succeeds (copySize m.length) (m.ptr.take (copySize m.length)) =
      copied m := rfl
  have h_enqueue := enqueue_ptr m (Queue.getRear_eq q) h_room h_malloc
    (Queue.setItem_eq q (h_shape.rear_inArray h_room) _) rfl
    (Queue.setRear_eq _ (h_shape.rear_inInt h_room))
  rw [if_neg (by exact Slot.noConfusion), if_pos h_copy.le] at h_enqueue
  refine ⟨_, by rw [h_ptr]; exact h_enqueue, comesBack_of_string ?_⟩
  dsimp only
  rw [Function.update_self, copied_eq_held h_copy]
  exact readString_bytes m

/-! ### No body survives -/

namespace Survives

variable {body behind : List UInt8} {q : Backend.Queue Slot}

/-- A scan that stays inside the body has met a zero there. -/
theorem zero_mem (h : Survives body behind q) : (0 : UInt8) ∈ body := by
  obtain ⟨n, h_read, h_le⟩ := h.inside
  obtain ⟨len, h_len, h_read⟩ := bind_eq_ok.mp h_read
  obtain rfl := Except.ok.inj h_read
  unfold bodyBytes at h_len
  split at h_len
  · cases h_len
  · rw [strlen] at h_len
    split at h_len
    -- the first zero of `body ++ behind` lies within the first `n` bytes
    next h_mem =>
      obtain rfl := Except.ok.inj h_len
      have h_idx : (body ++ behind).idxOf 0 < body.length := by omega
      rwa [← List.mem_take_iff_idxOf_lt h_mem, List.take_left] at h_idx
    · cases h_len

/-- What comes back as it was holds no zero. -/
theorem zero_notMem (h : Survives body behind q) : (0 : UInt8) ∉ body := by
  obtain ⟨q', -, h_back, -⟩ := h.stored
  obtain ⟨w', h_read⟩ := h_back _ (reads_reader _)
  -- one reader is enough
  rcases (reads_reader _).readMessage_ok h_read with rfl | h_string
  · exact List.not_mem_nil
  · exact zero_notMem_of_string h_string

end Survives

/-- **No body survives the copy path.** -/
theorem not_survives (body behind : List UInt8) (q : Backend.Queue Slot) :
    ¬ Survives body behind q :=
  fun h => h.zero_notMem h.zero_mem

/-- The body `"a"`, in front of a `'b'` and a zero: what is stored, and comes back, is `"ab"`. -/
theorem byte_behind_stored :
    (∃ q', Backend.enqueue (⟨fun _ => .uninit, -1, 0⟩ : Backend.Queue Slot)
        (bodyBytes [97] [98, 0]) Malloc.succeeds = .ok (q', []) ∧
          ComesBack (q'.items 0) [97, 98]) ∧
      bytesRead (bodyBytes [97] [98, 0]) = .ok 3 ∧
      ¬ Survives [97] [98, 0] ⟨fun _ => .uninit, -1, 0⟩ := by
  have h_text := text_comes_back (m := ⟨[97, 98], by decide⟩)
    (q := ⟨fun _ => .uninit, -1, 0⟩) (by simp) (by simp [CStr.length])
    ⟨by decide, by decide, by decide, by decide⟩ (by decide)
  refine ⟨h_text, ?_, fun h => absurd h.zero_mem (by decide)⟩
  change Except.ok (max 3 (copySize 2)) = .ok 3
  rw [copySize_of_lt (by decide)]
  rfl

end WateRMQ
