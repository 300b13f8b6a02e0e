import WateRMQ.Frontend.LifeCycle

/-!
# Freeing the messages

Runs of `_readMessage` and the sweep of `_cleanup`, with a check at every access to `items` and at
every `free`: an index must be in the array, and a pointer is freed once and not read afterwards.
With these checks a sweep that goes through is one that needs none (`Checked.freeItems_eq`).

A queue is given as it may be found in the shared memory: `front` and `count` are in their ranges,
and no pointer lies in two slots. That it is a ring, or that `count` fits the slots, is not asked
for. The invariant is that what is in a slot has not been freed (`Unfreed`): whoever frees a pointer
clears its slot.
-/

namespace WateRMQ
namespace Frontend

open CMem

namespace Checked

/-! ### Calls and the sweep -/

section Functions

variable {ι : Type} [CPointer ι] [DecidableEq ι]

/-- Calls of `_readMessage`, with the strings that they return. -/
def readMessages (str : ι → Except Fault (List UInt8)) :
    ℕ → WateRMQ ι → Except Stop (List (List UInt8) × WateRMQ ι)
  | 0, w => return ([], w)
  | n + 1, w => do
    let (s, w) ← readMessage str w
    let (log, w) ← readMessages str n w
    return (s :: log, w)

/-- The loop of `_cleanup` over the first slots of `items`. -/
def freeItems (q : Queue ι) (freed : List ι) : ℕ → Except Stop (Queue ι × List ι)
  | 0 => return (q, freed)
  | i + 1 => do
    let (q, freed) ← freeItems q freed i
    let item ← getItem q i
    if item = CPointer.null then return (q, freed)
    else
      let item ← getItem q i
      let freed ← free freed item
      let q ← setItem q i CPointer.null
      return (q, freed)

end Functions

variable {ι : Type} [CPointer ι] [DecidableEq ι] {str : ι → Except Fault (List UInt8)}
  {w : WateRMQ ι} {q : Queue ι} {freed : List ι} {value : ℕ} {i : ℤ}

/-! ### What is in the slots -/

omit [DecidableEq ι] in
/-- No pointer lies in two slots. -/
def Distinct (q : Queue ι) : Prop :=
  ∀ i j, InArray i → InArray j → q.items i ≠ CPointer.null → q.items i = q.items j → i = j

omit [DecidableEq ι] in
/-- `front` and `count` are in their ranges. -/
structure InRange (q : Queue ι) : Prop where
  front : InArray q.front
  count_ge : 0 ≤ q.count
  count_le : q.count ≤ maxSize

omit [DecidableEq ι] in
/-- No pointer lies in two slots, none was freed twice, and none that lies in a slot was freed. -/
structure Unfreed (q : Queue ι) (freed : List ι) : Prop where
  distinct : Distinct q
  nodup : freed.Nodup
  notMem : ∀ i, InArray i → q.items i ≠ CPointer.null → q.items i ∉ freed

omit [DecidableEq ι] in
/-- **Freeing a slot and clearing it.** -/
theorem Unfreed.clear (h : Unfreed q freed) (h_i : InArray i)
    (h_null : q.items i ≠ CPointer.null) :
    Unfreed { q with items := Function.update q.items i CPointer.null } (q.items i :: freed) := by
  refine ⟨?_, List.nodup_cons.mpr ⟨h.notMem i h_i h_null, h.nodup⟩, ?_⟩
  · intro j k h_j h_k h_ne h_eq
    dsimp only at h_ne h_eq
    -- a slot that is not null is not the one that was cleared
    by_cases h_ji : j = i
    · rw [h_ji, Function.update_self] at h_ne
      exact absurd rfl h_ne
    · rw [Function.update_of_ne h_ji] at h_ne h_eq
      by_cases h_ki : k = i
      · rw [h_ki, Function.update_self] at h_eq
        exact absurd h_eq h_ne
      · rw [Function.update_of_ne h_ki] at h_eq
        exact h.distinct j k h_j h_k h_ne h_eq
  · intro j h_j h_ne
    dsimp only at h_ne ⊢
    by_cases h_ji : j = i
    · rw [h_ji, Function.update_self] at h_ne
      exact absurd rfl h_ne
    · rw [Function.update_of_ne h_ji] at h_ne ⊢
      -- the pointer in another slot is another pointer
      rw [List.mem_cons, not_or]
      exact ⟨fun h_eq => h_ji (h.distinct j i h_j h_i h_ne h_eq), h.notMem j h_j h_ne⟩

omit [DecidableEq ι] in
/-- Only the slots matter. -/
theorem Unfreed.congr {q' : Queue ι} (h : Unfreed q freed) (h_items : q'.items = q.items) :
    Unfreed q' freed := by
  obtain ⟨h_distinct, h_nodup, h_notMem⟩ := h
  refine ⟨?_, h_nodup, ?_⟩
  · rw [Distinct, h_items]
    exact h_distinct
  · rw [h_items]
    exact h_notMem

theorem Unfreed.free_eq (h : Unfreed q freed) (h_i : InArray i)
    (h_null : q.items i ≠ CPointer.null) : free freed (q.items i) = .ok (q.items i :: freed) :=
  if_neg (h.notMem i h_i h_null)

theorem Unfreed.string_eq (h : Unfreed q freed) (h_i : InArray i)
    (h_null : q.items i ≠ CPointer.null) :
    string str freed (q.items i) = (str (q.items i)).mapError .fault :=
  congrArg _ (if_neg (h.notMem i h_i h_null))

/-! ### One call, and the sweep -/

omit [DecidableEq ι] in
/-- The queue after a message was taken from it. -/
theorem InRange.pop (h : InRange q) (h_count : q.count ≠ 0) : InRange q.pop where
  front := advance_inArray h.front.1
  count_ge := by have := h.count_ge; dsimp only [Queue.pop]; omega
  count_le := by have := h.count_le; dsimp only [Queue.pop]; omega

omit [DecidableEq ι] in
theorem InRange.peek_eq (h : InRange q) : peek q = Frontend.peek q := by
  rw [peek, Frontend.peek, getItem, if_pos h.front]

omit [CPointer ι] [DecidableEq ι] in
theorem InRange.inInt (h : InRange q) : InInt (q.front + 1) ∧ InInt (q.count - 1) := by
  have h_front := h.front
  have h_ge := h.count_ge
  have h_le := h.count_le
  rw [InArray, maxSize_eq] at h_front
  rw [maxSize_eq] at h_le
  refine ⟨⟨?_, ?_⟩, ⟨?_, ?_⟩⟩ <;> omega

/-- What a call of `_readMessage` may come to, on the queue `q`: there is no message, it changes
nothing and returns the empty string; or it frees the pointer in the slot at `front`, clears the
slot, counts one message less and returns the string; or this string cannot be read. -/
inductive ReadsOnce (str : ι → Except Fault (List UInt8)) (w : WateRMQ ι) (q : Queue ι) :
    Except Stop (List UInt8 × WateRMQ ι) → Prop
  | nothing (h_none : q.count = 0 ∨ q.items q.front = CPointer.null) :
    ReadsOnce str w q (.ok ([], w))
  | message {s : List UInt8} {q' : Queue ι} (h_null : q.items q.front ≠ CPointer.null)
    (h_str : str (q.items q.front) = .ok s)
    (h_items : q'.items = Function.update q.items q.front CPointer.null)
    (h_rear : q'.rear = q.rear) (h_count : q'.count = q.count - 1) :
    ReadsOnce str w q (.ok (s,
      { sem := w.sem, ptrQueue := some q', freed := q.items q.front :: w.freed }))
  | unreadable {f : Fault} (h_null : q.items q.front ≠ CPointer.null)
    (h_str : str (q.items q.front) = .error f) : ReadsOnce str w q (.error (.fault f))

/-- The object of a reader that may go ahead. -/
structure Ready (w : WateRMQ ι) (q : Queue ι) : Prop where
  sem : ∃ value, w.sem = some (value + 1)
  queue : w.ptrQueue = some q
  range : InRange q
  unfreed : Unfreed q w.freed

/-- **One call of `_readMessage`**: there is no message, or the first message is taken, or its
string cannot be read. -/
theorem Ready.readMessage_cases (h : Ready w q) (str : ι → Except Fault (List UInt8)) :
    ((q.count = 0 ∨ q.items q.front = CPointer.null) ∧ readMessage str w = .ok ([], w)) ∨
    (q.count ≠ 0 ∧ q.items q.front ≠ CPointer.null ∧
      ((∃ s, str (q.items q.front) = .ok s ∧ readMessage str w = .ok (s,
          { sem := w.sem, ptrQueue := some q.pop, freed := q.items q.front :: w.freed })) ∨
        ∃ f, str (q.items q.front) = .error f ∧ readMessage str w = .error (.fault f))) := by
  obtain ⟨⟨value, h_sem⟩, h_queue, h_range, h_unfreed⟩ := h
  -- `wait` and `post` together leave the semaphore as it was
  have h_post : ({ sem := some (post value), ptrQueue := some q, freed := w.freed } : WateRMQ ι) =
      w := by
    rw [post, ← h_sem, ← h_queue]
  unfold readMessage
  rw [h_sem]
  simp only [wait, h_queue, h_range.peek_eq, bind, Except.bind]
  by_cases h_count : q.count = 0
  -- an empty queue, a null slot, or a message, whose string is readable or not
  · left
    refine ⟨Or.inl h_count, ?_⟩
    rw [Frontend.peek, isEmpty, decide_eq_true h_count]
    simp only [if_true, pure, Except.pure, h_post]
  · rw [peek_of_pending h_count h_range.front]
    by_cases h_null : q.items q.front = CPointer.null
    · left
      refine ⟨Or.inr h_null, ?_⟩
      simp only [if_pos h_null, pure, Except.pure, h_post]
    · right
      refine ⟨h_count, h_null, ?_⟩
      simp only [if_neg h_null, h_unfreed.string_eq h_range.front h_null]
      cases h_str : str (q.items q.front) with
      | error f =>
        right
        exact ⟨f, rfl, rfl⟩
      | ok s =>
        left
        refine ⟨s, rfl, ?_⟩
        simp only [Except.mapError, getItem_of_inArray h_range.front,
          h_unfreed.free_eq h_range.front h_null, setItem_of_inArray h_range.front,
          if_pos h_range.inInt]
        rfl

theorem Ready.readsOnce (h : Ready w q) (str : ι → Except Fault (List UInt8)) :
    ReadsOnce str w q (readMessage str w) := by
  rcases h.readMessage_cases str with
    ⟨h_none, h_call⟩ | ⟨-, h_null, ⟨s, h_str, h_call⟩ | ⟨f, h_str, h_call⟩⟩
  · rw [h_call]
    exact .nothing h_none
  · rw [h_call]
    exact .message h_null h_str rfl rfl rfl
  · rw [h_call]
    exact .unreadable h_null h_str

omit [DecidableEq ι] in
/-- Where the first message is taken the reader may go ahead again. -/
theorem Ready.pop (h : Ready w q) (h_count : q.count ≠ 0)
    (h_null : q.items q.front ≠ CPointer.null) :
    Ready { sem := w.sem, ptrQueue := some q.pop, freed := q.items q.front :: w.freed } q.pop where
  sem := h.sem
  queue := rfl
  range := h.range.pop h_count
  unfreed := (h.unfreed.clear h.range.front h_null).congr rfl

/-- **The sweep of `_cleanup`**: the checks change nothing, and what it frees was not freed. -/
theorem Unfreed.freeItems_eq (h : Unfreed q freed) {n : ℕ} (h_n : (n : ℤ) ≤ maxSize) :
    freeItems q freed n = .ok (Frontend.freeItems q freed n) ∧
      Unfreed (Frontend.freeItems q freed n).1 (Frontend.freeItems q freed n).2 := by
  induction n with
  | zero => exact ⟨rfl, h⟩
  | succ n ih =>
    obtain ⟨h_eq, h_unfreed⟩ := ih (by omega)
    have h_i : InArray n := ⟨Int.natCast_nonneg n, by omega⟩
    rw [freeItems, h_eq, Frontend.freeItems]
    generalize Frontend.freeItems q freed n = r at h_unfreed
    obtain ⟨q', freed'⟩ := r
    dsimp only at h_unfreed ⊢
    by_cases h_null : q'.items n = CPointer.null
    -- a null slot is passed by
    · rw [if_pos h_null]
      refine ⟨bind_eq_ok.mpr ⟨_, rfl, bind_eq_ok.mpr ⟨_, getItem_of_inArray h_i, ?_⟩⟩, h_unfreed⟩
      exact if_pos h_null
    · -- the pointer in the slot is freed, and the slot is cleared
      rw [if_neg h_null]
      refine ⟨bind_eq_ok.mpr ⟨_, rfl, bind_eq_ok.mpr ⟨_, getItem_of_inArray h_i, ?_⟩⟩,
        h_unfreed.clear h_i h_null⟩
      refine (if_neg h_null).trans (bind_eq_ok.mpr ⟨_, getItem_of_inArray h_i, ?_⟩)
      refine bind_eq_ok.mpr ⟨_, h_unfreed.free_eq h_i h_null, ?_⟩
      exact bind_eq_ok.mpr ⟨_, setItem_of_inArray h_i _, rfl⟩

/-- What is freed is added to what was freed. -/
theorem freeItems_suffix (q : Queue ι) (freed : List ι) (n : ℕ) :
    freed <:+ (Frontend.freeItems q freed n).2 := by
  induction n with
  | zero => exact List.suffix_refl freed
  | succ n ih =>
    rw [Frontend.freeItems]
    generalize Frontend.freeItems q freed n = r at ih
    obtain ⟨q', freed'⟩ := r
    dsimp only
    split
    · exact ih
    · exact ih.trans (List.suffix_cons _ _)

/-! ### Runs -/

/-- The slots hold what they held at first, or null. -/
def Cleared (q₀ q : Queue ι) : Prop :=
  ∀ i, q.items i = q₀.items i ∨ q.items i = CPointer.null

/-- **Any number of calls**: the reader may go ahead as before, or a call has found a string that
cannot be read. -/
theorem readMessages_cases {q₀ : Queue ι} (str : ι → Except Fault (List UInt8)) (n : ℕ)
    (h : Ready w q) (h_cleared : Cleared q₀ q) :
    (∃ log w' q', readMessages str n w = .ok (log, w') ∧ Ready w' q' ∧ Cleared q₀ q') ∨
    ∃ i f, InArray i ∧ q₀.items i ≠ CPointer.null ∧ str (q₀.items i) = .error f ∧
      readMessages str n w = .error (.fault f) := by
  induction n generalizing w q with
  | zero => exact Or.inl ⟨[], w, q, rfl, h, h_cleared⟩
  | succ n ih =>
    rcases h.readMessage_cases str with
      ⟨-, h_call⟩ | ⟨h_count, h_null, ⟨s, -, h_call⟩ | ⟨f, h_str, h_call⟩⟩
    · -- nothing has changed
      rcases ih h h_cleared with ⟨log, w', q', h_run, h_rest⟩ | ⟨i, f, h_i, h_ne, h_str, h_run⟩
      · exact Or.inl ⟨_, w', q', bind_eq_ok.mpr ⟨_, h_call, bind_eq_ok.mpr ⟨_, h_run, rfl⟩⟩,
          h_rest⟩
      · exact Or.inr ⟨i, f, h_i, h_ne, h_str, bind_eq_error.mpr
          (Or.inr ⟨_, h_call, bind_eq_error.mpr (Or.inl h_run)⟩)⟩
    · -- a message was taken, and its slot is null
      have h_cleared' : Cleared q₀ q.pop := by
        intro i
        by_cases h_i : i = q.front
        · exact Or.inr (by rw [h_i]; exact Function.update_self q.front _ _)
        · rw [show q.pop.items i = q.items i from Function.update_of_ne h_i _ _]
          exact h_cleared i
      rcases ih (h.pop h_count h_null) h_cleared' with ⟨log, w', q', h_run, h_rest⟩ |
        ⟨i, f, h_i, h_ne, h_str, h_run⟩
      · exact Or.inl ⟨_, w', q', bind_eq_ok.mpr ⟨_, h_call, bind_eq_ok.mpr ⟨_, h_run, rfl⟩⟩,
          h_rest⟩
      · exact Or.inr ⟨i, f, h_i, h_ne, h_str, bind_eq_error.mpr
          (Or.inr ⟨_, h_call, bind_eq_error.mpr (Or.inl h_run)⟩)⟩
    · -- the string is one of those that were there at first
      have h_first := (h_cleared q.front).resolve_right h_null
      rw [h_first] at h_null h_str
      exact Or.inr ⟨q.front, f, h.range.front, h_null, h_str,
        bind_eq_error.mpr (Or.inl h_call)⟩

/-- **At most once, and in bounds.** From any queue with `front` and `count` in their ranges and no
pointer in two slots, any number of calls of `_readMessage` goes through, unless a string in a slot
cannot be read: `front` and `count` stay in their ranges, the next call takes the message at `front`
or changes nothing, and the sweep of `_cleanup` goes through too, with no pointer freed twice. -/
theorem at_most_once (h_range : InRange q) (h_distinct : Distinct q)
    (str : ι → Except Fault (List UInt8)) (value n : ℕ) :
    (∃ log w' q', readMessages str n ⟨some (value + 1), some q, []⟩ = .ok (log, w') ∧
      w'.ptrQueue = some q' ∧ InRange q' ∧ ReadsOnce str w' q' (readMessage str w') ∧
      ∃ freed, freeItems q' w'.freed maxSize.toNat = .ok (emptied q', freed) ∧
        w'.freed <:+ freed ∧ freed.Nodup) ∨
    ∃ i f, InArray i ∧ q.items i ≠ CPointer.null ∧ str (q.items i) = .error f ∧
      readMessages str n ⟨some (value + 1), some q, []⟩ = .error (.fault f) := by
  have h_ready : Ready ⟨some (value + 1), some q, []⟩ q :=
    ⟨⟨value, rfl⟩, rfl, h_range, h_distinct, List.nodup_nil, fun _ _ _ => List.not_mem_nil⟩
  rcases readMessages_cases str n h_ready fun i => Or.inl rfl with
    ⟨log, w', q', h_run, h', -⟩ | h_unreadable
  · left
    -- what the calls have left in the slots was not freed by them
    obtain ⟨h_sweep, h_unfreed⟩ := h'.unfreed.freeItems_eq (n := maxSize.toNat) (by decide)
    rw [← Prod.mk.eta (p := Frontend.freeItems q' w'.freed maxSize.toNat), freeItems_maxSize]
      at h_sweep
    exact ⟨log, w', q', h_run, h'.queue, h'.range, h'.readsOnce str, _, h_sweep,
      freeItems_suffix q' w'.freed _, h_unfreed.nodup⟩
  · exact Or.inr h_unreadable

/-- One message, in a queue whose `rear` and `count` do not fit. -/
def oneSlot : Queue Slot where
  items i := if i = 0 then .block [97, 0] else .null
  front := 0
  rear := 7
  count := 3

theorem at_most_once_oneSlot :
    (∃ log w' q', readMessages Slot.string 2 ⟨some 1, some oneSlot, []⟩ = .ok (log, w') ∧
      w'.ptrQueue = some q' ∧ InRange q' ∧ ReadsOnce Slot.string w' q'
        (readMessage Slot.string w') ∧
      ∃ freed, freeItems q' w'.freed maxSize.toNat = .ok (emptied q', freed) ∧
        w'.freed <:+ freed ∧ freed.Nodup) ∨
    ∃ i f, InArray i ∧ oneSlot.items i ≠ CPointer.null ∧
      Slot.string (oneSlot.items i) = .error f ∧
      readMessages Slot.string 2 ⟨some 1, some oneSlot, []⟩ = .error (.fault f) := by
  refine at_most_once ⟨by decide, by decide, by decide⟩ ?_ Slot.string 0 2
  intro i j _ _ h_null h_eq
  -- only the slot `0` is not null
  have h_i : i = 0 := by
    by_contra h_ne
    exact h_null (if_neg h_ne)
  have h_j : j = 0 := by
    by_contra h_ne
    rw [show oneSlot.items j = .null from if_neg h_ne] at h_eq
    exact h_null h_eq
  rw [h_i, h_j]

end Checked
end Frontend
end WateRMQ
