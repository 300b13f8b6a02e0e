import WateRMQ.Frontend.Queue

/-!
# FIFO delivery of the frontend's ring

`fifoDelivery_iff`: for a well-formed queue, `n` calls of `consumingMessage` deliver the first `n`
pending messages in order and leave the rest, exactly when the slots that `front` walks through
hold these messages, each by a pointer of its own (`WalkMatches`). `front` moves by `advance`,
which is not the next slot of the ring, so when the strings in the slots are different this comes
down to runs of at most two messages.

The calls are those of `Checked`, which fault on a pointer that was freed. A run of calls is
`reads`. `reads_of_match` and `match_of_reads` say what it does as long as every call delivers: the
queue is then `Queue.pop` iterated, whose `front` is `advance` iterated and whose slots are the old
ones, except that the visited ones are null; and what was in the visited ones has been freed
(`freedAfter`).
-/

namespace WateRMQ
namespace Frontend

open CMem

section Delivery

variable {ι : Type} [CPointer ι] [DecidableEq ι]

/-! ### Pending messages -/

/-- The pending message number `i`. -/
def message (str : ι → Except Fault (List UInt8)) (q : Queue ι) (i : ℕ) : Option (List UInt8) :=
  string str q ((q.front + i) % maxSize)

/-- A queue whose pending slots all hold strings. -/
structure WellFormed (str : ι → Except Fault (List UInt8)) (q : Queue ι) : Prop where
  front_inArray : InArray q.front
  count_ge : 0 ≤ q.count
  count_le : q.count ≤ maxSize
  slots : ∀ i : ℕ, i < q.count → (message str q i).isSome

/-- `n` calls of `consumingMessage`, with the check of every access and of every `free`: the result
of each, and `count` after it. -/
def reads (str : ι → Except Fault (List UInt8)) (w : WateRMQ ι) :
    ℕ → Except Stop (List (Option (List UInt8) × Option ℤ) × WateRMQ ι)
  | 0 => return ([], w)
  | n + 1 => do
    let (log, w) ← reads str w n
    let (result, w) ← Checked.consumingMessage str w
    return (log ++ [(some result, w.ptrQueue.map Queue.count)], w)

/-- What `n` calls should give: the messages in order, with `count` one lower after each. -/
def deliveries (str : ι → Except Fault (List UInt8)) (q : Queue ι) (n : ℕ) :
    List (Option (List UInt8) × Option ℤ) :=
  (List.range n).map fun k : ℕ => (message str q k, some (q.count - (k + 1)))

/-- **FIFO delivery** of `n` messages from the queue `q` of `w`: the calls return the first `n`
pending messages in order, each takes one from `count`, and the queue left is well formed and
holds the others. Strings are read from what has not been freed, before the calls and after
them. -/
def FifoDelivery (str : ι → Except Fault (List UInt8)) (w : WateRMQ ι) (q : Queue ι) (n : ℕ) :
    Prop :=
  ∃ w' q', reads str w n = .ok (deliveries (afterFree str w.freed) q n, w') ∧
    w'.ptrQueue = some q' ∧ WellFormed (afterFree str w'.freed) q' ∧ q'.count = q.count - n ∧
    ∀ j : ℕ, n + j < q.count →
      message (afterFree str w'.freed) q' j = message (afterFree str w.freed) q (n + j)

/-- The slots that `front` walks through hold the pending messages: it visits no pointer twice, the
`k`-th slot it visits has message `k`, and from where it stops the others are in the ring, by
pointers that it has not visited. -/
structure WalkMatches (str : ι → Except Fault (List UInt8)) (q : Queue ι) (n : ℕ) : Prop where
  fresh : ∀ j k, j < k → k < n →
    q.items (advance^[j] q.front) ≠ q.items (advance^[k] q.front)
  visited : ∀ k < n, string str q (advance^[k] q.front) = message str q k
  left_fresh : ∀ j : ℕ, n + j < q.count →
    ∀ k < n, q.items (advance^[k] q.front) ≠ q.items ((advance^[n] q.front + j) % maxSize)
  left : ∀ j : ℕ, n + j < q.count →
    string str q ((advance^[n] q.front + j) % maxSize) = message str q (n + j)

/-! ### The walk -/

/-- The walk stays inside the array. -/
theorem walk_inArray {front : ℤ} (h : InArray front) (n : ℕ) : InArray (advance^[n] front) := by
  cases n with
  | zero => exact h
  | succ n =>
    induction n with
    | zero => exact advance_inArray h.1
    | succ n ih =>
      rw [Function.iterate_succ_apply']
      exact advance_inArray ih.1

omit [DecidableEq ι] in
@[simp] theorem pop_iterate_front (q : Queue ι) (n : ℕ) :
    (Queue.pop^[n] q).front = advance^[n] q.front := by
  induction n with
  | zero => rfl
  | succ n ih => rw [Function.iterate_succ_apply', Function.iterate_succ_apply', ← ih, Queue.pop]

omit [DecidableEq ι] in
@[simp] theorem pop_iterate_count (q : Queue ι) (n : ℕ) :
    (Queue.pop^[n] q).count = q.count - n := by
  induction n with
  | zero => simp
  | succ n ih =>
    rw [Function.iterate_succ_apply', Queue.pop, ih]
    push_cast
    omega

omit [DecidableEq ι] in
/-- The slot of a message that was taken is cleared. -/
theorem pop_items_front (q : Queue ι) : q.pop.items q.front = CPointer.null :=
  Function.update_self _ _ _

omit [DecidableEq ι] in
/-- The other slots stay. -/
theorem pop_items_of_ne {q : Queue ι} {i : ℤ} (h : q.front ≠ i) : q.pop.items i = q.items i :=
  Function.update_of_ne h.symm _ _

omit [DecidableEq ι] in
/-- The visited slots are null. -/
theorem pop_iterate_items_of_visited {q : Queue ι} {n k : ℕ} (hk : k < n) :
    (Queue.pop^[n] q).items (advance^[k] q.front) = CPointer.null := by
  induction n with
  | zero => cases hk
  | succ n ih =>
    rw [Function.iterate_succ_apply']
    -- the last `pop` cleared this slot, or it was null before
    by_cases h_eq : advance^[n] q.front = advance^[k] q.front
    · rw [← h_eq, ← pop_iterate_front]
      exact pop_items_front _
    · rw [pop_items_of_ne (by rwa [pop_iterate_front])]
      refine ih (lt_of_le_of_ne (Nat.lt_succ_iff.mp hk) fun h => h_eq (by rw [h]))

omit [DecidableEq ι] in
/-- The other slots are the old ones. -/
theorem pop_iterate_items_of_fresh {q : Queue ι} {n : ℕ} {i : ℤ}
    (h : ∀ k < n, advance^[k] q.front ≠ i) : (Queue.pop^[n] q).items i = q.items i := by
  induction n with
  | zero => rfl
  | succ n ih =>
    rw [Function.iterate_succ_apply', pop_items_of_ne,
      ih fun k hk => h k (hk.trans n.lt_succ_self)]
    rw [pop_iterate_front]
    exact h n n.lt_succ_self

/-! ### What has been freed -/

/-- What is freed after `n` calls that deliver, where `freed` was freed before: what `q` held in
the visited slots. -/
def freedAfter (q : Queue ι) (freed : List ι) : ℕ → List ι
  | 0 => freed
  | n + 1 => q.items (advance^[n] q.front) :: freedAfter q freed n

omit [CPointer ι] [DecidableEq ι] in
/-- What is freed in the end was freed before, or lay in a slot that was visited. -/
theorem mem_freedAfter {q : Queue ι} {freed : List ι} {n : ℕ} {p : ι} :
    p ∈ freedAfter q freed n ↔ p ∈ freed ∨ ∃ k < n, q.items (advance^[k] q.front) = p := by
  induction n with
  | zero => simp [freedAfter]
  | succ n ih =>
    rw [freedAfter, List.mem_cons, ih]
    constructor
    · rintro (rfl | h_old | ⟨k, hk, h_eq⟩)
      · exact Or.inr ⟨n, n.lt_succ_self, rfl⟩
      · exact Or.inl h_old
      · exact Or.inr ⟨k, hk.trans n.lt_succ_self, h_eq⟩
    · rintro (h_old | ⟨k, hk, h_eq⟩)
      · exact Or.inr (Or.inl h_old)
      · rcases Nat.lt_succ_iff_lt_or_eq.mp hk with h_lt | rfl
        · exact Or.inr (Or.inr ⟨k, h_lt, h_eq⟩)
        · exact Or.inl h_eq.symm

/-- The string in slot `i` after `n` calls that deliver. -/
def stringAfter (str : ι → Except Fault (List UInt8)) (q : Queue ι) (freed : List ι) (n : ℕ)
    (i : ℤ) : Option (List UInt8) :=
  string (afterFree str (freedAfter q freed n)) (Queue.pop^[n] q) i

variable {str : ι → Except Fault (List UInt8)}

/-- A slot whose pointer was not visited has its old string. -/
theorem stringAfter_of_fresh {q : Queue ι} {freed : List ι} {n : ℕ} {i : ℤ}
    (h : ∀ k < n, q.items (advance^[k] q.front) ≠ q.items i) :
    stringAfter str q freed n i = string (afterFree str freed) q i := by
  have h_items : (Queue.pop^[n] q).items i = q.items i :=
    pop_iterate_items_of_fresh fun k hk h_eq => h k hk (congrArg q.items h_eq)
  -- the pointer was freed now exactly if it was freed before
  have h_freed : q.items i ∈ freedAfter q freed n ↔ q.items i ∈ freed := by
    rw [mem_freedAfter]
    exact or_iff_left fun ⟨k, hk, h_eq⟩ => h k hk h_eq
  unfold stringAfter string afterFree
  simp only [h_items, h_freed]

/-- A slot that still has a string was not visited, nor was its pointer. -/
theorem fresh_of_stringAfter {q : Queue ι} {freed : List ι} {n : ℕ} {i : ℤ}
    (h : (stringAfter str q freed n i).isSome) :
    (∀ k < n, advance^[k] q.front ≠ i) ∧
      ∀ k < n, q.items (advance^[k] q.front) ≠ q.items i := by
  unfold stringAfter string at h
  have h_slot : ∀ k < n, advance^[k] q.front ≠ i := by
    rintro k hk rfl
    rw [if_pos (pop_iterate_items_of_visited hk)] at h
    cases h
  refine ⟨h_slot, fun k hk h_eq => ?_⟩
  -- a visited pointer has been freed, and its string cannot be read
  have h_mem : q.items i ∈ freedAfter q freed n := mem_freedAfter.mpr (Or.inr ⟨k, hk, h_eq⟩)
  split at h
  · cases h
  · rw [pop_iterate_items_of_fresh h_slot, afterFree, if_pos h_mem] at h
    cases h

/-! ### Runs of calls -/

/-- One delivery more. -/
theorem deliveries_succ (q : Queue ι) (n : ℕ) :
    deliveries str q (n + 1) =
      deliveries str q n ++ [(message str q n, some (q.count - (n + 1)))] := by
  rw [deliveries, List.range_succ, List.map_append]
  rfl

/-- A pending `count` can go down by one. -/
theorem inInt_count {q : Queue ι} (h : WellFormed str q) {n : ℕ} (hn : n < q.count) :
    InInt ((Queue.pop^[n] q).count - 1) := by
  have h_le := h.count_le
  rw [maxSize_eq] at h_le
  rw [pop_iterate_count]
  constructor <;> omega

/-- When every slot that is visited holds its message, every call delivers. -/
theorem reads_of_match {w : WateRMQ ι} {q : Queue ι} {value : ℕ}
    (h : WellFormed (afterFree str w.freed) q) (h_sem : w.sem = some (value + 1))
    (h_queue : w.ptrQueue = some q) {n : ℕ} (hn : n ≤ q.count)
    (h_match : ∀ k < n, stringAfter str q w.freed k (advance^[k] q.front) =
      message (afterFree str w.freed) q k) :
    ∃ w', reads str w n = .ok (deliveries (afterFree str w.freed) q n, w') ∧ w'.sem = w.sem ∧
      w'.ptrQueue = some (Queue.pop^[n] q) ∧ w'.freed = freedAfter q w.freed n := by
  induction n with
  | zero => exact ⟨w, rfl, rfl, h_queue, rfl⟩
  | succ n ih =>
    push_cast at hn
    obtain ⟨w₁, h_reads, h_sem₁, h_queue₁, h_freed₁⟩ :=
      ih (by omega) fun k hk => h_match k (hk.trans n.lt_succ_self)
    -- call `n + 1` finds the message `n` in the slot that `front` has reached
    obtain ⟨s, h_slot⟩ := Option.isSome_iff_exists.mp (h.slots n (by omega))
    have h_after := h_match n n.lt_succ_self
    rw [h_slot] at h_after
    have h_string : string (afterFree str w₁.freed) (Queue.pop^[n] q) (Queue.pop^[n] q).front =
        some s := by
      rw [pop_iterate_front, h_freed₁]
      exact h_after
    obtain ⟨w₂, h_read, h_sem₂, h_queue₂, h_freed₂⟩ :=
      readMessage_of_string_eq (h_sem₁.trans h_sem) h_queue₁ (by rw [pop_iterate_count]; omega)
        (by rw [pop_iterate_front]; exact walk_inArray h.front_inArray n)
        (inInt_count h (by omega)) h_string
    rw [← Checked.readMessage_eq] at h_read
    rw [← Function.iterate_succ_apply' Queue.pop] at h_queue₂
    -- what it frees is the pointer that `q` had in this slot
    obtain ⟨h_fresh, -⟩ := fresh_of_stringAfter (Option.isSome_iff_exists.mpr ⟨s, h_after⟩)
    rw [pop_iterate_front, pop_iterate_items_of_fresh h_fresh, h_freed₁] at h_freed₂
    refine ⟨w₂, ?_, h_sem₂.trans h_sem₁, h_queue₂, h_freed₂⟩
    -- the log grows by the message and the new `count`
    refine bind_eq_ok.mpr ⟨_, h_reads, bind_eq_ok.mpr ⟨_, h_read, ?_⟩⟩
    simp only [h_queue₂, Option.map_some, pop_iterate_count, deliveries_succ, h_slot]
    push_cast
    rfl

/-- When every call delivers, every slot that was visited held its message. -/
theorem match_of_reads {w w' : WateRMQ ι} {q : Queue ι} {value : ℕ}
    (h : WellFormed (afterFree str w.freed) q) (h_sem : w.sem = some (value + 1))
    (h_queue : w.ptrQueue = some q) {n : ℕ} (hn : n ≤ q.count)
    (h_reads : reads str w n = .ok (deliveries (afterFree str w.freed) q n, w')) :
    (∀ k < n, stringAfter str q w.freed k (advance^[k] q.front) =
        message (afterFree str w.freed) q k) ∧
      w'.sem = w.sem ∧ w'.ptrQueue = some (Queue.pop^[n] q) ∧
      w'.freed = freedAfter q w.freed n := by
  induction n generalizing w' with
  | zero =>
    cases h_reads
    exact ⟨fun k hk => absurd hk k.not_lt_zero, rfl, h_queue, rfl⟩
  | succ n ih =>
    push_cast at hn
    obtain ⟨⟨log, w₁⟩, h_first, h_rest⟩ := bind_eq_ok.mp h_reads
    obtain ⟨⟨r, w₂⟩, h_read, h_log⟩ := bind_eq_ok.mp h_rest
    rw [deliveries_succ] at h_log
    -- the log of `n + 1` calls is that of `n` calls and one more entry
    obtain ⟨h_list, h_state⟩ := Prod.mk.inj (Except.ok.inj h_log)
    obtain ⟨h_before, h_last⟩ := List.append_inj' h_list rfl
    obtain ⟨h_result, h_count⟩ := Prod.mk.inj (List.singleton_inj.mp h_last)
    rw [h_before] at h_first
    rw [h_state] at h_read h_count
    obtain ⟨h_match, h_sem₁, h_queue₁, h_freed₁⟩ := ih (by omega) h_first
    obtain ⟨h_string, h_sem₂, h_queue₂, h_freed₂⟩ | ⟨-, h_same⟩ :=
      readMessage_ok_cases (h_sem₁.trans h_sem) h_queue₁ (by rw [pop_iterate_count]; omega)
        (by rw [pop_iterate_front]; exact walk_inArray h.front_inArray n)
        (inInt_count h (by omega)) ((Checked.readMessage_eq str w₁).symm.trans h_read)
    · rw [pop_iterate_front, h_freed₁] at h_string
      rw [← Function.iterate_succ_apply' Queue.pop] at h_queue₂
      -- what it frees is the pointer that `q` had in this slot
      obtain ⟨h_fresh, -⟩ :=
        fresh_of_stringAfter (Option.isSome_iff_exists.mpr ⟨r, h_string⟩)
      rw [pop_iterate_front, pop_iterate_items_of_fresh h_fresh, h_freed₁] at h_freed₂
      refine ⟨?_, h_sem₂.trans h_sem₁, h_queue₂, h_freed₂⟩
      intro k hk
      rcases Nat.lt_succ_iff_lt_or_eq.mp hk with h_old | rfl
      · exact h_match k h_old
      · exact h_string.trans h_result
    · -- a null slot leaves `count` where it was
      rw [h_same, h_queue₁, Option.map_some, pop_iterate_count] at h_count
      have h_eq := Option.some.inj h_count
      omega

/-! ### What the walk has to match -/

/-- When the calls deliver in order, the walk meets the messages. -/
theorem WalkMatches.of_delivery {w : WateRMQ ι} {q : Queue ι} {value : ℕ}
    (h : WellFormed (afterFree str w.freed) q) (h_sem : w.sem = some (value + 1))
    (h_queue : w.ptrQueue = some q) {n : ℕ} (hn : n ≤ q.count) (h_fifo : FifoDelivery str w q n) :
    WalkMatches (afterFree str w.freed) q n := by
  obtain ⟨w', q', h_reads, h_queue', -, -, h_left⟩ := h_fifo
  obtain ⟨h_match, -, h_popped, h_freed⟩ := match_of_reads h h_sem h_queue hn h_reads
  -- the queue left is `pop` iterated, so its slots are the old ones, without those visited
  obtain rfl : q' = Queue.pop^[n] q := Option.some.inj (h_queue'.symm.trans h_popped)
  unfold message at h_left
  simp only [pop_iterate_front, h_freed] at h_left
  -- a slot that holds a pending message has a pointer that was not visited before
  have h_fresh : ∀ {k m : ℕ} {i : ℤ}, m < q.count →
      stringAfter str q w.freed k i = message (afterFree str w.freed) q m →
      ∀ j < k, q.items (advance^[j] q.front) ≠ q.items i :=
    fun hm h_eq => (fresh_of_stringAfter (by rw [h_eq]; exact h.slots _ hm)).2
  have h_visit : ∀ k < n, ∀ j < k,
      q.items (advance^[j] q.front) ≠ q.items (advance^[k] q.front) :=
    fun k hk => h_fresh (by omega) (h_match k hk)
  have h_left_fresh : ∀ j : ℕ, n + j < q.count →
      ∀ k < n, q.items (advance^[k] q.front) ≠ q.items ((advance^[n] q.front + j) % maxSize) :=
    fun j hj => h_fresh (m := n + j) (by push_cast; omega) (h_left j hj)
  exact
    { fresh := fun j k hjk hk => h_visit k hk j hjk
      visited := fun k hk => (stringAfter_of_fresh (h_visit k hk)).symm.trans (h_match k hk)
      left_fresh := h_left_fresh
      left := fun j hj => (stringAfter_of_fresh (h_left_fresh j hj)).symm.trans (h_left j hj) }

/-- When the walk meets the messages, the calls deliver in order. -/
theorem WalkMatches.delivery {w : WateRMQ ι} {q : Queue ι} {value : ℕ}
    (h : WellFormed (afterFree str w.freed) q) (h_sem : w.sem = some (value + 1))
    (h_queue : w.ptrQueue = some q) {n : ℕ} (hn : n ≤ q.count)
    (h_walk : WalkMatches (afterFree str w.freed) q n) : FifoDelivery str w q n := by
  -- the `k`-th call finds its slot as it was at the start
  have h_match : ∀ k < n, stringAfter str q w.freed k (advance^[k] q.front) =
      message (afterFree str w.freed) q k := by
    intro k hk
    rw [stringAfter_of_fresh fun j hj => h_walk.fresh j k hj hk, h_walk.visited k hk]
  obtain ⟨w', h_reads, -, h_queue', h_freed⟩ := reads_of_match h h_sem h_queue hn h_match
  have h_left : ∀ j : ℕ, n + j < q.count →
      message (afterFree str w'.freed) (Queue.pop^[n] q) j =
        message (afterFree str w.freed) q (n + j) := by
    intro j hj
    rw [message, pop_iterate_front, h_freed]
    exact (stringAfter_of_fresh (h_walk.left_fresh j hj)).trans (h_walk.left j hj)
  -- what is left is well formed, from the messages that are left
  refine ⟨w', _, h_reads, h_queue', ?_, pop_iterate_count q n, h_left⟩
  have h_le := h.count_le
  exact
    { front_inArray := by
        rw [pop_iterate_front]
        exact walk_inArray h.front_inArray n
      count_ge := by rw [pop_iterate_count]; omega
      count_le := by rw [pop_iterate_count]; omega
      slots := fun i hi => by
        rw [pop_iterate_count] at hi
        rw [h_left i (by omega)]
        exact h.slots (n + i) (by push_cast; omega) }

/-! ### Slots with different strings -/

/-- No two slots hold the same string. -/
def Distinct (str : ι → Except Fault (List UInt8)) (q : Queue ι) : Prop :=
  ∀ i j, InArray i → InArray j → (string str q i).isSome → string str q i = string str q j → i = j

/-- The runs of calls that deliver from slots with different strings: none; one, when nothing is
left behind it or `front` is the last slot; and two, for the last slot and the first. -/
def ShortRun (q : Queue ι) (n : ℕ) : Prop :=
  n = 0 ∨ (n = 1 ∧ q.count = 1) ∨ (n = 1 ∧ q.front = maxSize - 1) ∨
    (n = 2 ∧ q.count = 2 ∧ q.front = maxSize - 1)

/-- Slots with different strings hold different pointers. -/
theorem Distinct.items_ne {q : Queue ι} (h : Distinct str q) {i j : ℤ} (h_i : InArray i)
    (h_j : InArray j) (h_some : (string str q i).isSome) (h_ne : i ≠ j) :
    q.items i ≠ q.items j := by
  intro h_eq
  refine h_ne (h i j h_i h_j h_some ?_)
  unfold string
  rw [h_eq]

/-- The slot of a pending message is the only one with its string. -/
theorem Distinct.eq_slot {q : Queue ι} (h : Distinct str q) (h_well : WellFormed str q) {i : ℤ}
    {m : ℕ} (h_in : InArray i) (hm : m < q.count) (h_eq : string str q i = message str q m) :
    i = (q.front + m) % maxSize := by
  refine h _ _ h_in (emod_inArray _) ?_ h_eq
  rw [h_eq]
  exact h_well.slots m hm

/-- The second message is where `front` goes only behind the last slot. -/
theorem front_of_second {q : Queue ι} (h : WellFormed str q) (h_distinct : Distinct str q)
    (h_two : 1 < q.count) (h_eq : string str q (advance q.front) = message str q 1) :
    q.front = maxSize - 1 := by
  refine (advance_eq_iff h.front_inArray).mp ?_
  exact h_distinct.eq_slot (m := 1) h (advance_inArray h.front_inArray.1) h_two h_eq

/-- The third message is never where `front` goes from the last slot. -/
theorem third_ne {q : Queue ι} (h : WellFormed str q) (h_distinct : Distinct str q)
    (h_front : q.front = maxSize - 1) (h_three : 2 < q.count) :
    string str q (advance (advance q.front)) ≠ message str q 2 := by
  intro h_eq
  have h_first := advance_inArray h.front_inArray.1
  -- from the last slot `front` goes to 0 and then to 10; the third message is in slot 1
  have h_slot := h_distinct.eq_slot (m := 2) h (advance_inArray h_first.1) h_three h_eq
  rw [h_front] at h_slot
  exact absurd h_slot (by decide)

/-- With different strings everywhere, only a short run meets them. -/
theorem ShortRun.of_walkMatches {q : Queue ι} (h : WellFormed str q) (h_distinct : Distinct str q)
    {n : ℕ} (hn : n ≤ q.count) (h_walk : WalkMatches str q n) : ShortRun q n := by
  rcases n with _ | _ | n
  · exact Or.inl rfl
  · -- one call: the second message, when there is one, must be where `front` goes
    by_cases h_one : q.count = 1
    · exact Or.inr (Or.inl ⟨rfl, h_one⟩)
    · have h_two : 1 < q.count := by push_cast at hn; omega
      have h_left := h_walk.left 0 (by push_cast; omega)
      rw [Nat.cast_zero, add_zero, emod_of_inArray (walk_inArray h.front_inArray _)] at h_left
      exact Or.inr (Or.inr (Or.inl ⟨rfl, front_of_second h h_distinct h_two h_left⟩))
  · push_cast at hn
    have h_front : q.front = maxSize - 1 :=
      front_of_second h h_distinct (by omega) (h_walk.visited 1 (by omega))
    -- two calls or more: the second message again, and there must not be a third
    by_cases h_two : q.count = 2
    · exact Or.inr (Or.inr (Or.inr ⟨by omega, h_two, h_front⟩))
    · refine absurd ?_ (third_ne h h_distinct h_front (by omega))
      rcases n with _ | n
      · have h_left := h_walk.left 0 (by push_cast; omega)
        rw [Nat.cast_zero, add_zero, emod_of_inArray (walk_inArray h.front_inArray _)] at h_left
        exact h_left
      · exact h_walk.visited 2 (by omega)

/-- A short run does. -/
theorem ShortRun.walkMatches {q : Queue ι} (h : WellFormed str q) (h_distinct : Distinct str q)
    {n : ℕ} (hn : n ≤ q.count) (h_run : ShortRun q n) : WalkMatches str q n := by
  have h_first : string str q q.front = message str q 0 := by
    rw [message, Nat.cast_zero, add_zero, emod_of_inArray h.front_inArray]
  have h_le := h.count_le
  -- the pointer at `front` is in no other slot, when there is a message
  have h_other : ∀ i, InArray i → 0 < q.count → q.front ≠ i → q.items q.front ≠ q.items i := by
    intro i h_i h_pos h_ne
    refine h_distinct.items_ne h.front_inArray h_i ?_ h_ne
    rw [h_first]
    exact h.slots 0 h_pos
  rcases h_run with rfl | ⟨rfl, h_one⟩ | ⟨rfl, h_front⟩ | ⟨rfl, h_two, h_front⟩
  -- no read: nothing has been visited
  · exact
      { fresh := fun j k _ hk => absurd hk k.not_lt_zero
        visited := fun k hk => absurd hk k.not_lt_zero
        left_fresh := fun j _ k hk => absurd hk k.not_lt_zero
        left := fun j _ => by rw [Nat.zero_add]; rfl }
  -- one read of one message: nothing is left
  · exact
      { fresh := fun j k hjk hk => by omega
        visited := fun k hk => by
          obtain rfl : k = 0 := by omega
          exact h_first
        left_fresh := fun j hj => by push_cast at hj; omega
        left := fun j hj => by push_cast at hj; omega }
  -- one read of the last slot: `front` goes on to the slot 0, where the next message is
  · have h_advance : advance q.front = 0 := by rw [h_front]; rfl
    exact
      { fresh := fun j k hjk hk => by omega
        visited := fun k hk => by
          obtain rfl : k = 0 := by omega
          exact h_first
        left_fresh := fun j hj k hk => by
          obtain rfl : k = 0 := by omega
          rw [Function.iterate_one, Function.iterate_zero, id, h_advance]
          push_cast at hn hj
          refine h_other _ (emod_inArray _) (by omega) ?_
          rw [maxSize_eq] at h_le h_front ⊢
          omega
        left := fun j hj => by
          rw [Function.iterate_one, h_advance, message, h_front, maxSize_eq]
          congr 1
          push_cast
          omega }
  -- two reads, of the last slot and of the slot 0: nothing is left
  · have h_advance : advance q.front = 0 := by rw [h_front]; rfl
    exact
      { fresh := fun j k hjk hk => by
          obtain rfl : j = 0 := by omega
          obtain rfl : k = 1 := by omega
          rw [Function.iterate_one, h_advance, Function.iterate_zero, id]
          refine h_other 0 (by decide) (by omega) ?_
          rw [h_front]
          decide
        visited := fun k hk => by
          rcases k with _ | k
          · exact h_first
          · obtain rfl : k = 0 := by omega
            rw [Function.iterate_one, h_advance, message, h_front]
            rfl
        left_fresh := fun j hj => by push_cast at hj; omega
        left := fun j hj => by push_cast at hj; omega }

/-- **When the ring delivers in order.** For a well-formed queue and `n ≤ count`, with the
semaphore available, `n` calls of `consumingMessage` are a FIFO delivery exactly when the slots
that `front` walks through hold the pending messages, by pointers that are all different. When no
two slots hold the same string these are the short runs: `n = 0`; `n = 1`, with nothing left or
from the last slot; `n = 2`, with nothing left and from the last slot. -/
theorem fifoDelivery_iff {w : WateRMQ ι} {q : Queue ι} {value n : ℕ}
    (h : WellFormed (afterFree str w.freed) q) (h_sem : w.sem = some (value + 1))
    (h_queue : w.ptrQueue = some q) (hn : n ≤ q.count) :
    (FifoDelivery str w q n ↔ WalkMatches (afterFree str w.freed) q n) ∧
      (Distinct (afterFree str w.freed) q → (FifoDelivery str w q n ↔ ShortRun q n)) := by
  have h_iff : FifoDelivery str w q n ↔ WalkMatches (afterFree str w.freed) q n :=
    ⟨.of_delivery h h_sem h_queue hn, fun h_walk => h_walk.delivery h h_sem h_queue hn⟩
  exact ⟨h_iff, fun h_distinct =>
    h_iff.trans ⟨.of_walkMatches h h_distinct hn, fun h_run => h_run.walkMatches h h_distinct hn⟩⟩

end Delivery

/-! ### Two messages, at the end of the array and at its start -/

/-- A queue with the messages `"a"` and `"b"` from slot `front` on. -/
def twoMessages (front : ℤ) : Queue Slot where
  items i :=
    if i = front then .block [97, 0]
    else if i = (front + 1) % maxSize then .block [98, 0] else .null
  front := front
  rear := (front + 2) % maxSize
  count := 2

theorem string_twoMessages (front i : ℤ) :
    string Slot.string (twoMessages front) i =
      if i = front then some [97] else if i = (front + 1) % maxSize then some [98] else none := by
  by_cases h_first : i = front
  · simp only [string, twoMessages, if_pos h_first]
    rfl
  · by_cases h_second : i = (front + 1) % maxSize
    · simp only [string, twoMessages, if_neg h_first, if_pos h_second]
      rfl
    · simp only [string, twoMessages, if_neg h_first, if_neg h_second]
      rfl

theorem wellFormed_twoMessages {front : ℤ} (h : InArray front) :
    WellFormed Slot.string (twoMessages front) where
  front_inArray := h
  count_ge := show (0 : ℤ) ≤ 2 by decide
  count_le := show (2 : ℤ) ≤ maxSize by decide
  slots i hi := by
    have h_lt : (i : ℤ) < 2 := hi
    change (string Slot.string (twoMessages front) ((front + i) % maxSize)).isSome
    rw [string_twoMessages]
    -- the two messages are in the two slots from `front` on
    obtain rfl | rfl : i = 0 ∨ i = 1 := by omega
    · rw [Nat.cast_zero, add_zero, emod_of_inArray h, if_pos rfl]
      rfl
    · rw [Nat.cast_one, if_pos (rfl : (front + 1) % maxSize = _)]
      split <;> rfl

theorem distinct_twoMessages (front : ℤ) : Distinct Slot.string (twoMessages front) := by
  intro i j _ _ h_some h_eq
  rw [string_twoMessages] at h_some h_eq
  rw [string_twoMessages] at h_eq
  -- a slot with a string is one of the two, and their strings differ
  by_cases hi : i = front
  · rw [if_pos hi] at h_eq
    by_cases hj : j = front
    · exact hi.trans hj.symm
    · rw [if_neg hj] at h_eq
      split at h_eq
      · exact absurd h_eq (by decide)
      · cases h_eq
  · rw [if_neg hi] at h_some h_eq
    by_cases hi' : i = (front + 1) % maxSize
    · rw [if_pos hi'] at h_eq
      by_cases hj : j = front
      · rw [if_pos hj] at h_eq
        exact absurd h_eq (by decide)
      · rw [if_neg hj] at h_eq
        by_cases hj' : j = (front + 1) % maxSize
        · exact hi'.trans hj'.symm
        · rw [if_neg hj'] at h_eq
          cases h_eq
    · rw [if_neg hi'] at h_some
      cases h_some

/-- Two messages across the end of the array. -/
theorem fifoDelivery_two_at_end :
    FifoDelivery Slot.string ⟨some 1, some (twoMessages 40959), []⟩ (twoMessages 40959) 2 :=
  ((fifoDelivery_iff (by rw [afterFree_nil]; exact wellFormed_twoMessages (by decide)) rfl rfl
    (by decide)).2 (by rw [afterFree_nil]; exact distinct_twoMessages _)).mpr
      (Or.inr (Or.inr (Or.inr ⟨rfl, rfl, rfl⟩)))

/-- One string, by one pointer in both slots: the second call would read what the first has
freed. -/
example :
    reads Slot.string ⟨some 1, some { twoMessages 40959 with items := fun _ => .block [97, 0] },
      []⟩ 2 = .error (.fault .useAfterFree) := rfl

/-- From slot 0 the second call finds slot 10, and the second message is never delivered. -/
theorem second_message_lost :
    WellFormed Slot.string (twoMessages 0) ∧
      (∃ w', reads Slot.string ⟨some 1, some (twoMessages 0), []⟩ 2 =
        .ok ([(some [97], some 1), (some [], some 1)], w')) ∧
      ¬ FifoDelivery Slot.string ⟨some 1, some (twoMessages 0), []⟩ (twoMessages 0) 2 := by
  refine ⟨wellFormed_twoMessages (by decide), ⟨_, rfl⟩, ?_⟩
  rintro ⟨w', q', h_reads, -⟩
  have h_log : [(some [97], some 1), (some [], some 1)] =
      deliveries Slot.string (twoMessages 0) 2 := congrArg Prod.fst (Except.ok.inj h_reads)
  exact absurd h_log (by decide)

end Frontend
end WateRMQ
