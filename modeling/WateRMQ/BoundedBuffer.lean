import WateRMQ.Lib.Ring
import WateRMQ.Lib.Run

/-!
# The bounded buffer of the semaphore test

The two programs of `semaphore_test.c`, statement by statement: a producer and a consumer that
share an array of `BUFFER_SIZE` slots, with the two semaphores `empty` and `full`. `size` stands for
`BUFFER_SIZE` and `items` for the 10 of the loops.

`channel`: the buffer is a FIFO channel. In every interleaving the items are read in the order in
which they were written, nothing is overwritten before it was read, the indices stay inside the
array, and the two never wait for each other.

Both programs have the same loop around one access to the buffer, so they share their control
(`Process`). How often a process has come past a statement is `Process.passed`; `Inv` ties the
semaphores, the indices and the buffer to these numbers.
-/

namespace WateRMQ
namespace SemaphoreTest

open Runs Ring

/-! ### The programs -/

/-- The statements of the two programs: the initialisation of the index, the test of the loop, the
`sem_wait`, the access to the buffer, the `printf`, the advance of the index, the `sem_post`, and
the `sleep`, after which the loop goes on. -/
inductive Statement
  | init
  | test
  | wait
  | access
  | print
  | advance
  | post
  | sleep
  | done
  deriving DecidableEq

/-- Where a process is, and the variable `i` of its loop. -/
structure Process where
  pc : Statement
  i : ℕ
  deriving DecidableEq

/-- The control of `for (int i = 1; i <= items; i++)`. -/
def Process.step (items : ℕ) (p : Process) : Process :=
  match p.pc with
  | .init => ⟨.test, 1⟩
  | .test => ⟨if p.i ≤ items then .wait else .done, p.i⟩
  | .wait => ⟨.access, p.i⟩
  | .access => ⟨.print, p.i⟩
  | .print => ⟨.advance, p.i⟩
  | .advance => ⟨.post, p.i⟩
  | .post => ⟨.sleep, p.i⟩
  | .sleep => ⟨.test, p.i + 1⟩
  | .done => p

/-- The semaphores by their values, the members of `shared_data_t`, the two processes and the
consumer's `item`. `produced` and `consumed` are the writes to the buffer and the reads, each with
its slot, the oldest first. -/
structure State where
  empty : ℕ
  full : ℕ
  buffer : ℕ → ℕ
  in_ : ℕ
  out : ℕ
  producer : Process
  consumer : Process
  item : ℕ
  produced : List (ℕ × ℕ)
  consumed : List (ℕ × ℕ)

/-- Who takes a step. -/
inductive Party
  | producer
  | consumer

/-- The effect of a statement of the producer. -/
def produce (size : ℕ) (u : State) : Statement → Option State
  | .init => some { u with in_ := 0 }
  | .wait =>
    match u.empty with
    | 0 => none
    | value + 1 => some { u with empty := value }
  | .access =>
    some { u with
      buffer := Function.update u.buffer u.in_ u.producer.i
      produced := u.produced ++ [(u.in_, u.producer.i)] }
  | .advance => some { u with in_ := (u.in_ + 1) % size }
  | .post => some { u with full := u.full + 1 }
  | .test | .print | .sleep => some u
  | .done => none

/-- The effect of a statement of the consumer, whose initialisation comes after the producer's. -/
def consume (size : ℕ) (u : State) : Statement → Option State
  | .init => if u.producer.pc = .init then none else some { u with out := 0 }
  | .wait =>
    match u.full with
    | 0 => none
    | value + 1 => some { u with full := value }
  | .access =>
    some { u with
      item := u.buffer u.out
      consumed := u.consumed ++ [(u.out, u.buffer u.out)] }
  | .advance => some { u with out := (u.out + 1) % size }
  | .post => some { u with empty := u.empty + 1 }
  | .test | .print | .sleep => some u
  | .done => none

/-- One statement of one of the two. -/
def next (size items : ℕ) (u : State) : Party → Option State
  | .producer =>
    (produce size u u.producer.pc).map fun v => { v with producer := u.producer.step items }
  | .consumer =>
    (consume size u u.consumer.pc).map fun v => { v with consumer := u.consumer.step items }

/-- Fresh semaphores, and both programs at their start. The shared memory may hold anything. -/
structure Start (size : ℕ) (u : State) : Prop where
  empty : u.empty = size
  full : u.full = 0
  producer : u.producer.pc = .init
  consumer : u.consumer.pc = .init
  produced : u.produced = []
  consumed : u.consumed = []

/-! ### What a channel promises -/

/-- The process waits for a semaphore without a unit. -/
def Blocked (size items : ℕ) (u : State) : Party → Prop
  | .producer => u.producer.pc = .wait ∧ next size items u .producer = none
  | .consumer => u.consumer.pc = .wait ∧ next size items u .consumer = none

/-- **A FIFO channel.** The `k`-th read is the `k`-th write; when the producer is about to write to
a slot, whatever was written there has been read; the indices are inside the array; and the two are
not blocked at once, nor is there any other state in which neither can go on but the one in which
both have handled all items. -/
structure Channel (size items : ℕ) (u : State) : Prop where
  fifo : ∀ (k : ℕ) (a : ℕ × ℕ), u.consumed[k]? = some a → u.produced[k]? = some a
  in_order : ∀ (k : ℕ) (a : ℕ × ℕ), u.produced[k]? = some a → a.2 = k + 1
  not_overwritten : u.producer.pc = .access →
    ∀ k x : ℕ, u.produced[k]? = some (u.in_, x) → k < u.consumed.length
  in_lt : u.producer.pc ≠ .init → u.in_ < size
  out_lt : u.consumer.pc ≠ .init → u.out < size
  not_blocked : ¬ (Blocked size items u .producer ∧ Blocked size items u .consumer)
  progress : (u.produced.length = items ∧ u.consumed.length = items ∧
      u.producer.pc = .done ∧ u.consumer.pc = .done) ∨
    ∃ party, next size items u party ≠ none

/-! ### Counting statements -/

/-- The place of a statement in a round of the loop. -/
def Statement.rank : Statement → ℕ
  | .init | .test | .done => 0
  | .wait => 1
  | .access => 2
  | .print => 3
  | .advance => 4
  | .post => 5
  | .sleep => 6

/-- How often a process has come past the statement `s` of its loop. -/
def Process.passed (p : Process) (s : Statement) : ℕ :=
  if p.pc = .init then 0 else p.i - 1 + if s.rank < p.pc.rank then 1 else 0

/-- The loop variable and the place in the loop agree. -/
structure Process.Wf (items : ℕ) (p : Process) : Prop where
  pos : p.pc ≠ .init → 1 ≤ p.i
  le : p.pc ≠ .init → p.pc ≠ .test → p.pc ≠ .done → p.i ≤ items
  test : p.pc = .test → p.i ≤ items + 1
  done : p.pc = .done → p.i = items + 1

/-- The statements of the loop that do something. -/
def Statement.Counts : Statement → Prop
  | .wait | .access | .advance | .post => True
  | _ => False

theorem Process.Wf.step {items : ℕ} {p : Process} (h : p.Wf items) (h_done : p.pc ≠ .done) :
    (p.step items).Wf items := by
  obtain ⟨h_pos, h_le, h_test, -⟩ := h
  obtain ⟨pc, i⟩ := p
  cases pc with
  | init => constructor <;> simp [Process.step]
  | test =>
    -- the loop is left with the first `i` that is too large
    have h_test : i ≤ items + 1 := h_test rfl
    have h_pos : 1 ≤ i := h_pos (by simp)
    by_cases h_i : i ≤ items
    · constructor <;> simp [Process.step, h_i, h_pos]
    · constructor <;> simp [Process.step, h_i] <;> omega
  | sleep =>
    have h_le : i ≤ items := h_le (by simp) (by simp) (by simp)
    constructor <;> simp [Process.step, h_le]
  | done => exact absurd rfl h_done
  | _ => constructor <;> simp_all [Process.step]

/-- **A step counts at its own statement**, and at no other. -/
theorem Process.passed_step {items : ℕ} {p : Process} (h : p.Wf items) {s : Statement}
    (h_s : s.Counts) : (p.step items).passed s = p.passed s + if p.pc = s then 1 else 0 := by
  have h_pos := h.pos
  obtain ⟨pc, i⟩ := p
  -- within a round the count of `s` goes up when `pc` comes past it, and the next round begins with
  -- all counts equal
  cases pc with
  | init =>
    cases s <;> simp [Statement.Counts] at h_s <;>
      simp [Process.step, Process.passed, Statement.rank]
  | test =>
    by_cases h_i : i ≤ items <;> cases s <;> simp [Statement.Counts] at h_s <;>
      simp [Process.step, Process.passed, Statement.rank, h_i]
  | sleep =>
    have h_pos : 1 ≤ i := h_pos (by simp)
    cases s <;> simp [Statement.Counts] at h_s <;>
      simp [Process.step, Process.passed, Statement.rank] <;> omega
  | _ =>
    cases s <;> simp [Statement.Counts] at h_s <;>
      simp [Process.step, Process.passed, Statement.rank]

/-- An earlier statement is passed at least as often as a later one, and at most once more. -/
theorem Process.passed_le (p : Process) {s t : Statement} (h : s.rank ≤ t.rank) :
    p.passed t ≤ p.passed s ∧ p.passed s ≤ p.passed t + 1 := by
  rw [Process.passed, Process.passed]
  split_ifs <;> omega

/-! ### What a step can do -/

/-- The effect of the statement `s` of the producer, field by field. -/
structure Produces (size : ℕ) (u : State) (s : Statement) (v : State) : Prop where
  ne_done : s ≠ .done
  empty : v.empty + (if s = .wait then 1 else 0) = u.empty
  full : v.full = u.full + if s = .post then 1 else 0
  in_ : v.in_ = if s = .init then 0 else if s = .advance then (u.in_ + 1) % size else u.in_
  out : v.out = u.out
  consumer : v.consumer = u.consumer
  buffer : v.buffer =
    if s = .access then Function.update u.buffer u.in_ u.producer.i else u.buffer
  produced : v.produced = u.produced ++ if s = .access then [(u.in_, u.producer.i)] else []
  consumed : v.consumed = u.consumed

/-- The effect of the statement `s` of the consumer, field by field. -/
structure Consumes (size : ℕ) (u : State) (s : Statement) (v : State) : Prop where
  ne_done : s ≠ .done
  started : s = .init → u.producer.pc ≠ .init
  empty : v.empty = u.empty + if s = .post then 1 else 0
  full : v.full + (if s = .wait then 1 else 0) = u.full
  in_ : v.in_ = u.in_
  producer : v.producer = u.producer
  out : v.out = if s = .init then 0 else if s = .advance then (u.out + 1) % size else u.out
  buffer : v.buffer = u.buffer
  produced : v.produced = u.produced
  consumed : v.consumed = u.consumed ++ if s = .access then [(u.out, u.buffer u.out)] else []

variable {size items : ℕ} {u v w : State} {s : Statement}

theorem produces_of_produce (h : produce size u s = some v) : Produces size u s v := by
  cases s with
  | wait =>
    -- with no unit there is no step
    rw [produce] at h
    cases h_empty : u.empty with
    | zero => simp [h_empty] at h
    | succ value =>
      obtain rfl : { u with empty := value } = v := by simpa [h_empty] using h
      constructor <;> simp [h_empty]
  | done => simp [produce] at h
  | _ =>
    obtain rfl := Option.some.inj h
    constructor <;> simp

theorem consumes_of_consume (h : consume size u s = some v) : Consumes size u s v := by
  cases s with
  | init =>
    rw [consume] at h
    obtain ⟨h_started, h⟩ := Option.ite_none_left_eq_some.mp h
    obtain rfl := Option.some.inj h
    constructor <;> simp [h_started]
  | wait =>
    rw [consume] at h
    cases h_full : u.full with
    | zero => simp [h_full] at h
    | succ value =>
      -- a unit of `full` is taken, and nothing else changes
      obtain rfl : { u with full := value } = v := by simpa [h_full] using h
      constructor <;> simp [h_full]
  | done => simp [consume] at h
  | _ =>
    obtain rfl := Option.some.inj h
    constructor <;> simp

/-- A step of the producer: the effect of its statement, and its control goes on. -/
theorem next_producer (h : next size items u .producer = some v) :
    Produces size u u.producer.pc v ∧ v.producer = u.producer.step items := by
  obtain ⟨w, h_w, rfl⟩ := Option.map_eq_some_iff.mp h
  obtain ⟨h_done, h_empty, h_full, h_in, h_out, h_consumer, h_buffer, h_produced, h_consumed⟩ :=
    produces_of_produce h_w
  exact ⟨⟨h_done, h_empty, h_full, h_in, h_out, h_consumer, h_buffer, h_produced, h_consumed⟩,
    rfl⟩

/-- A step of the consumer. -/
theorem next_consumer (h : next size items u .consumer = some v) :
    Consumes size u u.consumer.pc v ∧ v.consumer = u.consumer.step items := by
  obtain ⟨w, h_w, rfl⟩ := Option.map_eq_some_iff.mp h
  obtain ⟨h_done, h_started, h_empty, h_full, h_in, h_producer, h_out, h_buffer, h_produced,
    h_consumed⟩ := consumes_of_consume h_w
  exact ⟨⟨h_done, h_started, h_empty, h_full, h_in, h_producer, h_out, h_buffer, h_produced,
    h_consumed⟩, rfl⟩

/-! ### The invariant -/

/-- The first `n` accesses of a party: in the order of the slots, with the items `1`, `2`, .. -/
def accesses (size n : ℕ) : List (ℕ × ℕ) :=
  (List.range n).map fun k => (k % size, k + 1)

@[simp] theorem length_accesses (size n : ℕ) : (accesses size n).length = n := by
  rw [accesses, List.length_map, List.length_range]

theorem accesses_succ (size n : ℕ) :
    accesses size (n + 1) = accesses size n ++ [(n % size, n + 1)] := by
  rw [accesses, List.range_succ, List.map_append]
  rfl

theorem accesses_getElem? {size n k : ℕ} {a : ℕ × ℕ} :
    (accesses size n)[k]? = some a ↔ k < n ∧ a = (k % size, k + 1) := by
  by_cases h_k : k < n
  · simp [accesses, h_k, eq_comm]
  · simp [accesses, h_k]

/-- **The joint invariant.** The semaphores count the slots that are free and those that are full,
up to the units that the two processes hold; the indices and the recorded accesses follow the
control of their process; and the ring holds the items that were written and not yet read. -/
structure Inv (size items : ℕ) (u : State) : Prop where
  producer : u.producer.Wf items
  consumer : u.consumer.Wf items
  started : u.producer.pc = .init → u.consumer.pc = .init
  empty : u.empty + u.producer.passed .wait = size + u.consumer.passed .post
  full : u.full + u.consumer.passed .wait = u.producer.passed .post
  in_ : u.producer.pc ≠ .init → u.in_ = u.producer.passed .advance % size
  out : u.consumer.pc ≠ .init → u.out = u.consumer.passed .advance % size
  produced : u.produced = accesses size (u.producer.passed .access)
  consumed : u.consumed = accesses size (u.consumer.passed .access)
  window : Window size u.buffer (· + 1) (u.consumer.passed .access) (u.producer.passed .access)

theorem Process.passed_init {p : Process} (h : p.pc = .init) (s : Statement) : p.passed s = 0 :=
  if_pos h

theorem Process.wf_init {p : Process} (h : p.pc = .init) : p.Wf items := by
  constructor <;> simp [h]

theorem Start.inv (h : Start size u) : Inv size items u := by
  have h_p := Process.passed_init h.producer
  have h_c := Process.passed_init h.consumer
  constructor
  case producer => exact Process.wf_init h.producer
  case consumer => exact Process.wf_init h.consumer
  case window =>
    rw [h_p, h_c]
    exact Window.empty 0
  all_goals
    simp [h_p, h_c, h.empty, h.full, h.producer, h.consumer, h.produced, h.consumed, accesses]

/-- The reads are behind the writes, by at most one ring. -/
theorem Inv.access_le (h : Inv size items u) :
    u.consumer.passed .access ≤ u.producer.passed .access := by
  have h_full := h.full
  -- each read took a unit of `full`, and each of these was posted behind a write
  have h_read := (u.consumer.passed_le (s := .wait) (t := .access) (by decide)).1
  have h_written := (u.producer.passed_le (s := .access) (t := .post) (by decide)).1
  omega

/-- In its round `i` a process has passed the earlier statements `i` times and the others once
less. -/
theorem Process.passed_at {p : Process} (h : p.Wf items) (h_pc : p.pc ≠ .init) (t : Statement) :
    p.passed t + 1 = p.i + if t.rank < p.pc.rank then 1 else 0 := by
  have h_pos := h.pos h_pc
  rw [Process.passed, if_neg h_pc]
  omega

theorem Process.step_ne_init (p : Process) : (p.step items).pc ≠ .init := by
  obtain ⟨pc, i⟩ := p
  cases pc with
  | test =>
    rw [Process.step]
    dsimp only
    split_ifs <;> simp
  | _ => simp [Process.step]

/-- At the access, the index of the process is the number of its accesses. -/
theorem Process.access_at {p : Process} (h : p.Wf items) (h_pc : p.pc = .access) :
    p.passed .wait = p.passed .access + 1 ∧ p.passed .advance = p.passed .access ∧
      p.passed .access + 1 = p.i := by
  have h_ne : p.pc ≠ .init := by simp [h_pc]
  have h_at := Process.passed_at h h_ne
  have h_wait := h_at .wait
  have h_access := h_at .access
  have h_advance := h_at .advance
  simp [h_pc, Statement.rank] at h_wait h_access h_advance
  omega

/-- The advance of an index that counts modulo `size`. -/
theorem advance_eq {index n : ℕ} {p : Process} (h : p.pc ≠ .init → index = n % size)
    (h_init : p.pc = .init → n = 0) :
    (if p.pc = .init then 0 else if p.pc = .advance then (index + 1) % size else index) =
      (n + if p.pc = .advance then 1 else 0) % size := by
  split_ifs with h_pc h_pc' h_pc'
  · simp [h_pc] at h_pc'
  · simp [h_init h_pc]
  · rw [h h_pc, Nat.mod_add_mod]
  · exact h h_pc

theorem Inv.next_producer (h : Inv size items u) (h_next : next size items u .producer = some v) :
    Inv size items v := by
  obtain ⟨h_eff, h_control⟩ := SemaphoreTest.next_producer h_next
  have h_passed : ∀ s : Statement, s.Counts →
      v.producer.passed s = u.producer.passed s + if u.producer.pc = s then 1 else 0 := by
    intro s h_s
    rw [h_control]
    exact Process.passed_step h.producer h_s
  constructor
  case producer =>
    rw [h_control]
    exact h.producer.step h_eff.ne_done
  case consumer =>
    rw [h_eff.consumer]
    exact h.consumer
  case started =>
    -- behind a step the producer has started
    intro h_pc
    rw [h_control] at h_pc
    exact absurd h_pc u.producer.step_ne_init
  case empty =>
    -- the unit that the producer takes counts as passed by its wait
    have h_old := h.empty
    have h_new := h_eff.empty
    rw [h_passed .wait trivial, h_eff.consumer]
    omega
  case full =>
    have h_old := h.full
    have h_new := h_eff.full
    rw [h_passed .post trivial, h_eff.consumer]
    omega
  case in_ =>
    intro _
    rw [h_passed .advance trivial, h_eff.in_]
    exact advance_eq h.in_ fun h_pc => Process.passed_init h_pc _
  case out =>
    rw [h_eff.consumer, h_eff.out]
    exact h.out
  case consumed =>
    rw [h_eff.consumer, h_eff.consumed]
    exact h.consumed
  case produced =>
    rw [h_passed .access trivial, h_eff.produced, h.produced]
    by_cases h_pc : u.producer.pc = .access
    · -- the access number `n` writes the item `n + 1` to the slot `n % size`
      obtain ⟨-, h_advance, h_i⟩ := Process.access_at h.producer h_pc
      rw [if_pos h_pc, if_pos h_pc, accesses_succ, h.in_ (by simp [h_pc]), h_advance, h_i]
    · rw [if_neg h_pc, if_neg h_pc, List.append_nil, Nat.add_zero]
  case window =>
    rw [h_passed .access trivial, h_eff.consumer, h_eff.buffer]
    by_cases h_pc : u.producer.pc = .access
    · -- the unit of `empty` that the producer took is a free slot
      obtain ⟨h_wait, h_advance, h_i⟩ := Process.access_at h.producer h_pc
      have h_empty := h.empty
      have h_read := (u.consumer.passed_le (s := .access) (t := .post) (by decide)).1
      rw [if_pos h_pc, if_pos h_pc, h.in_ (by simp [h_pc]), h_advance, ← h_i]
      exact h.window.store (by omega)
    · rw [if_neg h_pc, if_neg h_pc]
      exact h.window

theorem Inv.next_consumer (h : Inv size items u) (h_next : next size items u .consumer = some v) :
    Inv size items v := by
  obtain ⟨h_eff, h_control⟩ := SemaphoreTest.next_consumer h_next
  have h_passed : ∀ s : Statement, s.Counts →
      v.consumer.passed s = u.consumer.passed s + if u.consumer.pc = s then 1 else 0 := by
    intro s h_s
    rw [h_control]
    exact Process.passed_step h.consumer h_s
  constructor
  case producer =>
    rw [h_eff.producer]
    exact h.producer
  case consumer =>
    rw [h_control]
    exact h.consumer.step h_eff.ne_done
  case started =>
    -- the consumer only starts when the producer has
    intro h_pc
    rw [h_eff.producer] at h_pc
    exact absurd h_pc (h_eff.started (h.started h_pc))
  case empty =>
    have h_old := h.empty
    have h_new := h_eff.empty
    rw [h_passed .post trivial, h_eff.producer]
    omega
  case full =>
    -- the same with the unit of the consumer
    have h_old := h.full
    have h_new := h_eff.full
    rw [h_passed .wait trivial, h_eff.producer]
    omega
  case in_ =>
    rw [h_eff.producer, h_eff.in_]
    exact h.in_
  case out =>
    intro _
    rw [h_passed .advance trivial, h_eff.out]
    exact advance_eq h.out fun h_pc => Process.passed_init h_pc _
  case produced =>
    rw [h_eff.producer, h_eff.produced]
    exact h.produced
  case consumed =>
    rw [h_passed .access trivial, h_eff.consumed, h.consumed]
    by_cases h_pc : u.consumer.pc = .access
    · -- the unit of `full` that the consumer took is an item that was written
      obtain ⟨h_wait, h_advance, -⟩ := Process.access_at h.consumer h_pc
      have h_full := h.full
      have h_written := (u.producer.passed_le (s := .access) (t := .post) (by decide)).1
      rw [if_pos h_pc, if_pos h_pc, accesses_succ, h.out (by simp [h_pc]), h_advance,
        h.window.load (by omega)]
    · rw [if_neg h_pc, if_neg h_pc, List.append_nil, Nat.add_zero]
  case window =>
    rw [h_passed .access trivial, h_eff.producer, h_eff.buffer]
    by_cases h_pc : u.consumer.pc = .access
    · -- what was read need not be there any longer
      rw [if_pos h_pc]
      exact h.window.drop
    · rw [if_neg h_pc]
      exact h.window

theorem Inv.next (h : Inv size items u) (party : Party)
    (h_next : SemaphoreTest.next size items u party = some v) : Inv size items v := by
  cases party with
  | producer => exact h.next_producer h_next
  | consumer => exact h.next_consumer h_next

/-! ### The channel -/

/-- The producer cannot go on: it is through, or it waits for a unit of `empty`. -/
theorem stuck_producer (h : SemaphoreTest.next size items u .producer = none) :
    u.producer.pc = .done ∨ (u.producer.pc = .wait ∧ u.empty = 0) := by
  rw [SemaphoreTest.next, Option.map_eq_none_iff] at h
  cases h_pc : u.producer.pc <;> rw [h_pc, produce] at h
  case done => exact Or.inl rfl
  case wait =>
    cases h_empty : u.empty with
    | zero => exact Or.inr ⟨rfl, rfl⟩
    | succ value => simp [h_empty] at h
  all_goals cases h

/-- The consumer cannot go on: it is through, it waits for a unit of `full`, or the producer has not
started. -/
theorem stuck_consumer (h : SemaphoreTest.next size items u .consumer = none) :
    u.consumer.pc = .done ∨ (u.consumer.pc = .wait ∧ u.full = 0) ∨ u.producer.pc = .init := by
  rw [SemaphoreTest.next, Option.map_eq_none_iff] at h
  cases h_pc : u.consumer.pc <;> rw [h_pc, consume] at h
  case done => exact Or.inl rfl
  case init =>
    by_cases h_started : u.producer.pc = .init
    · exact Or.inr (Or.inr h_started)
    · rw [if_neg h_started] at h
      cases h
  case wait =>
    cases h_full : u.full with
    | zero => exact Or.inr (Or.inl ⟨rfl, rfl⟩)
    | succ value => simp [h_full] at h
  all_goals cases h

/-- A process that is through has passed every statement `items` times. -/
theorem Process.passed_done {p : Process} (h : p.Wf items) (h_pc : p.pc = .done) (t : Statement) :
    p.passed t = items := by
  have h_at := Process.passed_at h (by simp [h_pc]) t
  have h_i := h.done h_pc
  simp [h_pc, Statement.rank] at h_at
  omega

/-- A process that waits has passed every statement equally often, and less than `items` times. -/
theorem Process.passed_wait {p : Process} (h : p.Wf items) (h_pc : p.pc = .wait) {t : Statement}
    (h_t : t.Counts) : p.passed t = p.passed .wait ∧ p.passed t < items := by
  have h_at := Process.passed_at h (by simp [h_pc])
  have h_wait := h_at .wait
  have h_here := h_at t
  have h_le := h.le (by simp [h_pc]) (by simp [h_pc]) (by simp [h_pc])
  cases t <;> simp [Statement.Counts] at h_t <;>
    simp [h_pc, Statement.rank] at h_wait h_here <;> omega

/-- The producer and the consumer never wait for each other. -/
theorem Inv.not_waiting (h : Inv size items u) (h_size : 1 ≤ size)
    (h_producer : u.producer.pc = .wait) (h_empty : u.empty = 0)
    (h_consumer : u.consumer.pc = .wait) (h_full : u.full = 0) : False := by
  -- neither holds a unit, so all slots would have to be in the two empty semaphores
  have h_p := (Process.passed_wait h.producer h_producer (t := .post) trivial).1
  have h_c := (Process.passed_wait h.consumer h_consumer (t := .post) trivial).1
  have h_free := h.empty
  have h_used := h.full
  omega

/-- In every other state with the invariant somebody can go on. -/
theorem Inv.progress (h : Inv size items u) (h_size : 1 ≤ size) :
    (u.produced.length = items ∧ u.consumed.length = items ∧
      u.producer.pc = .done ∧ u.consumer.pc = .done) ∨
    ∃ party, SemaphoreTest.next size items u party ≠ none := by
  by_contra h_stuck
  push Not at h_stuck
  obtain ⟨h_not_through, h_none⟩ := h_stuck
  have h_free := h.empty
  have h_used := h.full
  -- each is through or waits; the consumer waits for the producer's start only while that can go on
  rcases stuck_producer (h_none .producer) with h_producer | ⟨h_producer, h_empty⟩ <;>
    rcases stuck_consumer (h_none .consumer) with h_consumer | ⟨h_consumer, h_full⟩ | h_init
  · apply h_not_through _ _ h_producer h_consumer
    · rw [h.produced, length_accesses, Process.passed_done h.producer h_producer]
    · rw [h.consumed, length_accesses, Process.passed_done h.consumer h_consumer]
  · -- all items were posted, and the consumer has not taken all of them
    have h_p := Process.passed_done h.producer h_producer .post
    have h_c := (Process.passed_wait h.consumer h_consumer (t := .wait) trivial).2
    omega
  · -- a producer that is through has started
    simp [h_producer] at h_init
  · -- all slots were given back, and the producer has not taken all of them
    have h_p := (Process.passed_wait h.producer h_producer (t := .wait) trivial).2
    have h_c := Process.passed_done h.consumer h_consumer .post
    omega
  · exact h.not_waiting h_size h_producer h_empty h_consumer h_full
  · simp [h_producer] at h_init

theorem Inv.isChannel (h : Inv size items u) (h_size : 1 ≤ size) : Channel size items u := by
  constructor
  case fifo =>
    -- both records are the first accesses, and the reads are fewer
    intro k a h_read
    rw [h.consumed, accesses_getElem?] at h_read
    rw [h.produced, accesses_getElem?]
    exact ⟨lt_of_lt_of_le h_read.1 h.access_le, h_read.2⟩
  case in_order =>
    intro k a h_written
    rw [h.produced, accesses_getElem?] at h_written
    rw [h_written.2]
  case not_overwritten =>
    -- an unread item in the slot would be less than a ring behind the write
    intro h_pc k x h_written
    rw [h.produced, accesses_getElem?, h.in_ (by simp [h_pc])] at h_written
    obtain ⟨h_k, h_slot⟩ := h_written
    obtain ⟨h_wait, h_advance, -⟩ := Process.access_at h.producer h_pc
    rw [h_advance] at h_slot
    rw [h.consumed, length_accesses]
    by_contra h_unread
    have h_free := h.empty
    have h_read := (u.consumer.passed_le (s := .access) (t := .post) (by decide)).1
    exact mod_ne_of_lt h_k (by omega) (congrArg Prod.fst h_slot).symm
  case in_lt =>
    intro h_pc
    rw [h.in_ h_pc]
    exact Nat.mod_lt _ h_size
  case out_lt =>
    intro h_pc
    rw [h.out h_pc]
    exact Nat.mod_lt _ h_size
  case not_blocked =>
    rintro ⟨⟨h_producer, h_stuck⟩, h_consumer, h_stuck'⟩
    have h_empty : u.empty = 0 := by simpa [h_producer] using stuck_producer h_stuck
    have h_full : u.full = 0 := by simpa [h_producer, h_consumer] using stuck_consumer h_stuck'
    exact h.not_waiting h_size h_producer h_empty h_consumer h_full
  case progress => exact h.progress h_size

/-- **The bounded buffer is a FIFO channel**, for every size of the buffer, every number of items
and every interleaving of the two programs. -/
theorem channel (h_size : 1 ≤ size) (h_start : Start size u) {steps : List Party}
    (h_visits : Visits (SemaphoreTest.next size items) u steps v) : Channel size items v := by
  have h_inv : Inv size items v :=
    visits_invariant (I := Inv size items) (fun _ party _ h h_next => h.next party h_next)
      h_start.inv h_visits
  exact h_inv.isChannel h_size

/-- Fresh semaphores over a shared memory that holds `7` everywhere. -/
def fresh (size : ℕ) : State where
  empty := size
  full := 0
  buffer := fun _ => 7
  in_ := 7
  out := 7
  producer := ⟨.init, 7⟩
  consumer := ⟨.init, 7⟩
  item := 7
  produced := []
  consumed := []

/-- A buffer with one slot, and two items: the producer runs until it waits for the slot, the
consumer reads, and both go through to their end. -/
theorem channel_two : ∃ v, exec (next 1 2) (fresh 1)
      (List.replicate 9 .producer ++ List.replicate 7 .consumer ++ List.replicate 7 .producer ++
        List.replicate 9 .consumer) = some v ∧
    v.consumed = [(0, 1), (0, 2)] ∧ Channel 1 2 v := by
  refine ⟨_, rfl, rfl, ?_⟩
  have h_start : Start 1 (fresh 1) := ⟨rfl, rfl, rfl, rfl, rfl, rfl⟩
  have h_visits : Visits (next 1 2) (fresh 1)
      (List.replicate 9 .producer ++ List.replicate 7 .consumer ++ List.replicate 7 .producer ++
        List.replicate 9 .consumer) _ := Visits.last rfl
  exact channel le_rfl h_start h_visits

end SemaphoreTest
end WateRMQ
