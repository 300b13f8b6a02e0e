import WateRMQ.Frontend.Delivery
import WateRMQ.Frontend.LifeCycle

/-!
# What opening and destroying instances does to pending messages

`pendingKept_iff`: while other instances of the name are constructed and destroyed, the messages
that an attached instance sees stay the same exactly when there are none, or no instance is cleaned
up while it is attached to the same shared memory. `_init` is harmless: it wipes the slots of a
queue without messages only. `_cleanup` makes every slot of the shared array null and leaves `front`
and `count` as they are, so what is left is `Stuck`: the readers go on to find a message there, in a
slot without a string (`reads_of_stuck`).
-/

namespace WateRMQ
namespace Frontend

open CMem Posix Runs

section Pending

variable {ι : Type} [CPointer ι]

/-- A queue in which every pending slot holds a pointer. -/
structure Filled (q : Queue ι) : Prop where
  front_inArray : InArray q.front
  count_ge : 0 ≤ q.count
  count_le : q.count ≤ maxSize
  slots : ∀ k : ℕ, k < q.count → q.items ((q.front + k) % maxSize) ≠ CPointer.null

omit [CPointer ι] in
/-- The pending messages of `q'` are those of `q`. -/
structure SamePending (q q' : Queue ι) : Prop where
  front : q'.front = q.front
  count : q'.count = q.count
  items : ∀ k : ℕ, k < q.count →
    q'.items ((q.front + k) % maxSize) = q.items ((q.front + k) % maxSize)

/-- There are messages, and the front slot is null. -/
def Stuck (q : Queue ι) : Prop := 0 < q.count ∧ q.items q.front = CPointer.null

omit [CPointer ι] in
theorem SamePending.refl (q : Queue ι) : SamePending q q :=
  ⟨rfl, rfl, fun _ _ => rfl⟩

omit [CPointer ι] in
theorem SamePending.trans {q q' q'' : Queue ι} (h : SamePending q q') (h' : SamePending q' q'') :
    SamePending q q'' where
  front := h'.front.trans h.front
  count := h'.count.trans h.count
  items k hk := by
    have h_slot := h'.items k (by rwa [h.count])
    rw [h.front] at h_slot
    exact h_slot.trans (h.items k hk)

/-- Without messages there are no slots that could change. -/
theorem SamePending.emptied {q : Queue ι} (h : q.count = 0) : SamePending q (emptied q) where
  front := rfl
  count := rfl
  items k hk := by omega

/-- `_init` wipes the slots of a queue without messages only. -/
theorem SamePending.initializeIfUnused (q : Queue ι) : SamePending q (initializeIfUnused q) := by
  by_cases h : q.front = 0 ∧ q.rear = 0 ∧ q.count = 0
  · rw [show Frontend.initializeIfUnused q = _ from if_pos h]
    exact ⟨h.1.symm, h.2.2.symm, fun k hk => by have := h.2.2; omega⟩
  · rw [show Frontend.initializeIfUnused q = q from if_neg h]
    exact SamePending.refl q

/-- The front slot is the first pending one. -/
theorem Filled.not_stuck {q q' : Queue ι} (h : Filled q) (h_same : SamePending q q') :
    ¬ Stuck q' := by
  rintro ⟨h_count, h_null⟩
  rw [h_same.count] at h_count
  have h_first := h_same.items 0 (by exact_mod_cast h_count)
  rw [Nat.cast_zero, add_zero, emod_of_inArray h.front_inArray] at h_first
  have h_slot := h.slots 0 (by exact_mod_cast h_count)
  rw [Nat.cast_zero, add_zero, emod_of_inArray h.front_inArray, ← h_first, ← h_same.front] at h_slot
  exact h_slot h_null

/-- What `_cleanup` makes of a queue with messages. -/
theorem Filled.stuck_emptied {q q' : Queue ι} (h : Filled q) (h_same : SamePending q q')
    (h_count : q.count ≠ 0) : Stuck (Frontend.emptied q') := by
  refine ⟨?_, ?_⟩
  · change 0 < q'.count
    rw [h_same.count]
    exact lt_of_le_of_ne h.count_ge h_count.symm
  · change (if InArray q'.front then CPointer.null else q'.items q'.front) = CPointer.null
    rw [h_same.front, if_pos h.front_inArray]

/-- **A stuck queue stays stuck**: every call of `consumingMessage` returns the empty string and
changes nothing. -/
theorem reads_of_stuck [DecidableEq ι] {str : ι → Except Fault (List UInt8)} {w : WateRMQ ι}
    {q : Queue ι} {value : ℕ} (h : Stuck q) (h_front : InArray q.front)
    (h_sem : w.sem = some (value + 1)) (h_queue : w.ptrQueue = some q) (n : ℕ) :
    reads str w n = .ok (List.replicate n (some [], some q.count), w) := by
  induction n with
  | zero => rfl
  | succ n ih =>
    have h_read : Checked.consumingMessage str w = .ok ([], w) :=
      (Checked.readMessage_eq str w).trans
        (readMessage_of_null h_sem h_queue h.1.ne' h_front h.2)
    refine bind_eq_ok.mpr ⟨_, ih, bind_eq_ok.mpr ⟨_, h_read, ?_⟩⟩
    dsimp only
    rw [h_queue, List.replicate_succ']
    rfl

end Pending

/-! ### One step of another instance -/

namespace System

variable {I ι : Type} [DecidableEq I] [CPointer ι] [DecidableEq ι]

/-- The instance `i` sees the messages of `q`, and is not stuck. -/
def PendingKept (q : Queue ι) (i : I) (u : System I ι) : Prop :=
  ∃ q', u.queue i = some q' ∧ SamePending q q' ∧ ¬ Stuck q'

/-- The shared-memory object `fd` holds the messages of `q`, and the instance `i` is attached to
it. -/
structure Keeps (q : Queue ι) (i : I) (fd : ℕ) (u : System I ι) : Prop where
  ptr : u.ptrQueue i = some fd
  object : ∃ q', u.store.shm.objects[fd]? = some (some q') ∧ SamePending q q'

omit [DecidableEq I] [CPointer ι] [DecidableEq ι] in
/-- The queue of an instance is the object that its pointer is mapped to. -/
theorem queue_of_object {u : System I ι} {i : I} {fd : ℕ} {q : Queue ι}
    (h_ptr : u.ptrQueue i = some fd) (h_object : u.store.shm.objects[fd]? = some (some q)) :
    u.queue i = some q := by
  rw [queue, h_ptr, Option.bind_some, h_object]
  rfl

omit [DecidableEq I] [CPointer ι] [DecidableEq ι] in
/-- It has one at first. -/
theorem Keeps.start {u : System I ι} {i : I} {q : Queue ι} (h : u.queue i = some q) :
    ∃ fd, Keeps q i fd u := by
  obtain ⟨fd, h_ptr, h_object⟩ := Option.bind_eq_some_iff.mp h
  obtain ⟨contents, h_object, rfl⟩ := Option.bind_eq_some_iff.mp h_object
  exact ⟨fd, h_ptr, q, h_object, SamePending.refl q⟩

omit [DecidableEq I] [DecidableEq ι] in
/-- Then all messages are there and can be read. -/
theorem Keeps.pendingKept {u : System I ι} {i : I} {fd : ℕ} {q : Queue ι} (h : Keeps q i fd u)
    (h_filled : Filled q) : PendingKept q i u := by
  obtain ⟨h_ptr, q', h_object, h_same⟩ := h
  exact ⟨q', queue_of_object h_ptr h_object, h_same, h_filled.not_stuck h_same⟩

/-- The steps of the others leave an instance attached to what it is attached to. -/
theorem ptrQueue_next {u v : System I ι} {a : LifeStep I} {i : I} (h : u.next a = some v)
    (h_other : a.instance ≠ i) : v.ptrQueue i = u.ptrQueue i := by
  have h_life : v.life i = u.life i := by
    cases a with
    | construct j calls =>
      rw [(next_construct h).2.2]
      exact Function.update_of_ne (Ne.symm h_other) _ _
    | destroy j =>
      obtain ⟨m, -, -, -, h_others⟩ := next_cleanup (cleansUp_destroy j) h
      exact h_others i (Ne.symm h_other)
    | destruct j =>
      obtain ⟨m, -, -, -, h_others⟩ := next_cleanup (cleansUp_destruct j) h
      exact h_others i (Ne.symm h_other)
  rw [ptrQueue, h_life, ptrQueue]

/-- The step is a `_cleanup` of an instance that is attached where `i` is. -/
def CleansBeside (i : I) (u : System I ι) (a : LifeStep I) : Prop :=
  ∃ j, a.CleansUp j ∧ u.ptrQueue j = u.ptrQueue i

/-- The constructor of another instance maps the same object, or a new one. -/
theorem Keeps.construct {u v : System I ι} {i j : I} {calls : InitCalls} {fd : ℕ} {q : Queue ι}
    (h : Keeps q i fd u) (h_next : u.next (.construct j calls) = some v) (h_other : j ≠ i) :
    Keeps q i fd v := by
  obtain ⟨h_ptr, q', h_object, h_same⟩ := h
  refine ⟨(ptrQueue_next h_next h_other).trans h_ptr, ?_⟩
  rw [(next_construct h_next).2.1]
  rcases init_shm calls u.store with ⟨-, h_shm⟩ | h_opened
  · -- `shm_open` has failed
    rw [h_shm]
    exact ⟨q', h_object, h_same⟩
  · -- whatever was opened, `q'` is as it was or initialised because it looked unused
    rcases h_opened.object fd q' h_object with h_object' | h_object'
    · exact ⟨q', h_object', h_same⟩
    · exact ⟨_, h_object', h_same.trans (.initializeIfUnused q')⟩

/-- The sweep of another instance frees what is in its own queue. -/
theorem Keeps.cleanup {u v : System I ι} {i j : I} {a : LifeStep I} {fd : ℕ} {q : Queue ι}
    (h : Keeps q i fd u) (h_cleans : a.CleansUp j) (h_next : u.next a = some v)
    (h_other : a.instance ≠ i) (h_good : q.count = 0 ∨ u.ptrQueue j ≠ u.ptrQueue i) :
    Keeps q i fd v := by
  obtain ⟨h_ptr, q', h_object, h_same⟩ := h
  refine ⟨(ptrQueue_next h_next h_other).trans h_ptr, ?_⟩
  obtain ⟨m, h_life, h_store, -, -⟩ := next_cleanup h_cleans h_next
  have h_j : u.ptrQueue j = m.ptrQueue := by rw [ptrQueue, h_life]
  rw [h_store]
  by_cases h_fd : m.ptrQueue = some fd
  · -- the object of `i` is emptied, so there was nothing in it
    have h_empty : q.count = 0 := h_good.resolve_right fun h_ne => h_ne (by rw [h_j, h_fd, h_ptr])
    exact ⟨_, cleanup_object h_fd h_object, h_same.trans (.emptied (h_same.count.trans h_empty))⟩
  · exact ⟨q', (cleanup_object_of_ne h_fd).trans h_object, h_same⟩

/-- Every step of another instance, unless it sweeps the queue that both have. -/
theorem Keeps.next {u v : System I ι} {i : I} {a : LifeStep I} {fd : ℕ} {q : Queue ι}
    (h : Keeps q i fd u) (h_next : u.next a = some v) (h_other : a.instance ≠ i)
    (h_good : q.count = 0 ∨ ¬ CleansBeside i u a) : Keeps q i fd v := by
  have h_of : ∀ j, a.CleansUp j → q.count = 0 ∨ u.ptrQueue j ≠ u.ptrQueue i :=
    fun j h_j => h_good.imp id fun h_not h_eq => h_not ⟨j, h_j, h_eq⟩
  -- a constructor never takes messages away; a `_cleanup` only beside `i`
  cases a with
  | construct j calls => exact h.construct h_next h_other
  | destroy j => exact h.cleanup (cleansUp_destroy j) h_next h_other (h_of j rfl)
  | destruct j => exact h.cleanup (cleansUp_destruct j) h_next h_other (h_of j rfl)

/-- A `_cleanup` on the same shared memory leaves a stuck queue behind. -/
theorem Keeps.stuck {u v : System I ι} {i : I} {a : LifeStep I} {fd : ℕ} {q : Queue ι}
    (h : Keeps q i fd u) (h_filled : Filled q) (h_next : u.next a = some v)
    (h_other : a.instance ≠ i) (h_count : q.count ≠ 0) (h_beside : CleansBeside i u a) :
    ∃ q', v.queue i = some q' ∧ InArray q'.front ∧ Stuck q' := by
  obtain ⟨h_ptr, q', h_object, h_same⟩ := h
  obtain ⟨j, h_cleans, h_j⟩ := h_beside
  obtain ⟨m, h_life, h_store, -, -⟩ := next_cleanup h_cleans h_next
  -- the instance that is cleaned up frees the slots that `i` sees
  have h_fd : m.ptrQueue = some fd := by
    rw [← h_ptr, ← h_j, ptrQueue, h_life]
  have h_front : InArray q'.front := h_same.front ▸ h_filled.front_inArray
  refine ⟨emptied q', ?_, h_front, h_filled.stuck_emptied h_same h_count⟩
  refine queue_of_object ((ptrQueue_next h_next h_other).trans h_ptr) ?_
  rw [h_store]
  exact cleanup_object h_fd h_object

/-! ### Whole runs -/

/-- **When the life of the others leaves pending messages alone.** The instance `i` sees the queue
`q`, whose pending slots are filled. In every run of constructions and destructions of other
instances of the name, `i` sees the same messages in every state exactly when there are none, or no
`_cleanup` of the run is that of an instance attached to the same shared memory. -/
theorem pendingKept_iff {u w : System I ι} {i : I} {q : Queue ι} {steps : List (LifeStep I)}
    (h_queue : u.queue i = some q) (h_filled : Filled q)
    (h_others : ∀ a ∈ steps, a.instance ≠ i) (h_run : exec next u steps = some w) :
    (∀ v, Visits next u steps v → PendingKept q i v) ↔
      q.count = 0 ∨ ∀ pre v a, Takes next u steps pre v a → ¬ CleansBeside i v a := by
  obtain ⟨fd, h_keeps⟩ := Keeps.start h_queue
  have h_iff : (∀ v, Visits next u steps v → PendingKept q i v) ↔
      ∀ pre v a, Takes next u steps pre v a → q.count = 0 ∨ ¬ CleansBeside i v a := by
    refine forall_visits_iff_takes (I := fun _ => Keeps q i fd) ?_ ?_ ?_ h_keeps h_run
    · exact fun _ v h => h.pendingKept h_filled
    · exact fun _ v a _ ha h h_next => h.next h_next (h_others a ha)
    · -- the first bad step leaves a stuck queue
      rintro pre v a v' ha h h_next h_bad ⟨q', h_queue', -, h_not⟩
      obtain ⟨h_count, h_beside⟩ := not_or.mp h_bad
      obtain ⟨q'', h_queue'', -, h_stuck⟩ :=
        h.stuck h_filled h_next (h_others a ha) h_count (not_not.mp h_beside)
      obtain rfl : q' = q'' := Option.some.inj (h_queue'.symm.trans h_queue'')
      exact h_not h_stuck
  rw [h_iff]
  by_cases h_count : q.count = 0
  · exact ⟨fun _ => Or.inl h_count, fun _ _ _ _ _ => Or.inl h_count⟩
  · simp only [h_count, false_or]

/-! ### Two instances and one message -/

/-- The instances 0 and 1 are attached to one queue; a third one is not constructed yet. -/
def twoAttached (q : Queue Slot) : System (Fin 3) Slot where
  store :=
    { shm := ⟨[some q], some 0, fun _ h => Option.some.inj h ▸ Nat.zero_lt_one⟩
      sem := ⟨[1], some 0, fun _ h => Option.some.inj h ▸ Nat.zero_lt_one⟩
      freed := [] }
  life i := if i = 2 then .unborn else .alive { sem := some 0, ptrQueue := some 0 }

/-- A queue with the message `"a"` in slot 0. -/
def oneMessage : Queue Slot where
  items i := if i = 0 then .block [97, 0] else .null
  front := 0
  rear := 1
  count := 1

theorem filled_oneMessage : Filled oneMessage where
  front_inArray := show InArray 0 by decide
  count_ge := show (0 : ℤ) ≤ 1 by decide
  count_le := show (1 : ℤ) ≤ maxSize by decide
  slots k hk := by
    have h_lt : (k : ℤ) < 1 := hk
    obtain rfl : k = 0 := by omega
    exact Slot.noConfusion

theorem pendingKept_construct :
    (∀ v, Visits next (twoAttached oneMessage) [.construct 2 .ok] v → PendingKept oneMessage 0 v) ↔
      oneMessage.count = 0 ∨
        ∀ pre v a, Takes next (twoAttached oneMessage) [.construct 2 .ok] pre v a →
          ¬ CleansBeside 0 v a :=
  pendingKept_iff rfl filled_oneMessage (by simp [LifeStep.instance]) rfl

/-- The other instance is destroyed, and the message is gone: `count` is still 1, and every call of
`consumingMessage` from then on returns the empty string. -/
theorem message_lost_by_destroy :
    ∃ v q, exec next (twoAttached oneMessage) [.destroy 1] = some v ∧ v.queue 0 = some q ∧
      Stuck q ∧ ¬ PendingKept oneMessage 0 v ∧
      ∀ n, reads Slot.string ⟨some 1, some q, []⟩ n =
        .ok (List.replicate n (some [], some q.count), ⟨some 1, some q, []⟩) := by
  have h_next : (twoAttached oneMessage).next (.destroy 1) = some _ := rfl
  obtain ⟨fd, h_keeps⟩ := Keeps.start (u := twoAttached oneMessage) (i := 0) rfl
  obtain ⟨q, h_queue, h_front, h_stuck⟩ :=
    h_keeps.stuck filled_oneMessage h_next (by decide) (by decide) ⟨1, rfl, rfl⟩
  refine ⟨_, q, rfl, h_queue, h_stuck, ?_, reads_of_stuck h_stuck h_front rfl rfl⟩
  rintro ⟨q', h_queue', -, h_not⟩
  obtain rfl : q' = q := Option.some.inj (h_queue'.symm.trans h_queue)
  exact h_not h_stuck

end System

end Frontend
end WateRMQ
