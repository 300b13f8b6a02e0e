import WateRMQ.Frontend.LifeCycle

/-!
# When instances of one name share one queue

`sameObjects_iff`: in a run of constructors, `destroy` calls and destructors, any two live instances
are attached to one shared-memory object and one semaphore all along exactly when no constructor
follows an instance that is older than the last `_cleanup` and still alive (`NoStale`). Every
`_cleanup` takes the name away, also from an object that others are attached to, and also when it is
the second one of its instance; the next constructor then creates another object. The semaphore's
name is never taken away.

The invariant, `Shares`, is about the labels of the run: an instance is attached exactly when its
constructor has run and its `_cleanup` has not, and the name is bound to its object exactly when
nobody's `_cleanup` has run since.
-/

namespace WateRMQ
namespace Frontend

open CMem Posix Runs

/-- The step runs some instance's `_cleanup`. -/
def LifeStep.IsCleanup {I : Type} (a : LifeStep I) : Prop := ∃ i, a.CleansUp i

/-- The instance `i` is alive after the steps `pre`, and `past` is what has happened since it was
constructed. -/
def LivesSince {I : Type} (pre : List (LifeStep I)) (i : I) (past : List (LifeStep I)) : Prop :=
  ∃ before calls, pre = before ++ .construct i calls :: past ∧ calls.Succeed ∧
    ∀ a ∈ past, ¬ a.CleansUp i

/-- **No stale instance**: when a constructor runs after that of an instance `i`, and somebody's
`_cleanup` has run in between, so has that of `i`. -/
def NoStale {I : Type} (steps : List (LifeStep I)) : Prop :=
  ∀ before i calls between j calls' after,
    steps = before ++ .construct i calls :: (between ++ .construct j calls' :: after) →
    calls.Succeed → calls'.Succeed →
    (∃ a ∈ between, a.IsCleanup) → ∃ a ∈ between, a.CleansUp i

section Histories

variable {I : Type} {pre past : List (LifeStep I)} {a : LifeStep I} {i : I}

theorem LifeStep.CleansUp.eq {j : I} (hi : a.CleansUp i) (hj : a.CleansUp j) : i = j := by
  cases a with
  | construct k calls => exact hi.elim
  | destroy k => exact hi.symm.trans hj
  | destruct k => exact hi.symm.trans hj

theorem not_isCleanup_construct (i : I) (calls : InitCalls) :
    ¬ (LifeStep.construct i calls).IsCleanup :=
  fun ⟨_, h⟩ => h

/-- A step that is not its own `_cleanup` makes the life of an instance longer. -/
theorem LivesSince.snoc (h : LivesSince pre i past) (ha : ¬ a.CleansUp i) :
    LivesSince (pre ++ [a]) i (past ++ [a]) := by
  obtain ⟨before, calls, rfl, h_calls, h_past⟩ := h
  refine ⟨before, calls, by simp, h_calls, ?_⟩
  intro b hb
  rcases List.mem_append.mp hb with hb | hb
  · exact h_past b hb
  · rwa [List.mem_singleton.mp hb]

theorem LivesSince.of_construct (pre : List (LifeStep I)) (i : I) {calls : InitCalls}
    (h : calls.Succeed) : LivesSince (pre ++ [.construct i calls]) i [] :=
  ⟨pre, calls, rfl, h, fun _ ha => absurd ha List.not_mem_nil⟩

/-- An instance that is alive after one more step was so before, or it has just been
constructed. -/
theorem LivesSince.of_snoc (h : LivesSince (pre ++ [a]) i past) :
    (∃ past', past = past' ++ [a] ∧ LivesSince pre i past' ∧ ¬ a.CleansUp i) ∨
      (past = [] ∧ ∃ calls, a = .construct i calls ∧ calls.Succeed) := by
  obtain ⟨before, calls, h_eq, h_calls, h_past⟩ := h
  rcases List.eq_nil_or_concat past with rfl | ⟨past', b, rfl⟩
  · -- the constructor is the last step
    obtain ⟨-, h_last⟩ := List.append_inj' h_eq rfl
    exact Or.inr ⟨rfl, calls, List.singleton_inj.mp h_last, h_calls⟩
  · rw [List.concat_eq_append] at h_eq h_past ⊢
    rw [← List.cons_append, ← List.append_assoc] at h_eq
    obtain ⟨h_pre, h_last⟩ := List.append_inj' h_eq rfl
    obtain rfl := List.singleton_inj.mp h_last
    refine Or.inl ⟨past', rfl, ⟨before, calls, h_pre, h_calls, ?_⟩, ?_⟩
    · exact fun c hc => h_past c (List.mem_append_left _ hc)
    · exact h_past a (List.mem_append_right _ List.mem_cons_self)

end Histories

namespace System

variable {I ι : Type} [DecidableEq I] [CPointer ι] [DecidableEq ι]

/-- Live instances are attached to the same objects. -/
def SameObjects (u : System I ι) : Prop :=
  ∀ i j fd sem fd' sem', u.Attached i fd sem → u.Attached j fd' sem' → fd = fd' ∧ sem = sem'

/-- What holds after the steps `pre`, as long as the live instances share their objects. -/
structure Shares (pre : List (LifeStep I)) (u : System I ι) : Prop where
  alive : ∀ i fd sem, u.Attached i fd sem → ∃ past, LivesSince pre i past
  attached : ∀ i past, LivesSince pre i past → ∃ fd sem, u.Attached i fd sem ∧
    fd < u.store.shm.objects.length ∧ u.store.sem.bound = some sem ∧
    (u.store.shm.bound = some fd ↔ ∀ a ∈ past, ¬ a.IsCleanup)
  same : u.SameObjects

/-- The constructor `a`, if it is one, finds no instance that is older than a `_cleanup`. -/
def FindsNoStale (pre : List (LifeStep I)) (a : LifeStep I) : Prop :=
  ∀ j calls, a = .construct j calls → calls.Succeed →
    ∀ i past, LivesSince pre i past → ∀ b ∈ past, ¬ b.IsCleanup

omit [DecidableEq I] [CPointer ι] [DecidableEq ι] in
theorem Shares.start {u : System I ι} (h : ∀ i, u.life i = .unborn) : Shares [] u := by
  have h_none : ∀ i fd sem, ¬ u.Attached i fd sem := by
    intro i fd sem h_attached
    cases (h i).symm.trans h_attached
  refine ⟨fun i fd sem h_i => absurd h_i (h_none i fd sem), ?_,
    fun i _ fd sem _ _ h_i _ => absurd h_i (h_none i fd sem)⟩
  rintro i past ⟨before, calls, h_nil, -⟩
  simp at h_nil

/-! ### One step -/

/-- The name is bound to an object of before exactly when it was so before the constructor. -/
theorem bound_construct_iff {u v : System I ι} {i : I} {calls : InitCalls}
    (h : u.next (.construct i calls) = some v) {fd : ℕ} (h_fd : fd < u.store.shm.objects.length) :
    v.store.shm.bound = some fd ↔ u.store.shm.bound = some fd := by
  obtain ⟨-, h_store, -⟩ := next_construct h
  rw [h_store]
  rcases init_shm calls u.store with ⟨-, h_same⟩ | h_opened
  · rw [h_same]
  · rw [h_opened.bound]
    -- an object that the name is not bound to is not opened again
    constructor
    · intro h_eq
      by_contra h_ne
      exact Named.openCreate_fst_ne h_fd h_ne none (Option.some.inj h_eq)
    · intro h_bound
      rw [Named.openCreate_of_bound h_bound]

theorem length_construct {u v : System I ι} {i : I} {calls : InitCalls}
    (h : u.next (.construct i calls) = some v) :
    u.store.shm.objects.length ≤ v.store.shm.objects.length := by
  obtain ⟨-, h_store, -⟩ := next_construct h
  rw [h_store]
  rcases init_shm calls u.store with ⟨-, h_same⟩ | h_opened
  · rw [h_same]
  · exact h_opened.length_le

/-- The instances of before stay attached, and no other appears but the one constructed. -/
theorem attached_construct_of_ne {u v : System I ι} {i j : I} {calls : InitCalls}
    (h : u.next (.construct j calls) = some v) (h_ne : i ≠ j) {fd sem : ℕ} :
    v.Attached i fd sem ↔ u.Attached i fd sem := by
  obtain ⟨-, -, h_life⟩ := next_construct h
  rw [Attached, h_life, Function.update_of_ne h_ne]
  rfl

theorem not_attached_of_construct {u v : System I ι} {i : I} {calls : InitCalls}
    (h : u.next (.construct i calls) = some v) {fd sem : ℕ} : ¬ u.Attached i fd sem := by
  intro h_attached
  cases (next_construct h).1.symm.trans h_attached

/-- The constructed instance is attached, when its constructor returns, to what is opened. -/
theorem attached_construct_iff {u v : System I ι} {i : I} {calls : InitCalls}
    (h : u.next (.construct i calls) = some v) {fd sem : ℕ} :
    v.Attached i fd sem ↔ calls.Succeed ∧ fd = (u.store.shm.openCreate none).1 ∧
      sem = (u.store.sem.openCreate 0).1 := by
  -- a constructor that leaves the program makes no instance
  by_cases h_calls : calls.Succeed
  · rw [Attached, next_construct_of_succeed h_calls h, Function.update_self]
    constructor
    · intro h_eq
      cases h_eq
      exact ⟨h_calls, rfl, rfl⟩
    · rintro ⟨-, rfl, rfl⟩
      rfl
  · obtain ⟨-, -, h_life⟩ := next_construct h
    rw [Attached, h_life, init_of_not_succeed h_calls, Function.update_self]
    constructor
    · intro h_gone
      cases h_gone
    · exact fun h_all => absurd h_all.1 h_calls

/-- A `_cleanup` detaches its instance, and leaves the others attached. -/
theorem attached_cleanup_iff {u v : System I ι} {a : LifeStep I} {i j : I} (h_cleans : a.CleansUp j)
    (h : u.next a = some v) {fd sem : ℕ} :
    v.Attached i fd sem ↔ i ≠ j ∧ u.Attached i fd sem := by
  obtain ⟨m, -, -, h_ptr, h_others⟩ := next_cleanup h_cleans h
  by_cases h_ne : i = j
  · subst h_ne
    refine ⟨fun h_attached => ?_, fun h_all => absurd rfl h_all.1⟩
    rw [h_attached.ptrQueue] at h_ptr
    cases h_ptr
  · rw [Attached, h_others i h_ne]
    exact ⟨fun h_attached => ⟨h_ne, h_attached⟩, fun h_all => h_all.2⟩

theorem Shares.construct {pre : List (LifeStep I)} {u v : System I ι} {j : I} {calls : InitCalls}
    (h : Shares pre u) (h_next : u.next (.construct j calls) = some v)
    (h_good : FindsNoStale pre (.construct j calls)) :
    Shares (pre ++ [.construct j calls]) v := by
  have h_length := length_construct h_next
  -- the objects that the others are attached to are the ones that are opened now
  have h_opened : calls.Succeed → ∀ i fd sem, u.Attached i fd sem →
      fd = (u.store.shm.openCreate none).1 ∧ sem = (u.store.sem.openCreate 0).1 := by
    intro h_calls i fd sem h_i
    obtain ⟨past, h_past⟩ := h.alive i fd sem h_i
    obtain ⟨fd', sem', h_i', -, h_sem, h_bound⟩ := h.attached i past h_past
    obtain ⟨rfl, rfl⟩ := h.same i i _ _ _ _ h_i h_i'
    have h_shm := h_bound.mpr (h_good j calls rfl h_calls i past h_past)
    rw [Named.openCreate_of_bound h_shm, Named.openCreate_of_bound h_sem]
    exact ⟨rfl, rfl⟩
  refine ⟨?_, ?_, ?_⟩
  · intro i fd sem h_i
    by_cases h_ne : i = j
    · subst h_ne
      exact ⟨[], .of_construct pre i ((attached_construct_iff h_next).mp h_i).1⟩
    · obtain ⟨past, h_past⟩ := h.alive i fd sem ((attached_construct_of_ne h_next h_ne).mp h_i)
      exact ⟨past ++ [.construct j calls], h_past.snoc id⟩
  · intro i past h_past
    rcases h_past.of_snoc with ⟨past', rfl, h_past', -⟩ | ⟨rfl, calls', h_eq, h_calls⟩
    · -- an older instance keeps what it is attached to
      obtain ⟨fd, sem, h_i, h_lt, h_sem, h_bound⟩ := h.attached i past' h_past'
      have h_ne : i ≠ j := by
        rintro rfl
        exact not_attached_of_construct h_next h_i
      refine ⟨fd, sem, (attached_construct_of_ne h_next h_ne).mpr h_i, h_lt.trans_le h_length,
        ?_, ?_⟩
      · rw [(next_construct h_next).2.1]
        exact init_sem_of_bound h_sem calls
      · -- a constructor is no `_cleanup`
        rw [bound_construct_iff h_next h_lt, h_bound, List.forall_mem_append,
          List.forall_mem_singleton]
        exact ⟨fun h_all => ⟨h_all, not_isCleanup_construct j calls⟩, fun h_all => h_all.1⟩
    · -- the new instance is attached to what the names are bound to
      obtain ⟨rfl, rfl⟩ := LifeStep.construct.inj h_eq
      have h_shm := init_shm_of_succeed h_calls u.store
      rw [← (next_construct h_next).2.1] at h_shm
      refine ⟨_, _, (attached_construct_iff h_next).mpr ⟨h_calls, rfl, rfl⟩, ?_, ?_, ?_⟩
      · exact v.store.shm.bound_lt _ h_shm.bound
      · rw [(next_construct h_next).2.1]
        exact init_sem_of_succeed h_calls u.store
      · exact ⟨fun _ b hb => absurd hb List.not_mem_nil, fun _ => h_shm.bound⟩
  · -- the new instance is attached to what was opened, and so is every other
    have h_all : ∀ i fd sem, v.Attached i fd sem → calls.Succeed →
        fd = (u.store.shm.openCreate none).1 ∧ sem = (u.store.sem.openCreate 0).1 := by
      intro i fd sem h_i h_calls
      by_cases h_ne : i = j
      · subst h_ne
        exact ((attached_construct_iff h_next).mp h_i).2
      · exact h_opened h_calls i fd sem ((attached_construct_of_ne h_next h_ne).mp h_i)
    intro i k fd sem fd' sem' h_i h_k
    by_cases h_calls : calls.Succeed
    · obtain ⟨rfl, rfl⟩ := h_all i fd sem h_i h_calls
      obtain ⟨rfl, rfl⟩ := h_all k fd' sem' h_k h_calls
      exact ⟨rfl, rfl⟩
    · -- the constructor leaves the program, and all instances are older ones
      have h_ne : ∀ {i fd sem}, v.Attached i fd sem → i ≠ j := by
        rintro i fd sem h_i rfl
        exact h_calls ((attached_construct_iff h_next).mp h_i).1
      exact h.same i k _ _ _ _ ((attached_construct_of_ne h_next (h_ne h_i)).mp h_i)
        ((attached_construct_of_ne h_next (h_ne h_k)).mp h_k)

theorem Shares.cleanup {pre : List (LifeStep I)} {u v : System I ι} {a : LifeStep I} {j : I}
    (h : Shares pre u) (h_cleans : a.CleansUp j) (h_next : u.next a = some v) :
    Shares (pre ++ [a]) v := by
  obtain ⟨m, -, h_store, -, -⟩ := next_cleanup h_cleans h_next
  -- no `_cleanup` attaches an instance
  have h_of : ∀ {i fd sem}, v.Attached i fd sem → u.Attached i fd sem :=
    fun h_i => ((attached_cleanup_iff h_cleans h_next).mp h_i).2
  refine ⟨?_, ?_, fun i k _ _ _ _ h_i h_k => h.same i k _ _ _ _ (h_of h_i) (h_of h_k)⟩
  · intro i fd sem h_i
    obtain ⟨h_ne, h_i'⟩ := (attached_cleanup_iff h_cleans h_next).mp h_i
    obtain ⟨past, h_past⟩ := h.alive i fd sem h_i'
    exact ⟨past ++ [a], h_past.snoc fun h_a => h_ne (h_a.eq h_cleans)⟩
  · intro i past h_past
    rcases h_past.of_snoc with ⟨past', rfl, h_past', h_a⟩ | ⟨-, calls, rfl, -⟩
    · -- this `_cleanup` is not its own, so the instance stays attached
      obtain ⟨fd, sem, h_i, h_lt, h_sem, -⟩ := h.attached i past' h_past'
      have h_ne : i ≠ j := by
        rintro rfl
        exact h_a h_cleans
      refine ⟨fd, sem, (attached_cleanup_iff h_cleans h_next).mpr ⟨h_ne, h_i⟩, ?_, ?_, ?_⟩
      · rwa [h_store, cleanup_length]
      · rwa [h_store, cleanup_sem]
      · -- the name is free, and the step is a `_cleanup`
        rw [h_store, cleanup_bound]
        constructor
        · intro h_free
          cases h_free
        · intro h_all
          exact absurd ⟨j, h_cleans⟩ (h_all a (List.mem_append_right _ List.mem_cons_self))
    · exact h_cleans.elim

theorem Shares.next {pre : List (LifeStep I)} {u v : System I ι} {a : LifeStep I}
    (h : Shares pre u) (h_next : u.next a = some v) (h_good : FindsNoStale pre a) :
    Shares (pre ++ [a]) v := by
  cases a with
  | construct j calls => exact h.construct h_next h_good
  | destroy j => exact h.cleanup (j := j) rfl h_next
  | destruct j => exact h.cleanup (j := j) rfl h_next

/-- A constructor that finds a stale instance is attached to another object. -/
theorem Shares.not_sameObjects {pre : List (LifeStep I)} {u v : System I ι} {a : LifeStep I}
    (h : Shares pre u) (h_next : u.next a = some v) (h_stale : ¬ FindsNoStale pre a) :
    ¬ v.SameObjects := by
  unfold FindsNoStale at h_stale
  push Not at h_stale
  obtain ⟨j, calls, rfl, h_calls, i, past, h_past, b, hb, h_b⟩ := h_stale
  obtain ⟨fd, sem, h_i, h_lt, -, h_bound⟩ := h.attached i past h_past
  have h_ne : i ≠ j := by
    rintro rfl
    exact not_attached_of_construct h_next h_i
  -- the name is not bound to the object of `i` any more, so `j` gets another one
  intro h_same
  obtain ⟨h_fd, -⟩ := h_same i j _ _ _ _ ((attached_construct_of_ne h_next h_ne).mpr h_i)
    ((attached_construct_iff h_next).mpr ⟨h_calls, rfl, rfl⟩)
  exact Named.openCreate_fst_ne h_lt (fun h_eq => h_bound.mp h_eq b hb h_b) none h_fd.symm

/-! ### Whole runs -/

omit [CPointer ι] [DecidableEq I] [DecidableEq ι] in
/-- The condition on the labels of the run, from that on its steps. -/
theorem noStale_iff {steps : List (LifeStep I)} :
    NoStale steps ↔ ∀ pre a, pre ++ [a] <+: steps → FindsNoStale pre a := by
  constructor
  · rintro h pre _ ⟨after, rfl⟩ j calls' rfl h_calls' i past h_past b hb h_b
    obtain ⟨before, calls, rfl, h_calls, h_own⟩ := h_past
    obtain ⟨c, hc, h_c⟩ :=
      h before i calls past j calls' after (by simp) h_calls h_calls' ⟨b, hb, h_b⟩
    exact h_own c hc h_c
  · rintro h before i calls between j calls' after rfl h_calls h_calls' ⟨b, hb, h_b⟩
    -- without a `_cleanup` of its own, `i` is alive when the constructor of `j` runs
    by_contra h_none
    push Not at h_none
    exact h (before ++ .construct i calls :: between) (.construct j calls') ⟨after, by simp⟩
      j calls' rfl h_calls' i between ⟨before, calls, rfl, h_calls, h_none⟩ b hb h_b

/-- **When instances of one name share one queue.** In every run of constructors, `destroy` calls
and destructors that starts without an instance, the live instances are attached to the same
shared-memory object and the same semaphore in every state exactly when no constructor runs while
there is an instance that is older than somebody's `_cleanup`. -/
theorem sameObjects_iff {u w : System I ι} {steps : List (LifeStep I)}
    (h_unborn : ∀ i, u.life i = .unborn) (h_run : exec next u steps = some w) :
    (∀ v, Visits next u steps v → v.SameObjects) ↔ NoStale steps := by
  have h_iff : (∀ v, Visits next u steps v → v.SameObjects) ↔
      ∀ pre v a, Takes next u steps pre v a → FindsNoStale pre a :=
    forall_visits_iff_takes (fun _ _ h => Shares.same h) (fun _ _ _ _ _ h h_next => h.next h_next)
      (fun _ _ _ _ _ h h_next => h.not_sameObjects h_next) (Shares.start h_unborn) h_run
  rw [h_iff, noStale_iff]
  constructor
  -- every step of the list is taken in the run, and the condition is about the list alone
  · intro h_all pre a h_pre
    obtain ⟨v, h_takes⟩ := takes_of_prefix h_run h_pre
    exact h_all pre v a h_takes
  · rintro h_all pre v a ⟨h_pre, -⟩
    exact h_all pre a h_pre

/-! ### Three instances -/

theorem sameObjects_of_two :
    (∀ v, Visits next (fresh : System (Fin 3) Slot) [.construct 0 .ok, .construct 1 .ok] v →
      v.SameObjects) ↔ NoStale [.construct (0 : Fin 3) .ok, .construct 1 .ok] :=
  sameObjects_iff (fun _ => rfl) rfl

/-- After the second of two instances is destroyed, a third one is alone on another queue. -/
theorem third_not_shared :
    ∃ v : System (Fin 3) Slot,
      exec next fresh [.construct 0 .ok, .construct 1 .ok, .destroy 1, .construct 2 .ok] = some v ∧
        v.Attached 0 0 0 ∧ v.Attached 2 1 0 ∧ ¬ v.SameObjects := by
  refine ⟨_, rfl, rfl, rfl, ?_⟩
  intro h_same
  exact absurd (h_same 0 2 0 0 1 0 rfl rfl).1 (by decide)

end System

end Frontend
end WateRMQ
