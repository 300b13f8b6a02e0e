import WateRMQ.Frontend.Lock
import WateRMQ.Lib.Units

/-!
# Mutual exclusion on the frontend's queue

`exclusive_iff`: among any number of threads that call `_readMessage`, on a semaphore whose value is
at most 1 at the start, at most one is between its wait and its post all along a run, and the value
stays at most 1, exactly when no `sem_wait` of the run fails in a way that matters: a failed wait is
harmless as long as it brings the units, the semaphore's and the holders', to 1 at most
(`Permitted`). `SemaphoreCPP::wait` does not look at the result of `sem_wait`, so a call whose wait
has failed goes on, and its post mints a unit.

`Counted` is the invariant: the units are the value at the start and one for each failed wait.
-/

namespace WateRMQ
namespace Frontend

open Runs Semaphore

/-- A `sem_wait` that returns without having taken a unit. -/
def Action.isInterrupt {I T : Type} : Action I T → Bool
  | .interrupt _ => true
  | _ => false

/-- How many waits have failed. -/
def failedWaits {I T : Type} (actions : List (Action I T)) : ℕ := actions.countP Action.isInterrupt

namespace Readers

variable {I T : Type} [DecidableEq I] [DecidableEq T]

/-- The threads between their wait and their post. -/
def holders (u : Readers I T) : Set T := {t | u.Holds t}

/-- **Mutual exclusion**, and a semaphore with one unit at most. -/
def Exclusive (u : Readers I T) : Prop :=
  u.holders.Subsingleton ∧ ∀ value, u.named = some value → value ≤ 1

/-- With `start` units at the start, the step `a` does not add to the units at the wrong time: no
wait fails while a thread is inside, or when there are two units, and with two units no semaphore
is waited on or posted any more. -/
def Permitted (start : ℕ) (pre : List (Action I T)) (u : Readers I T) : Action I T → Prop
  | .interrupt _ => start + failedWaits pre ≤ 1 ∧ u.holders = ∅
  | .wait _ => start + failedWaits pre ≤ 1
  | .post _ => start + failedWaits pre ≤ 1
  | _ => True

/-- The units after the steps `pre`. When they are two, nothing has been done with them yet. -/
structure Counted (start : ℕ) (pre : List (Action I T)) (value : ℕ) (u : Readers I T) : Prop where
  named : u.named = some value
  units : Units u.holders value (start + failedWaits pre)
  le : start + failedWaits pre ≤ 1 ∨ (value = 1 ∧ start + failedWaits pre = 2)

omit [DecidableEq I] [DecidableEq T] in
theorem failedWaits_append (pre : List (Action I T)) (a : Action I T) :
    failedWaits (pre ++ [a]) = failedWaits pre + if a.isInterrupt then 1 else 0 := by
  rw [failedWaits, List.countP_append, List.countP_singleton]
  rfl

/-! ### The holders after a step -/

omit [DecidableEq I] in
/-- A thread that comes between its wait and its post. -/
theorem holders_insert {u v : Readers I T} {t : T} {p : Phase I}
    (h_phase : v.phase = (u.move t p).phase) (h_p : ∃ i, p = .inside i ∨ p = .leaving i) :
    v.holders = insert t u.holders := by
  ext s
  rw [Set.mem_insert_iff]
  change (∃ i, v.phase s = .inside i ∨ v.phase s = .leaving i) ↔ _
  rw [h_phase]
  by_cases h_s : s = t
  · subst h_s
    rw [phase_move_self]
    exact ⟨fun _ => Or.inl rfl, fun _ => h_p⟩
  · rw [phase_move_of_ne _ h_s]
    exact ⟨Or.inr, fun h => h.resolve_left h_s⟩

omit [DecidableEq I] in
/-- A thread that is not between its wait and its post any more. -/
theorem holders_sdiff {u v : Readers I T} {t : T} {p : Phase I}
    (h_phase : v.phase = (u.move t p).phase) (h_p : ∀ i, p ≠ .inside i ∧ p ≠ .leaving i) :
    v.holders = u.holders \ {t} := by
  ext s
  change (∃ i, v.phase s = .inside i ∨ v.phase s = .leaving i) ↔ u.Holds s ∧ s ≠ t
  rw [h_phase]
  by_cases h_s : s = t
  · subst h_s
    rw [phase_move_self]
    exact ⟨fun ⟨i, h⟩ => absurd h (not_or.mpr (h_p i)), fun h => absurd rfl h.2⟩
  · rw [phase_move_of_ne _ h_s]
    exact ⟨fun h => ⟨h, h_s⟩, fun h => h.1⟩

omit [DecidableEq I] [DecidableEq T] in
theorem notMem_holders {u : Readers I T} {t : T}
    (h : ∀ i, u.phase t ≠ .inside i ∧ u.phase t ≠ .leaving i) : t ∉ u.holders :=
  fun ⟨i, h_i⟩ => h_i.elim (h i).1 (h i).2

/-! ### One step -/

omit [DecidableEq I] [DecidableEq T] in
theorem Counted.exclusive {start value : ℕ} {pre : List (Action I T)} {u : Readers I T}
    (h : Counted start pre value u) : u.Exclusive := by
  have h_le := h.units.value_le
  refine ⟨h.units.subsingleton ?_, ?_⟩
  · rcases h.le with h_one | ⟨rfl, h_two⟩ <;> omega
  · intro value' h_value'
    obtain rfl : value = value' := Option.some.inj (h.named.symm.trans h_value')
    rcases h.le with h_one | ⟨rfl, -⟩ <;> omega

theorem Counted.next {start value : ℕ} {pre : List (Action I T)} {u v : Readers I T}
    {a : Action I T} (h : Counted start pre value u) (h_next : u.next a = some v)
    (h_permitted : Permitted start pre u a) : ∃ value', Counted start (pre ++ [a]) value' v := by
  obtain ⟨h_named, h_units, h_le⟩ := h
  cases a with
  | construct i =>
    -- the semaphore exists, so `sem_open` leaves its value alone
    obtain ⟨h_phase, h_v⟩ := next_construct h_next
    have h_holders : v.holders = u.holders := by
      unfold holders Holds
      rw [h_phase]
    refine ⟨value, by rw [h_v, h_named]; rfl, ?_, ?_⟩
    · rwa [failedWaits_append, h_holders]
    · rwa [failedWaits_append]
  | call t i =>
    -- `t` is in front of its wait, and holds as little as before
    obtain ⟨h_idle, -, rfl⟩ := next_call h_next
    have h_holders : (u.move t (.waiting i)).holders = u.holders := by
      rw [holders_sdiff (p := .waiting i) rfl fun j => ⟨nofun, nofun⟩]
      exact Set.sdiff_singleton_eq_self (notMem_holders fun j => by simp [h_idle])
    refine ⟨value, h_named, ?_, ?_⟩
    · rwa [failedWaits_append, h_holders]
    · rwa [failedWaits_append]
  | wait t =>
    -- a unit goes from the semaphore to `t`
    obtain ⟨i, value', h_phase, h_value, h_v⟩ := next_wait h_next
    obtain rfl : value = value' + 1 := Option.some.inj (h_named.symm.trans h_value)
    have h_out : t ∉ u.holders := notMem_holders fun j => by simp [h_phase]
    have h_holders : v.holders = insert t u.holders :=
      holders_insert (p := .inside i) (by rw [h_v]) ⟨i, Or.inl rfl⟩
    refine ⟨value', by rw [h_v], ?_, Or.inl (by rwa [failedWaits_append])⟩
    rw [failedWaits_append, h_holders]
    exact h_units.take h_out
  | interrupt t =>
    -- `t` becomes a holder, and the value stays
    obtain ⟨i, h_phase, rfl⟩ := next_interrupt h_next
    obtain ⟨h_one, h_empty⟩ := h_permitted
    have h_out : t ∉ u.holders := notMem_holders fun j => by simp [h_phase]
    have h_value : value = start + failedWaits pre := by
      rw [h_empty] at h_units
      exact units_empty.mp h_units
    refine ⟨value, h_named, ?_, ?_⟩
    · rw [failedWaits_append, holders_insert rfl ⟨i, Or.inl rfl⟩]
      exact h_units.mint h_out
    · -- the failed wait counts as a unit from now on
      rw [failedWaits_append]
      change start + (failedWaits pre + 1) ≤ 1 ∨ (value = 1 ∧ start + (failedWaits pre + 1) = 2)
      omega
  | body t =>
    -- `t` goes from before the body to behind it, and is a holder in both places
    obtain ⟨i, h_phase, rfl⟩ := next_body h_next
    have h_in : t ∈ u.holders := ⟨i, Or.inl h_phase⟩
    have h_holders : (u.move t (.leaving i)).holders = u.holders := by
      rw [holders_insert rfl ⟨i, Or.inr rfl⟩, Set.insert_eq_of_mem h_in]
    refine ⟨value, h_named, ?_, ?_⟩
    · rwa [failedWaits_append, h_holders]
    · rwa [failedWaits_append]
  | post t =>
    -- the unit of `t`, taken or minted, goes to the semaphore
    obtain ⟨i, h_phase, h_v⟩ := next_post h_next
    have h_in : t ∈ u.holders := ⟨i, Or.inr h_phase⟩
    have h_holders : v.holders = u.holders \ {t} :=
      holders_sdiff (p := .idle) (by rw [h_v]) fun j => ⟨nofun, nofun⟩
    refine ⟨value + 1, ?_, ?_, Or.inl (by rwa [failedWaits_append])⟩
    · rw [h_v, h_named]
      rfl
    · rw [failedWaits_append, h_holders]
      exact h_units.give h_in

omit [DecidableEq I] in
/-- Two holders. -/
theorem not_exclusive_of_insert {u v : Readers I T} {t : T} {p : Phase I}
    (h_phase : v.phase = (u.move t p).phase) (h_p : ∃ i, p = .inside i ∨ p = .leaving i)
    (h_out : t ∉ u.holders) (h_other : u.holders.Nonempty) : ¬ v.Exclusive := by
  rintro ⟨h_one, -⟩
  obtain ⟨s, h_s⟩ := h_other
  rw [holders_insert h_phase h_p] at h_one
  obtain rfl := h_one (Set.mem_insert t _) (Set.mem_insert_of_mem t h_s)
  exact h_out h_s

theorem Counted.not_exclusive {start value : ℕ} {pre : List (Action I T)} {u v : Readers I T}
    {a : Action I T} (h : Counted start pre value u) (h_next : u.next a = some v)
    (h_not : ¬ Permitted start pre u a) : ¬ v.Exclusive := by
  obtain ⟨h_named, h_units, h_le⟩ := h
  -- with two units in all, one is in the semaphore and one is held
  have h_two : ¬ start + failedWaits pre ≤ 1 → value = 1 ∧ u.holders.Nonempty := by
    intro h_more
    obtain ⟨rfl, h_eq⟩ := h_le.resolve_left h_more
    exact ⟨rfl, h_units.nonempty (by omega)⟩
  cases a with
  | construct i => exact absurd trivial h_not
  | call t i => exact absurd trivial h_not
  | wait t =>
    -- `t` takes the second unit while the first one is held
    obtain ⟨i, value', h_phase, -, rfl⟩ := next_wait h_next
    exact not_exclusive_of_insert rfl ⟨i, Or.inl rfl⟩
      (notMem_holders fun j => by simp [h_phase]) (h_two h_not).2
  | interrupt t =>
    obtain ⟨i, h_phase, rfl⟩ := next_interrupt h_next
    refine not_exclusive_of_insert rfl ⟨i, Or.inl rfl⟩
      (notMem_holders fun j => by simp [h_phase]) ?_
    by_cases h_one : start + failedWaits pre ≤ 1
    · exact Set.nonempty_iff_ne_empty.mpr fun h_empty => h_not ⟨h_one, h_empty⟩
    · exact (h_two h_one).2
  | body t => exact absurd trivial h_not
  | post t =>
    -- the semaphore has one of the two units, and gets the other
    obtain ⟨i, -, rfl⟩ := next_post h_next
    obtain ⟨rfl, -⟩ := h_two h_not
    rintro ⟨-, h_value⟩
    have h_posted : u.named.map post = some 2 := by rw [h_named]; rfl
    exact absurd (h_value 2 h_posted) (by decide)

/-! ### Whole runs -/

omit [DecidableEq I] [DecidableEq T] in
theorem counted_start {u : Readers I T} {value : ℕ} (h_named : u.named = some value)
    (h_le : value ≤ 1) (h_idle : ∀ t, u.phase t = .idle) : Counted value [] value u := by
  have h_empty : u.holders = ∅ :=
    Set.eq_empty_of_forall_notMem fun t => notMem_holders fun i => by simp [h_idle t]
  refine ⟨h_named, ?_, Or.inl h_le⟩
  rw [h_empty]
  exact units_empty.mpr rfl

omit [DecidableEq I] [DecidableEq T] in
/-- Without failed waits there is no more than one unit. -/
theorem permitted_of_no_interrupt {pre : List (Action I T)} {v : Readers I T} {a : Action I T}
    {value : ℕ} (h_le : value ≤ 1) (h_none : ∀ b ∈ pre ++ [a], b.isInterrupt = false) :
    Permitted value pre v a := by
  -- without an interrupted wait there are no units but those of the start
  have h_zero : failedWaits pre = 0 :=
    List.countP_eq_zero.mpr fun b hb => by simp [h_none b (List.mem_append_left _ hb)]
  have h_units : value + failedWaits pre ≤ 1 := by rwa [h_zero]
  have h_a := h_none a (List.mem_append_right _ List.mem_cons_self)
  cases a with
  | interrupt t => cases h_a
  | wait t => exact h_units
  | post t => exact h_units
  | construct i => trivial
  | call t i => trivial
  | body t => trivial

/-- The first bad step of a run is the first that is not permitted. -/
theorem exclusive_iff_permitted {u w : Readers I T} {actions : List (Action I T)} {value : ℕ}
    (h_named : u.named = some value) (h_le : value ≤ 1) (h_idle : ∀ t, u.phase t = .idle)
    (h_run : exec next u actions = some w) :
    (∀ v, Visits next u actions v → v.Exclusive) ↔
      ∀ pre v a, Takes next u actions pre v a → Permitted value pre v a := by
  refine forall_visits_iff_takes (I := fun pre v => ∃ value', Counted value pre value' v)
    ?_ ?_ ?_ ⟨value, counted_start h_named h_le h_idle⟩ h_run
  · exact fun _ _ ⟨_, h⟩ => h.exclusive
  · exact fun _ _ _ _ _ ⟨_, h⟩ h_next => h.next h_next
  · exact fun _ _ _ _ _ ⟨_, h⟩ h_next => h.not_exclusive h_next

/-- **Mutual exclusion with waits that may fail.** From a semaphore with at most one unit, and with
nobody in a call, the states of a run are exclusive exactly when every step of it is permitted; this
is so when no wait of the run fails. -/
theorem exclusive_iff {u w : Readers I T} {actions : List (Action I T)} {value : ℕ}
    (h_named : u.named = some value) (h_le : value ≤ 1) (h_idle : ∀ t, u.phase t = .idle)
    (h_run : exec next u actions = some w) :
    ((∀ v, Visits next u actions v → v.Exclusive) ↔
        ∀ pre v a, Takes next u actions pre v a → Permitted value pre v a) ∧
      ((∀ a ∈ actions, a.isInterrupt = false) → ∀ v, Visits next u actions v → v.Exclusive) := by
  have h_iff := exclusive_iff_permitted h_named h_le h_idle h_run
  refine ⟨h_iff, fun h_none => h_iff.mpr ?_⟩
  rintro pre v a ⟨h_pre, -⟩
  exact permitted_of_no_interrupt h_le fun b hb => h_none b (h_pre.subset hb)

/-! ### Two threads and one failed wait -/

/-- Two threads, not yet in a call, and a semaphore with one unit. -/
def twoReaders : Readers Unit Bool where
  named := some 1
  constructed _ := true
  phase _ := .idle

theorem exclusive_two :
    ∃ v, exec next twoReaders [.call true (), .call false (), .wait true] = some v ∧
      v.named = some 0 ∧ v.Exclusive := by
  have h_run : exec next twoReaders [.call true (), .call false (), .wait true] = some _ := rfl
  refine ⟨_, h_run, rfl, ?_⟩
  exact (exclusive_iff rfl le_rfl (fun _ => rfl) h_run).2 (by simp [Action.isInterrupt]) _
    (Visits.last h_run)

/-- One wait fails, the other one takes the unit: both threads are inside. When the first posts,
there is a unit for a third. -/
theorem two_inside :
    ∃ v w, exec next twoReaders [.call true (), .call false (), .interrupt true, .wait false] =
        some v ∧ ¬ v.Exclusive ∧
      exec next twoReaders [.call true (), .interrupt true, .body true, .post true] = some w ∧
        w.named = some 2 := by
  refine ⟨_, _, rfl, ?_, rfl, rfl⟩
  rintro ⟨h_one, -⟩
  exact absurd (h_one (x := true) ⟨(), Or.inl rfl⟩ (y := false) ⟨(), Or.inl rfl⟩) (by decide)

end Readers

end Frontend
end WateRMQ
