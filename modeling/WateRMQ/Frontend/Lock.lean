import Mathlib.Logic.Function.Basic
import WateRMQ.Lib.Run
import WateRMQ.Frontend.Queue

/-!
# The lock around the frontend's queue

Any number of threads, in one process or many, call `consumingMessage` on `WateRMQ` objects of one
name. The objects share the named semaphore, which the first constructor creates; every call waits
on it, works on the queue, and posts it.

* `deadlock_free_iff` — on a fresh name a run is free of deadlock exactly when nobody calls
  `consumingMessage` in it: `SemaphoreCPP` creates the semaphore with the value 0, and nobody posts
  before having waited;
* `deadlock_free_of_available` — from a semaphore with a unit there is no deadlock in any run, so
  the value that the constructor chooses is all that is missing.
-/

namespace WateRMQ
namespace Frontend

open Runs

/-- Where a thread is in a call of `consumingMessage` on the object `i`. -/
inductive Phase (I : Type)
  | idle
  | waiting (i : I)
  | inside (i : I)
  | leaving (i : I)
  deriving DecidableEq

/-- The threads `T`, the objects `I`, and the semaphore behind the name, by its value. -/
structure Readers (I T : Type) where
  named : Option ℕ
  constructed : I → Bool
  phase : T → Phase I

/-- A step of a run: a constructor, or one of the steps of a call. `interrupt` is a `sem_wait` that
returns without having taken a unit; `SemaphoreCPP::wait` does not look at the result. -/
inductive Action (I T : Type)
  | construct (i : I)
  | call (t : T) (i : I)
  | wait (t : T)
  | interrupt (t : T)
  | body (t : T)
  | post (t : T)

/-- The semaphore behind a name after the constructor `SemaphoreCPP(name, create)`; none when the
constructor leaves the program. -/
def semaphoreCPP (create : Bool) : Option ℕ → Option ℕ
  | some value => some value
  | none => if create then some 0 else none

namespace Readers

variable {I T : Type} [DecidableEq I] [DecidableEq T]

/-- Move the thread `t` to `p`. -/
def move (u : Readers I T) (t : T) (p : Phase I) : Readers I T :=
  { u with phase := Function.update u.phase t p }

/-- One step. `_init` constructs its semaphore with the default `create = true`. -/
def next (u : Readers I T) : Action I T → Option (Readers I T)
  | .construct i =>
    if u.constructed i then none
    else (semaphoreCPP true u.named).map fun value =>
      { u with named := some value, constructed := Function.update u.constructed i true }
  | .call t i =>
    match u.phase t with
    | .idle => if u.constructed i then some (u.move t (.waiting i)) else none
    | _ => none
  | .wait t =>
    match u.phase t, u.named with
    | .waiting i, some value =>
      match wait value with
      | .ok value => some { u.move t (.inside i) with named := some value }
      | .error _ => none
    | _, _ => none
  | .interrupt t =>
    match u.phase t with
    | .waiting i => some (u.move t (.inside i))
    | _ => none
  | .body t =>
    match u.phase t with
    | .inside i => some (u.move t (.leaving i))
    | _ => none
  | .post t =>
    match u.phase t with
    | .leaving _ => some { u.move t .idle with named := u.named.map post }
    | _ => none

/-- A fresh name: no semaphore, no object, no call. -/
def fresh : Readers I T where
  named := none
  constructed _ := false
  phase _ := .idle

/-- A call of `t` has not returned. -/
def Pending (u : Readers I T) (t : T) : Prop := u.phase t ≠ .idle

/-- A call of `t` cannot go on: it waits, and the semaphore has no unit. -/
def Blocked (u : Readers I T) (t : T) : Prop :=
  (∃ i, u.phase t = .waiting i) ∧ u.next (.wait t) = none

/-- Some call is pending, and every pending call is blocked. -/
def Deadlock (u : Readers I T) : Prop :=
  (∃ t, u.Pending t) ∧ ∀ t, u.Pending t → u.Blocked t

/-- Not a call of `consumingMessage`. -/
def NotCall : Action I T → Prop
  | .call _ _ => False
  | _ => True

omit [DecidableEq I] in
@[simp] theorem phase_move_self (u : Readers I T) (t : T) (p : Phase I) :
    (u.move t p).phase t = p :=
  Function.update_self _ _ _

omit [DecidableEq I] in
/-- The other threads stay where they are. -/
theorem phase_move_of_ne (u : Readers I T) {s t : T} (h : s ≠ t) (p : Phase I) :
    (u.move t p).phase s = u.phase s :=
  Function.update_of_ne h _ _

/-! ### What a step can do -/

/-- A constructor moves no thread, and leaves a semaphore that is there. -/
theorem next_construct {u v : Readers I T} {i : I} (h : u.next (.construct i) = some v) :
    v.phase = u.phase ∧ v.named = some (u.named.getD 0) := by
  rw [next] at h
  split at h
  · cases h
  · cases h_named : u.named with
    | none => rw [h_named] at h; cases h; exact ⟨rfl, rfl⟩
    | some value => rw [h_named] at h; cases h; exact ⟨rfl, rfl⟩

/-- A call begins with the wait. -/
theorem next_call {u v : Readers I T} {t : T} {i : I} (h : u.next (.call t i) = some v) :
    u.phase t = .idle ∧ u.constructed i = true ∧ v = u.move t (.waiting i) := by
  rw [next] at h
  split at h
  next h_phase =>
    split at h
    next h_constructed => exact ⟨h_phase, h_constructed, (Option.some.inj h).symm⟩
    next => cases h
  next => cases h

/-- A wait goes through when there is a unit, and takes it. -/
theorem next_wait {u v : Readers I T} {t : T} (h : u.next (.wait t) = some v) :
    ∃ i value, u.phase t = .waiting i ∧ u.named = some (value + 1) ∧
      v = { u.move t (.inside i) with named := some value } := by
  rw [next] at h
  split at h
  next i value h_phase h_named =>
    cases value with
    | zero => cases h
    | succ value => exact ⟨i, value, h_phase, h_named, (Option.some.inj h).symm⟩
  next => cases h

/-- Without a unit it does not. -/
theorem next_wait_eq_none {u : Readers I T} {t : T} {i : I} (h_phase : u.phase t = .waiting i)
    (h_named : u.named = some 0) : u.next (.wait t) = none := by
  rw [next, h_phase, h_named]
  rfl

/-- With a unit it does. -/
theorem next_wait_eq_some {u : Readers I T} {t : T} {i : I} {value : ℕ}
    (h_phase : u.phase t = .waiting i) (h_named : u.named = some (value + 1)) :
    u.next (.wait t) = some { u.move t (.inside i) with named := some value } := by
  rw [next, h_phase, h_named]
  rfl

/-- A wait that is interrupted goes through without a unit. -/
theorem next_interrupt {u v : Readers I T} {t : T} (h : u.next (.interrupt t) = some v) :
    ∃ i, u.phase t = .waiting i ∧ v = u.move t (.inside i) := by
  rw [next] at h
  split at h
  next i h_phase => exact ⟨i, h_phase, (Option.some.inj h).symm⟩
  next => cases h

/-- The work on the queue. -/
theorem next_body {u v : Readers I T} {t : T} (h : u.next (.body t) = some v) :
    ∃ i, u.phase t = .inside i ∧ v = u.move t (.leaving i) := by
  rw [next] at h
  split at h
  next i h_phase => exact ⟨i, h_phase, (Option.some.inj h).symm⟩
  next => cases h

/-- The post gives a unit back. -/
theorem next_post {u v : Readers I T} {t : T} (h : u.next (.post t) = some v) :
    ∃ i, u.phase t = .leaving i ∧ v = { u.move t .idle with named := u.named.map post } := by
  rw [next] at h
  split at h
  next i h_phase => exact ⟨i, h_phase, (Option.some.inj h).symm⟩
  next => cases h

/-! ### On a fresh name -/

/-- Nobody has called yet; the semaphore, once there is an object, has no unit. -/
structure Untouched (u : Readers I T) : Prop where
  idle : ∀ t, u.phase t = .idle
  value : u.named = none ∧ (∀ i, u.constructed i = false) ∨ u.named = some 0

omit [DecidableEq I] [DecidableEq T] in
theorem untouched_fresh : Untouched (fresh : Readers I T) :=
  ⟨fun _ => rfl, Or.inl ⟨rfl, fun _ => rfl⟩⟩

/-- Where nobody is in a call, nobody waits. -/
theorem Untouched.not_deadlock {u : Readers I T} (h : u.Untouched) : ¬ u.Deadlock :=
  fun ⟨⟨t, h_pending⟩, _⟩ => h_pending (h.idle t)

/-- Before the first call there are only constructors. -/
theorem Untouched.next {u v : Readers I T} {a : Action I T} (h : u.Untouched)
    (h_next : u.next a = some v) (h_not : NotCall a) : v.Untouched := by
  have h_idle := h.idle
  cases a with
  | construct i =>
    obtain ⟨h_phase, h_named⟩ := next_construct h_next
    refine ⟨fun t => by rw [h_phase]; exact h.idle t, Or.inr ?_⟩
    rcases h.value with ⟨h_none, -⟩ | h_zero
    · rw [h_named, h_none]; rfl
    · rw [h_named, h_zero]; rfl
  | call t i => exact h_not.elim
  -- the other steps are those of a call
  | wait t =>
    obtain ⟨i, value, h_phase, -⟩ := next_wait h_next
    cases (h.idle t).symm.trans h_phase
  | interrupt t =>
    obtain ⟨i, h_phase, -⟩ := next_interrupt h_next
    cases (h.idle t).symm.trans h_phase
  | body t =>
    obtain ⟨i, h_phase, -⟩ := next_body h_next
    cases (h.idle t).symm.trans h_phase
  | post t =>
    obtain ⟨i, h_phase, -⟩ := next_post h_next
    cases (h.idle t).symm.trans h_phase

/-- The first call is a deadlock: its wait finds no unit, and nobody else is there to post. -/
theorem Untouched.deadlock_of_call {u v : Readers I T} {t : T} {i : I} (h : u.Untouched)
    (h_next : u.next (.call t i) = some v) : v.Deadlock := by
  obtain ⟨-, h_constructed, rfl⟩ := next_call h_next
  have h_zero : u.named = some 0 := by
    -- the object of the call has been constructed
    rcases h.value with ⟨-, h_none⟩ | h_zero
    · rw [h_none i] at h_constructed
      cases h_constructed
    · exact h_zero
  have h_moved : (u.move t (.waiting i)).phase t = .waiting i := phase_move_self _ _ _
  refine ⟨⟨t, by simp [Pending]⟩, ?_⟩
  intro s h_pending
  -- nobody else is in a call
  obtain rfl : s = t := by
    by_contra h_ne
    rw [Pending, phase_move_of_ne _ h_ne] at h_pending
    exact h_pending (h.idle s)
  exact ⟨⟨i, h_moved⟩, next_wait_eq_none h_moved h_zero⟩

/-- **Deadlock on a fresh name.** In every run, whatever the numbers of objects and threads, the
states are free of deadlock exactly when `consumingMessage` is never called. -/
theorem deadlock_free_iff {actions : List (Action I T)} {u : Readers I T}
    (h_run : exec next fresh actions = some u) :
    (∀ v, Visits next fresh actions v → ¬ v.Deadlock) ↔ ∀ a ∈ actions, NotCall a := by
  -- the first call is the first bad step
  refine forall_visits_iff (fun _ h => h.not_deadlock) (fun _ _ _ h h_next => h.next h_next)
    ?_ untouched_fresh h_run
  intro s a v h h_next h_not h_free
  cases a with
  | call t i => exact h_free (h.deadlock_of_call h_next)
  | _ => exact h_not trivial

/-! ### On a semaphore with a unit -/

/-- A thread between its wait and its post. -/
def Holds (u : Readers I T) (t : T) : Prop := ∃ i, u.phase t = .inside i ∨ u.phase t = .leaving i

/-- The semaphore has a unit, or some thread is on its way to post one. -/
def Live (u : Readers I T) : Prop :=
  ∃ value, u.named = some value ∧ (0 < value ∨ ∃ t, u.Holds t)

/-- A unit, or somebody who will post one, is no deadlock. -/
theorem Live.not_deadlock {u : Readers I T} (h : u.Live) : ¬ u.Deadlock := by
  rintro ⟨⟨t, h_pending⟩, h_blocked⟩
  obtain ⟨value, h_named, h_unit | ⟨s, i, h_holds⟩⟩ := h
  · -- with a unit the wait of any pending call goes through
    obtain ⟨⟨i, h_phase⟩, h_none⟩ := h_blocked t h_pending
    obtain ⟨value, rfl⟩ := Nat.exists_eq_succ_of_ne_zero h_unit.ne'
    rw [next_wait_eq_some h_phase h_named] at h_none
    cases h_none
  · -- a holder is pending, and it is not waiting
    have h_pending_s : u.Pending s := by
      rcases h_holds with h_phase | h_phase <;> simp [Pending, h_phase]
    obtain ⟨⟨j, h_phase⟩, -⟩ := h_blocked s h_pending_s
    rcases h_holds with h_inside | h_leaving
    · cases h_inside.symm.trans h_phase
    · cases h_leaving.symm.trans h_phase

omit [DecidableEq I] in
/-- A step of another thread leaves a holder where it is. -/
theorem Holds.move {u : Readers I T} {s t : T} {p : Phase I} (h : u.Holds s)
    (h_phase : ∀ i, u.phase t ≠ .inside i ∧ u.phase t ≠ .leaving i) : (u.move t p).Holds s := by
  obtain ⟨i, h_holds⟩ := h
  have h_ne : s ≠ t := by
    rintro rfl
    exact h_holds.elim (h_phase i).1 (h_phase i).2
  exact ⟨i, by rwa [phase_move_of_ne _ h_ne]⟩

/-- Every step keeps it: a unit that is taken has a holder, and a holder posts. -/
theorem Live.next {u v : Readers I T} {a : Action I T} (h : u.Live)
    (h_next : u.next a = some v) : v.Live := by
  obtain ⟨value, h_named, h_live⟩ := h
  cases a with
  | construct i =>
    obtain ⟨h_phase, h_v⟩ := next_construct h_next
    refine ⟨value, by rw [h_v, h_named]; rfl, h_live.imp id fun ⟨t, i, h_t⟩ => ⟨t, i, ?_⟩⟩
    rwa [h_phase]
  | call t i =>
    obtain ⟨h_idle, -, rfl⟩ := next_call h_next
    exact ⟨value, h_named, h_live.imp id fun ⟨s, h_s⟩ => ⟨s, h_s.move fun j => by simp [h_idle]⟩⟩
  | wait t =>
    -- the unit may be the last one, and `t` has it now
    obtain ⟨i, value, -, -, rfl⟩ := next_wait h_next
    exact ⟨value, rfl, Or.inr ⟨t, i, Or.inl (phase_move_self _ _ _)⟩⟩
  | interrupt t =>
    -- without a unit `t` goes on to a post as well
    obtain ⟨i, -, rfl⟩ := next_interrupt h_next
    exact ⟨value, h_named, Or.inr ⟨t, i, Or.inl (phase_move_self _ _ _)⟩⟩
  | body t =>
    obtain ⟨i, -, rfl⟩ := next_body h_next
    exact ⟨value, h_named, Or.inr ⟨t, i, Or.inr (phase_move_self _ _ _)⟩⟩
  | post t =>
    obtain ⟨i, -, rfl⟩ := next_post h_next
    refine ⟨post value, ?_, Or.inl (Nat.succ_pos value)⟩
    change u.named.map post = some (post value)
    rw [h_named, Option.map_some]

/-- **No deadlock on a semaphore with a unit**, in any run from there. -/
theorem deadlock_free_of_available {u v : Readers I T} {actions : List (Action I T)} {value : ℕ}
    (h_unit : u.named = some (value + 1)) (h_visits : Visits next u actions v) : ¬ v.Deadlock :=
  (visits_invariant (fun _ _ _ h h_next => Live.next h h_next)
    ⟨value + 1, h_unit, Or.inl (Nat.succ_pos value)⟩ h_visits).not_deadlock

/-! ### Two objects, and the first call -/

/-- Two objects that nobody calls, and the same with a call on one of them. -/
theorem deadlock_free_without_calls :
    (∃ u : Readers Bool Bool, exec next fresh [.construct false, .construct true] = some u ∧
      ∀ v, Visits next (fresh : Readers Bool Bool) [.construct false, .construct true] v →
        ¬ v.Deadlock) ∧
    ∃ u : Readers Bool Bool,
      exec next fresh [.construct false, .construct true, .call true false] = some u ∧
        ¬ ∀ v, Visits next fresh [.construct false, .construct true, .call true false] v →
          ¬ v.Deadlock := by
  let u : Readers Bool Bool := ⟨some 0,
    Function.update (Function.update (fun _ => false) false true) true true, fun _ => .idle⟩
  have h_run : exec next fresh [.construct false, .construct true] = some u := rfl
  have h_call : exec next fresh [.construct false, .construct true, .call true false] =
      some (u.move true (.waiting false)) := rfl
  refine ⟨⟨u, h_run, (deadlock_free_iff h_run).mpr ?_⟩, _, h_call, fun h_free => ?_⟩
  · exact List.forall_mem_cons.mpr ⟨trivial, List.forall_mem_singleton.mpr trivial⟩
  · exact (deadlock_free_iff h_call).mp h_free (.call true false) (.tail _ (.tail _ (.head _)))

/-- The very first call of `consumingMessage` on a fresh name never returns. -/
theorem first_call_deadlocks :
    ∃ u : Readers Unit Unit,
      exec next fresh [.construct (), .call () ()] = some u ∧ u.Deadlock := by
  exact ⟨_, rfl, ⟨(), by rw [Pending, phase_move_self]; simp⟩, fun t _ => ⟨⟨(), rfl⟩, rfl⟩⟩

end Readers

end Frontend
end WateRMQ
