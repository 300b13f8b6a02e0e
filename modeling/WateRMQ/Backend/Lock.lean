import Mathlib.Logic.Function.Basic
import WateRMQ.Backend.Instance
import WateRMQ.Lib.Run
import WateRMQ.Lib.Units

/-!
# The backend's lock

`sendMessage` locks the queue with `sem_wait` and ends with `sem_close`, where the comment in front
of it announces the unlock. `balanced_iff`: with other users of the lock that wait and post, in any
order of steps, the lock stays balanced exactly as long as no call of `sendMessage` gets to its
`sem_close`. After the first one the semaphore has no unit and never gets one again, and the handle
that the next call waits on is closed (`dead_of_close`).

What a call of `sendMessage` asks of the operating system is read off its definition, with a
`Kernel` that keeps a record of its calls (`sendMessage_calls`).
-/

namespace WateRMQ
namespace Backend

open CMem Runs Semaphore

/-! ### The system calls of `sendMessage` -/

/-- The calls to the operating system around the work on the queue. -/
inductive LockCall
  | semWait
  | semPost
  | msync
  | semClose
  deriving DecidableEq

/-- A record of calls, the oldest first; `σ` are the mappings of the file. -/
structure Record (σ : Type) where
  calls : List LockCall

/-- The kernel that keeps the record. `sendMessage` does not open, truncate or map a file. -/
instance recorder (σ : Type) [Inhabited σ] : Kernel (Record σ) σ where
  openFile r := r
  size _ := 0
  ftruncate r _ := r
  mmap _ _ _ _ := default
  msync r _ _ _ := ⟨r.calls ++ [.msync]⟩
  semWait r := ⟨r.calls ++ [.semWait]⟩
  semClose r := ⟨r.calls ++ [.semClose]⟩

/-- What a call of `sendMessage` does with the semaphore, and its `msync`. -/
def sendMessageCalls : List LockCall := [.semWait, .msync, .semClose]

section Calls

variable {σ ι : Type} [Inhabited σ] [QueueAccess σ ι] [CPointer ι] [DecidableEq ι]

omit [Inhabited σ] in
/-- An `enqueue` does not touch the kernel. -/
theorem Process.enqueueAt_world_eq {φ : Type} {p p' : Process σ φ} {ptr : QueuePtr}
    {message : CharPtr} {malloc : Malloc ι} {out : List Output}
    (h : p.enqueueAt ptr message malloc = .ok (p', out)) : p'.world = p.world := by
  obtain ⟨q, -, rfl⟩ := Process.enqueueAt_ok.mp h
  rfl

omit [Inhabited σ] in
/-- Nor does the first of the two. -/
theorem addMessageInQueuePrivate_world_eq {φ : Type} {p p' : Process σ φ} {message : CharPtr}
    {malloc : Malloc ι} {ret : ℤ} {out : List Output}
    (h : addMessageInQueuePrivate p message malloc = .ok (ret, p', out)) :
    p'.world = p.world := by
  by_cases h_null : message = .null
  · rw [addMessageInQueuePrivate, if_pos h_null] at h
    cases h
    rfl
  · exact Process.enqueueAt_world_eq ((addMessageInQueuePrivate_ok h_null).mp h).2

/-- **The calls of `sendMessage`**, for every message and whatever the two `enqueue` do. -/
theorem sendMessage_calls {p p' : Process σ (Record σ)} {message : CharPtr}
    {malloc₁ malloc₂ : Malloc ι} {out : List Output}
    (h : sendMessage p message malloc₁ malloc₂ = .ok (p', out)) :
    p'.world.calls = p.world.calls ++ sendMessageCalls := by
  obtain ⟨⟨ret, p₁, out₁⟩, h_add, h⟩ := bind_eq_ok.mp h
  obtain ⟨⟨p₂, out₂⟩, h_enqueue, h⟩ := bind_eq_ok.mp h
  have h_first := addMessageInQueuePrivate_world_eq h_add
  have h_second := Process.enqueueAt_world_eq h_enqueue
  cases h
  change ((p₂.world.calls ++ [LockCall.msync]) ++ [LockCall.semClose]) = _
  rw [h_second, h_first]
  change (((p.world.calls ++ [LockCall.semWait]) ++ [LockCall.msync]) ++ [LockCall.semClose]) = _
  simp [sendMessageCalls]

end Calls

/-! ### The backend and the other users of the lock -/

/-- The semaphore, by its value; whether the backend's handle on it is open; what the running call
of `sendMessage` has still to do, with the units it has taken and given back; and which of the users
`U` are between their wait and their post. -/
structure Lock (U : Type) where
  value : ℕ
  handleOpen : Bool
  rest : Option (List LockCall)
  taken : ℕ
  given : ℕ
  inside : U → Bool

/-- A step: the loop of `rabbitmqConsuming_private` calls `sendMessage`, the call does what it has
to do next, it returns; and another user waits or posts. -/
inductive LockStep (U : Type)
  | send
  | exec (c : LockCall)
  | ret
  | userWait (a : U)
  | userPost (a : U)

namespace Lock

variable {U : Type} [DecidableEq U]

omit [DecidableEq U] in
/-- One call to the operating system by the backend. A wait on a closed handle is undefined. -/
def exec (u : Lock U) (rest : List LockCall) : LockCall → Option (Lock U)
  | .semWait =>
    match u.handleOpen, u.value with
    | true, value + 1 =>
      some { u with value := value, rest := some rest, taken := u.taken + 1 }
    | _, _ => none
  | .semPost =>
    if u.handleOpen then
      some { u with value := u.value + 1, rest := some rest, given := u.given + 1 }
    else none
  | .msync => some { u with rest := some rest }
  | .semClose => some { u with handleOpen := false, rest := some rest }

/-- One step. -/
def next (u : Lock U) : LockStep U → Option (Lock U)
  | .send =>
    match u.rest with
    | none => some { u with rest := some sendMessageCalls, taken := 0, given := 0 }
    | some _ => none
  | .exec c =>
    match u.rest with
    | some (c' :: rest) => if c' = c then u.exec rest c else none
    | _ => none
  | .ret =>
    match u.rest with
    | some [] => some { u with rest := none }
    | _ => none
  | .userWait a =>
    match u.inside a, u.value with
    | false, value + 1 =>
      some { u with value := value, inside := Function.update u.inside a true }
    | _, _ => none
  | .userPost a =>
    match u.inside a with
    | true => some { u with value := u.value + 1, inside := Function.update u.inside a false }
    | false => none

/-- A semaphore with one unit and an open handle, before the first call. -/
def start : Lock U where
  value := 1
  handleOpen := true
  rest := none
  taken := 0
  given := 0
  inside _ := false

/-- Who holds a unit: the backend, in a call that has taken one and not given it back, and the users
that are inside. -/
def holders (u : Lock U) : Set (Option U) :=
  {p | match p with
    | none => u.rest ≠ none ∧ u.given < u.taken
    | some a => u.inside a = true}

/-- **The lock is balanced**: the units are one, a call of `sendMessage` that has done its work has
taken one unit and given one back, and the handle that a call is about to wait on is open. -/
structure Balanced (u : Lock U) : Prop where
  units : Units u.holders u.value 1
  returned : u.rest = some [] → u.taken = 1 ∧ u.given = 1
  handle : ∀ rest, u.rest = some (.semWait :: rest) → u.handleOpen = true

/-! ### What a step can do -/

/-- A call begins with the calls that it has to make. -/
theorem next_send {u v : Lock U} (h : u.next .send = some v) :
    u.rest = none ∧ v = { u with rest := some sendMessageCalls, taken := 0, given := 0 } := by
  rw [next] at h
  split at h
  next h_rest => exact ⟨h_rest, (Option.some.inj h).symm⟩
  next => cases h

/-- The next of them is made. -/
theorem next_exec {u v : Lock U} {c : LockCall} (h : u.next (.exec c) = some v) :
    ∃ rest, u.rest = some (c :: rest) ∧ u.exec rest c = some v := by
  rw [next] at h
  split at h
  next c' rest h_rest =>
    split at h
    next h_c => exact ⟨rest, h_c ▸ h_rest, h⟩
    next => cases h
  next => cases h

/-- When all of them are made, the call returns. -/
theorem next_ret {u v : Lock U} (h : u.next .ret = some v) :
    u.rest = some [] ∧ v = { u with rest := none } := by
  rw [next] at h
  split at h
  next h_rest => exact ⟨h_rest, (Option.some.inj h).symm⟩
  next => cases h

/-- Another user takes a unit. -/
theorem next_userWait {u v : Lock U} {a : U} (h : u.next (.userWait a) = some v) :
    ∃ value, u.inside a = false ∧ u.value = value + 1 ∧
      v = { u with value := value, inside := Function.update u.inside a true } := by
  rw [next] at h
  split at h
  next value h_inside h_value => exact ⟨value, h_inside, h_value, (Option.some.inj h).symm⟩
  next => cases h

/-- It gives it back. -/
theorem next_userPost {u v : Lock U} {a : U} (h : u.next (.userPost a) = some v) :
    u.inside a = true ∧
      v = { u with value := u.value + 1, inside := Function.update u.inside a false } := by
  rw [next] at h
  split at h
  next h_inside => exact ⟨h_inside, (Option.some.inj h).symm⟩
  next => cases h

omit [DecidableEq U] in
/-- `sem_wait` goes through when the handle is open and there is a unit. -/
theorem exec_semWait {u v : Lock U} {rest : List LockCall} (h : u.exec rest .semWait = some v) :
    ∃ value, u.handleOpen = true ∧ u.value = value + 1 ∧
      v = { u with value := value, rest := some rest, taken := u.taken + 1 } := by
  rw [exec] at h
  split at h
  next value h_open h_value => exact ⟨value, h_open, h_value, (Option.some.inj h).symm⟩
  next => cases h

/-! ### The holders after a step -/

omit [DecidableEq U] in
/-- The holders depend on who is inside, and on whether the backend is. -/
theorem holders_congr {u v : Lock U} (h_inside : v.inside = u.inside)
    (h_backend : (v.rest ≠ none ∧ v.given < v.taken) ↔ (u.rest ≠ none ∧ u.given < u.taken)) :
    v.holders = u.holders := by
  ext p
  cases p with
  | none => exact h_backend
  | some a =>
    change v.inside a = true ↔ u.inside a = true
    rw [h_inside]

omit [DecidableEq U] in
/-- The backend becomes a holder. -/
theorem holders_insert_backend {u v : Lock U} (h_inside : v.inside = u.inside)
    (h_backend : v.rest ≠ none ∧ v.given < v.taken) : v.holders = insert none u.holders := by
  ext p
  rw [Set.mem_insert_iff]
  cases p with
  | none => exact ⟨fun _ => Or.inl rfl, fun _ => h_backend⟩
  | some a =>
    change v.inside a = true ↔ some a = none ∨ u.inside a = true
    rw [h_inside]
    simp

/-- A user that enters holds a unit. -/
theorem holders_insert_user {u v : Lock U} {a : U}
    (h_inside : v.inside = Function.update u.inside a true)
    (h_backend : (v.rest ≠ none ∧ v.given < v.taken) ↔ (u.rest ≠ none ∧ u.given < u.taken)) :
    v.holders = insert (some a) u.holders := by
  ext p
  rw [Set.mem_insert_iff]
  cases p with
  | none => exact ⟨fun h => Or.inr (h_backend.mp h), fun h => h_backend.mpr (h.resolve_left nofun)⟩
  | some b =>
    change v.inside b = true ↔ some b = some a ∨ u.inside b = true
    -- the backend holds what it held, and so does every other user
    rw [h_inside, Option.some.injEq]
    by_cases h_b : b = a
    · subst h_b
      simp
    · rw [Function.update_of_ne h_b]
      simp [h_b]

/-- One that leaves does not. -/
theorem holders_sdiff_user {u v : Lock U} {a : U}
    (h_inside : v.inside = Function.update u.inside a false)
    (h_backend : (v.rest ≠ none ∧ v.given < v.taken) ↔ (u.rest ≠ none ∧ u.given < u.taken)) :
    v.holders = u.holders \ {some a} := by
  ext p
  cases p with
  | none => exact ⟨fun h => ⟨h_backend.mp h, nofun⟩, fun h => h_backend.mpr h.1⟩
  | some b =>
    change v.inside b = true ↔ u.inside b = true ∧ some b ≠ some a
    rw [h_inside, ne_eq, Option.some.injEq]
    by_cases h_b : b = a
    · subst h_b
      simp
    · rw [Function.update_of_ne h_b]
      simp [h_b]

/-! ### Before the first `sem_close` -/

/-- How far the running call is: not begun, before its wait, and with its unit before the `msync`
and before the `sem_close`. -/
inductive Stage (u : Lock U) : Prop
  | idle (h : u.rest = none)
  | waiting (h : u.rest = some sendMessageCalls) (h_taken : u.taken = 0) (h_given : u.given = 0)
  | working (h : u.rest = some [.msync, .semClose]) (h_taken : u.taken = 1) (h_given : u.given = 0)
  | closing (h : u.rest = some [.semClose]) (h_taken : u.taken = 1) (h_given : u.given = 0)

/-- What holds until a call gets to its `sem_close`. -/
structure Locked (u : Lock U) : Prop where
  units : Units u.holders u.value 1
  open_ : u.handleOpen = true
  stage : Stage u

omit [DecidableEq U] in
/-- A call that has done its work is past its `sem_close`. -/
theorem Stage.rest_ne_nil {u : Lock U} (h : u.Stage) : u.rest ≠ some [] := by
  intro h_rest
  cases h with
  | idle h_stage => cases h_stage.symm.trans h_rest
  | waiting h_stage _ _ => cases h_stage.symm.trans h_rest
  | working h_stage _ _ => cases h_stage.symm.trans h_rest
  | closing h_stage _ _ => cases h_stage.symm.trans h_rest

omit [DecidableEq U] in
/-- A call that is at its `sem_close` holds the unit that it took. -/
theorem Stage.of_semClose {u : Lock U} {rest : List LockCall} (h : u.Stage)
    (h_rest : u.rest = some (.semClose :: rest)) : rest = [] ∧ u.taken = 1 ∧ u.given = 0 := by
  cases h with
  | idle h_stage => cases h_stage.symm.trans h_rest
  | waiting h_stage _ _ => cases h_stage.symm.trans h_rest
  | working h_stage _ _ => cases h_stage.symm.trans h_rest
  | closing h_stage h_taken h_given =>
    cases h_stage.symm.trans h_rest
    exact ⟨rfl, h_taken, h_given⟩

omit [DecidableEq U] in
theorem Locked.balanced {u : Lock U} (h : u.Locked) : u.Balanced where
  units := h.units
  returned h_rest := absurd h_rest h.stage.rest_ne_nil
  handle _ _ := h.open_

omit [DecidableEq U] in
theorem locked_start : Locked (start : Lock U) where
  units := by
    have h_empty : (start : Lock U).holders = ∅ := by
      refine Set.eq_empty_of_forall_notMem ?_
      rintro (_ | a) h
      · exact h.1 rfl
      · cases h
    rw [h_empty]
    exact units_empty.mpr rfl
  open_ := rfl
  stage := .idle rfl

omit [DecidableEq U] in
theorem Stage.congr {u v : Lock U} (h : u.Stage) (h_rest : v.rest = u.rest)
    (h_taken : v.taken = u.taken) (h_given : v.given = u.given) : v.Stage := by
  cases h with
  | idle h => exact .idle (h_rest.trans h)
  | waiting h ht hg => exact .waiting (h_rest.trans h) (h_taken.trans ht) (h_given.trans hg)
  | working h ht hg => exact .working (h_rest.trans h) (h_taken.trans ht) (h_given.trans hg)
  | closing h ht hg => exact .closing (h_rest.trans h) (h_taken.trans ht) (h_given.trans hg)

/-- The backend's steps, up to the `sem_close`. -/
theorem Locked.exec {u v : Lock U} {c : LockCall} (h : u.Locked)
    (h_next : u.next (.exec c) = some v) (h_close : c ≠ .semClose) : v.Locked := by
  obtain ⟨rest, h_rest, h_exec⟩ := next_exec h_next
  cases h.stage with
  | idle h_stage => cases h_stage.symm.trans h_rest
  | waiting h_stage h_taken h_given =>
    -- the call is `sem_wait`, and the backend takes its unit
    cases h_stage.symm.trans h_rest
    obtain ⟨value, -, h_value, h_v⟩ := exec_semWait h_exec
    have h_holders : v.holders = insert none u.holders :=
      holders_insert_backend (by rw [h_v]) (by rw [h_v]; simp [h_taken, h_given])
    have h_out : none ∉ u.holders := by
      rintro ⟨-, h_lt⟩
      rw [h_taken] at h_lt
      exact Nat.not_lt_zero _ h_lt
    have h_units := h.units
    rw [h_value] at h_units
    refine ⟨?_, by rw [h_v]; exact h.open_, .working (by rw [h_v]) (by rw [h_v, h_taken])
      (by rw [h_v, h_given])⟩
    rw [h_holders, show v.value = value by rw [h_v]]
    exact h_units.take h_out
  | working h_stage h_taken h_given =>
    -- the call is `msync`, which does not touch the lock
    cases h_stage.symm.trans h_rest
    have h_v : v = { u with rest := some [.semClose] } := (Option.some.inj h_exec).symm
    have h_holders : v.holders = u.holders :=
      holders_congr (by rw [h_v]) (by rw [h_v]; simp [h_stage])
    refine ⟨?_, by rw [h_v]; exact h.open_, .closing (by rw [h_v]) (by rw [h_v, h_taken])
      (by rw [h_v, h_given])⟩
    rw [h_holders, show v.value = u.value by rw [h_v]]
    exact h.units
  | closing h_stage _ _ =>
    cases h_stage.symm.trans h_rest
    exact absurd rfl h_close

/-- Every step but `sem_close` keeps the units and their holders together. -/
theorem Locked.next {u v : Lock U} {a : LockStep U} (h : u.Locked) (h_next : u.next a = some v)
    (h_close : a ≠ .exec .semClose) : v.Locked := by
  cases a with
  | send =>
    -- a new call has taken nothing yet
    obtain ⟨h_rest, h_v⟩ := next_send h_next
    have h_holders : v.holders = u.holders :=
      holders_congr (by rw [h_v]) (by rw [h_v]; simp [h_rest])
    refine ⟨?_, by rw [h_v]; exact h.open_, .waiting (by rw [h_v]) (by rw [h_v]) (by rw [h_v])⟩
    rw [h_holders, show v.value = u.value by rw [h_v]]
    exact h.units
  | exec c => exact h.exec h_next fun h_c => h_close (congrArg LockStep.exec h_c)
  | ret =>
    -- no call has done its work yet
    obtain ⟨h_rest, -⟩ := next_ret h_next
    exact absurd h_rest h.stage.rest_ne_nil
  | userWait a =>
    obtain ⟨value, h_inside, h_value, h_v⟩ := next_userWait h_next
    have h_holders : v.holders = insert (some a) u.holders :=
      holders_insert_user (by rw [h_v]) (by rw [h_v])
    have h_units := h.units
    rw [h_value] at h_units
    refine ⟨?_, by rw [h_v]; exact h.open_, h.stage.congr (by rw [h_v]) (by rw [h_v]) (by rw [h_v])⟩
    rw [h_holders, show v.value = value by rw [h_v]]
    exact h_units.take (show ¬ u.inside a = true by simp [h_inside])
  | userPost a =>
    obtain ⟨h_inside, h_v⟩ := next_userPost h_next
    have h_holders : v.holders = u.holders \ {some a} :=
      holders_sdiff_user (by rw [h_v]) (by rw [h_v])
    refine ⟨?_, by rw [h_v]; exact h.open_, h.stage.congr (by rw [h_v]) (by rw [h_v]) (by rw [h_v])⟩
    rw [h_holders, show v.value = u.value + 1 by rw [h_v]]
    exact h.units.give h_inside

/-- A call that gets to its `sem_close` has not given its unit back. -/
theorem Locked.not_balanced {u v : Lock U} (h : u.Locked)
    (h_next : u.next (.exec .semClose) = some v) : ¬ v.Balanced := by
  obtain ⟨rest, h_rest, h_exec⟩ := next_exec h_next
  obtain rfl : _ = v := Option.some.inj h_exec
  obtain ⟨rfl, -, h_given⟩ := h.stage.of_semClose h_rest
  -- the call has nothing left to do that could give the unit back
  intro h_balanced
  exact Nat.zero_ne_one (h_given.symm.trans (h_balanced.returned rfl).2)

/-! ### After it -/

/-- The unit is lost, nobody holds one, and the handle is closed. -/
structure Dead (u : Lock U) : Prop where
  value : u.value = 0
  inside : ∀ a, u.inside a = false
  closed : u.handleOpen = false
  rest : u.rest = some [] ∨ u.rest = none ∨ u.rest = some sendMessageCalls

/-- `sem_close` closes the handle while the unit of the call is still taken. -/
theorem Locked.dead {u v : Lock U} (h : u.Locked) (h_next : u.next (.exec .semClose) = some v) :
    v.Dead := by
  obtain ⟨rest, h_rest, h_exec⟩ := next_exec h_next
  obtain rfl : _ = v := Option.some.inj h_exec
  obtain ⟨rfl, h_taken, h_given⟩ := h.stage.of_semClose h_rest
  -- the backend holds the one unit there is
  have h_backend : none ∈ u.holders := ⟨by simp [h_rest], by simp [h_taken, h_given]⟩
  refine ⟨?_, ?_, rfl, Or.inl rfl⟩
  · have h_value := (h.units.give h_backend).value_le
    change u.value = 0
    omega
  · intro a
    by_contra h_a
    have h_user : some a ∈ u.holders := eq_true_of_ne_false h_a
    cases h.units.subsingleton (by omega) h_backend h_user

/-- From there on no wait of the backend goes through. -/
theorem Dead.next {u v : Lock U} {a : LockStep U} (h : u.Dead) (h_next : u.next a = some v) :
    v.Dead := by
  obtain ⟨h_value, h_inside, h_closed, h_rest⟩ := h
  cases a with
  | send =>
    obtain ⟨-, rfl⟩ := next_send h_next
    exact ⟨h_value, h_inside, h_closed, Or.inr (Or.inr rfl)⟩
  | exec c =>
    obtain ⟨rest, h_rest', h_exec⟩ := next_exec h_next
    rcases h_rest with h_nil | h_none | h_calls
    · cases h_nil.symm.trans h_rest'
    · cases h_none.symm.trans h_rest'
    · -- the next call waits on the closed handle
      cases h_calls.symm.trans h_rest'
      obtain ⟨value, h_open, -⟩ := exec_semWait h_exec
      cases h_closed.symm.trans h_open
  | ret =>
    obtain ⟨-, rfl⟩ := next_ret h_next
    exact ⟨h_value, h_inside, h_closed, Or.inr (Or.inl rfl)⟩
  | userWait a =>
    -- there is no unit to take
    obtain ⟨value, -, h_succ, -⟩ := next_userWait h_next
    rw [h_value] at h_succ
    cases h_succ
  | userPost a =>
    -- nobody is inside who could post
    obtain ⟨h_a, -⟩ := next_userPost h_next
    cases (h_inside a).symm.trans h_a

/-- **After the first `sem_close` the lock is dead**: in every state of every run from there on the
semaphore has no unit, nobody holds one, and the backend's handle is closed. -/
theorem dead_of_close {u v w : Lock U} {steps : List (LockStep U)} (h : u.Locked)
    (h_close : u.next (.exec .semClose) = some v) (h_visits : Visits Lock.next v steps w) :
    w.Dead :=
  visits_invariant (fun _ _ _ h_dead h_next => Dead.next h_dead h_next) (h.dead h_close) h_visits

/-! ### Whole runs -/

/-- **When the backend's lock is balanced.** From a semaphore with one unit and an open handle, in
every run of `sendMessage` calls and of the other users' waits and posts, the lock is balanced in
every state exactly when no call of `sendMessage` executes its `sem_close`. -/
theorem balanced_iff {w : Lock U} {steps : List (LockStep U)}
    (h_run : Runs.exec Lock.next start steps = some w) :
    (∀ v, Visits Lock.next (start : Lock U) steps v → v.Balanced) ↔
      ∀ a ∈ steps, a ≠ .exec .semClose := by
  refine forall_visits_iff (I := Locked) (fun _ h => h.balanced) ?_ ?_ locked_start h_run
  · exact fun u a v h h_next h_a => h.next h_next h_a
  · intro u a v h h_next h_a
    obtain rfl := not_not.mp h_a
    exact h.not_balanced h_next

/-! ### One user and one call -/

/-- A user in between, and a call up to its `msync`. -/
theorem balanced_until_close :
    ∃ v : Lock Unit, Runs.exec Lock.next start
        [.userWait (), .userPost (), .send, .exec .semWait, .exec .msync] = some v ∧
      v.taken = 1 ∧ v.Balanced := by
  have h_run : Runs.exec Lock.next (start : Lock Unit)
      [.userWait (), .userPost (), .send, .exec .semWait, .exec .msync] = some _ := rfl
  refine ⟨_, h_run, rfl, ?_⟩
  exact (balanced_iff h_run).mpr (by simp) _ (Visits.last h_run)

/-- After one call of `sendMessage` the value is 0 with nobody inside, and the handle of the next
call is closed. -/
theorem unit_lost :
    ∃ v : Lock Unit, Runs.exec Lock.next start
        [.send, .exec .semWait, .exec .msync, .exec .semClose, .ret, .send] = some v ∧
      v.value = 0 ∧ v.inside () = false ∧ v.handleOpen = false ∧ ¬ v.Balanced := by
  refine ⟨_, rfl, rfl, rfl, rfl, ?_⟩
  intro h
  cases h.handle _ rfl

end Lock

end Backend
end WateRMQ
