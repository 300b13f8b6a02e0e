import Mathlib.Data.List.Count

/-!
# The handle of a semaphore

`SemaphoreCPP` of `SemaphoreCPP.cpp`: an object that opens a semaphore by its name, or is given one,
with the calls that it makes to the operating system.

No method changes a member, so the object does not know whether it was closed, and the destructor
closes the handle of a named semaphore once more (`count_semClose_life`). An object that was given
its semaphore never closes it.
-/

namespace WateRMQ
namespace Frontend

/-- The calls of the functions for semaphores. A handle is `none` for `SEM_FAILED`. -/
inductive SemCall
  | semOpen (name : String) (create : Bool)
  | semWait (sem : Option ℕ)
  | semPost (sem : Option ℕ)
  | semClose (sem : Option ℕ)
  | semUnlink (name : String)
  deriving DecidableEq

/-- The members of `SemaphoreCPP`, and the calls that the object has made. -/
structure SemaphoreCPP where
  sem : Option ℕ
  semName : String
  isNamed : Bool
  calls : List SemCall

namespace SemaphoreCPP

/-! ### The functions of the source -/

def record (s : SemaphoreCPP) (call : SemCall) : SemaphoreCPP :=
  { s with calls := s.calls ++ [call] }

/-- `SemaphoreCPP(sem_name, create)`, where `sem_open` gives `opened`; no object when it leaves the
program. -/
def ofName (semName : String) (create : Bool) (opened : Option ℕ) : Option SemaphoreCPP :=
  match opened with
  | none => none
  | some handle => some ⟨some handle, semName, true, [.semOpen semName create]⟩

/-- `SemaphoreCPP(sem)`. -/
def ofHandle (sem : Option ℕ) : SemaphoreCPP := ⟨sem, "", false, []⟩

/-- `~SemaphoreCPP`. -/
def destruct (s : SemaphoreCPP) : SemaphoreCPP :=
  if s.isNamed = true ∧ s.sem ≠ none then s.record (.semClose s.sem) else s

def wait (s : SemaphoreCPP) : SemaphoreCPP := s.record (.semWait s.sem)

def post (s : SemaphoreCPP) : SemaphoreCPP := s.record (.semPost s.sem)

def close (s : SemaphoreCPP) : SemaphoreCPP :=
  if s.isNamed then s.record (.semClose s.sem) else s

def unlink (s : SemaphoreCPP) : SemaphoreCPP :=
  if s.isNamed then s.record (.semUnlink s.semName) else s

/-- The public methods. -/
inductive Method
  | wait
  | post
  | close
  | unlink
  deriving DecidableEq

def run (s : SemaphoreCPP) : Method → SemaphoreCPP
  | .wait => s.wait
  | .post => s.post
  | .close => s.close
  | .unlink => s.unlink

/-- Calls of methods, and then the destructor. -/
def life (s : SemaphoreCPP) (methods : List Method) : SemaphoreCPP :=
  (methods.foldl run s).destruct

/-- **The handle is closed once** in the life of an object for a named semaphore. -/
def ClosedOnce (semName : String) (create : Bool) (handle : ℕ) (methods : List Method) : Prop :=
  ∃ s, ofName semName create (some handle) = some s ∧
    (s.life methods).calls.count (.semClose (some handle)) = 1

/-! ### Closing -/

variable {s : SemaphoreCPP} {methods : List Method}

/-- No method changes a member, and `close` alone closes the handle. -/
theorem run_spec (s : SemaphoreCPP) (method : Method) :
    (s.run method).sem = s.sem ∧ (s.run method).isNamed = s.isNamed ∧
      (s.run method).calls.count (.semClose s.sem) = s.calls.count (.semClose s.sem) +
        if s.isNamed = true ∧ method = .close then 1 else 0 := by
  obtain ⟨sem, semName, isNamed, calls⟩ := s
  cases isNamed <;> cases method <;> simp [run, wait, post, close, unlink, record]

/-- The object does not know whether it was closed. -/
theorem foldl_run_spec (s : SemaphoreCPP) (methods : List Method) :
    (methods.foldl run s).sem = s.sem ∧ (methods.foldl run s).isNamed = s.isNamed ∧
      (methods.foldl run s).calls.count (.semClose s.sem) = s.calls.count (.semClose s.sem) +
        if s.isNamed then methods.count .close else 0 := by
  induction methods generalizing s with
  | nil => simp
  | cons method methods ih =>
    obtain ⟨h_sem, h_named, h_count⟩ := run_spec s method
    -- the rest of the calls sees the same members
    obtain ⟨ih_sem, ih_named, ih_count⟩ := ih (s.run method)
    rw [h_sem] at ih_sem ih_count
    rw [h_named] at ih_named ih_count
    refine ⟨ih_sem, ih_named, ?_⟩
    rw [List.foldl_cons, ih_count, h_count, List.count_cons]
    -- an object that was given its semaphore closes nothing; otherwise a `close` adds one
    cases s.isNamed with
    | false => simp
    | true =>
      cases method with
      | close =>
        simp only [and_self, if_true, beq_self_eq_true]
        omega
      | _ => simp

/-- **How often the handle is closed**: by every call of `close`, and by the destructor. -/
theorem count_semClose_life (h_named : s.isNamed = true) (h_sem : s.sem ≠ none) :
    (s.life methods).calls.count (.semClose s.sem) =
      s.calls.count (.semClose s.sem) + methods.count .close + 1 := by
  obtain ⟨h_run_sem, h_run_named, h_count⟩ := foldl_run_spec s methods
  rw [h_named, if_pos rfl] at h_count
  rw [life, destruct, h_run_sem, h_run_named, if_pos ⟨h_named, h_sem⟩, record]
  simp [h_count]

/-- An object that was given its semaphore does not close it. -/
theorem count_semClose_ofHandle (sem : Option ℕ) (methods : List Method) :
    ((ofHandle sem).life methods).calls.count (.semClose sem) = 0 := by
  obtain ⟨-, h_named, h_count⟩ := foldl_run_spec (ofHandle sem) methods
  have h_not : ¬ ((methods.foldl run (ofHandle sem)).isNamed = true ∧
      (methods.foldl run (ofHandle sem)).sem ≠ none) := by
    rw [h_named]
    exact fun h => nomatch h.1
  rw [life, destruct, if_neg h_not]
  exact h_count

/-- An object that has opened its semaphore closes it in the destructor, whatever was called. -/
theorem count_semClose_ofName {semName : String} {create : Bool} {handle : ℕ}
    (h : ofName semName create (some handle) = some s) :
    (s.life methods).calls.count (.semClose (some handle)) = methods.count .close + 1 := by
  obtain ⟨h_named, h_sem, h_calls⟩ : s.isNamed = true ∧ s.sem = some handle ∧
      s.calls = [.semOpen semName create] := by
    obtain rfl := Option.some.inj h
    exact ⟨rfl, rfl, rfl⟩
  have h_ne : s.sem ≠ none := by
    rw [h_sem]
    exact Option.some_ne_none handle
  rw [← h_sem, count_semClose_life h_named h_ne, h_calls]
  simp

/-- **When the handle is closed once**: when `close` is not called. -/
theorem closedOnce_iff {semName : String} {create : Bool} {handle : ℕ} :
    ClosedOnce semName create handle methods ↔ .close ∉ methods := by
  rw [← List.count_eq_zero]
  refine ⟨?_, ?_⟩
  · rintro ⟨s, h_s, h_once⟩
    rw [count_semClose_ofName h_s] at h_once
    exact Nat.succ.inj h_once
  · intro h_zero
    refine ⟨_, rfl, ?_⟩
    rw [count_semClose_ofName rfl, h_zero]

/-- An explicit `close` makes two. -/
theorem closed_twice :
    (∃ s, ofName "queue_sem" true (some 3) = some s ∧
      (s.life [.wait, .post, .close]).calls.count (.semClose (some 3)) = 2) ∧
    ¬ ClosedOnce "queue_sem" true 3 [.wait, .post, .close] := by
  refine ⟨⟨_, rfl, rfl⟩, ?_⟩
  rintro ⟨s, h_s, h_once⟩
  obtain rfl := Option.some.inj h_s
  exact absurd h_once (by decide)

end SemaphoreCPP
end Frontend
end WateRMQ
