import WateRMQ.Lib.Named
import WateRMQ.Lib.Run
import WateRMQ.Frontend.Queue

/-!
# The life cycle of the frontend's instances

`_init` and `_cleanup` of `WateRMQ.cpp`, and any number of `WateRMQ` objects of one name, in one
process or many, whose constructors, calls of `destroy` and destructors run in any order
(`System.next`).

The shared memory and the semaphore behind the name are `Posix.Named` objects. What the operating
system answers to the calls of `_init` is given with the step; an `_init` that leaves the program
has done its calls up to there, and there is no object. `free` is taken to return, also for a
pointer that another process has put into the shared array.
-/

namespace WateRMQ
namespace Frontend

open CMem Posix

/-! ### The data model -/

section Functions

variable {ι : Type} [CPointer ι] [DecidableEq ι]

/-- The members of `WateRMQ` that its life cycle sets: `_sem` and `_ptr_queue`, by the numbers of
the semaphore and of the shared-memory object behind them. -/
structure Members where
  sem : Option ℕ
  ptrQueue : Option ℕ

/-- What is behind the name: the shared-memory objects, each without contents as long as it has its
initial size 0, the semaphores by their values, and the pointers that were passed to `free`, the
newest first. -/
structure Store (ι : Type) where
  shm : Named (Option (Queue ι))
  sem : Named ℕ
  freed : List ι

/-- Which of its calls succeed in a run of `_init`. -/
structure InitCalls where
  shmOpen : Bool
  ftruncate : Bool
  mmap : Bool
  fstat : Bool
  semOpen : Bool

/-- `_init` returns: only a failing `fstat` does not leave the program. -/
def InitCalls.Succeed (calls : InitCalls) : Prop :=
  calls.shmOpen = true ∧ calls.ftruncate = true ∧ calls.mmap = true ∧ calls.semOpen = true

/-- The run of `_init` in which every call succeeds. -/
def InitCalls.ok : InitCalls := ⟨true, true, true, true, true⟩

/-! ### The functions of the source -/

/-- A `Queue` of zero bytes, as `ftruncate` makes it. -/
def zeroQueue : Queue ι where
  items _ := CPointer.null
  front := 0
  rear := 0
  count := 0

/-- The initialisation in `_init`: of a queue that looks unused, with a `memset` of `items`. -/
def initializeIfUnused (q : Queue ι) : Queue ι :=
  if q.front = 0 ∧ q.rear = 0 ∧ q.count = 0 then
    { items := fun i => if InArray i then CPointer.null else q.items i
      front := 0
      rear := 0
      count := 0 }
  else q

/-- `_init`; no members when it leaves the program. -/
def init (calls : InitCalls) (s : Store ι) : Option Members × Store ι :=
  if calls.shmOpen = false then (none, s)
  else
    let (fd, shm) := s.shm.openCreate none
    if calls.ftruncate = false then (none, { s with shm := shm })
    else
      -- a new object gets its size; one that has it already stays as it is
      let shm := shm.modify fd fun contents => some (contents.getD zeroQueue)
      if calls.mmap = false then (none, { s with shm := shm })
      else
        let shm :=
          if calls.fstat then shm.modify fd fun contents => contents.map initializeIfUnused
          else shm
        if calls.semOpen = false then (none, { s with shm := shm })
        else
          let (sem, sems) := s.sem.openCreate 0
          (some { sem := some sem, ptrQueue := some fd }, { s with shm := shm, sem := sems })

/-- The loop of `_cleanup` over the first slots of `items`. -/
def freeItems (q : Queue ι) (freed : List ι) : ℕ → Queue ι × List ι
  | 0 => (q, freed)
  | i + 1 =>
    let (q, freed) := freeItems q freed i
    if q.items i = CPointer.null then (q, freed)
    else
      ({ q with items := Function.update q.items i CPointer.null }, q.items i :: freed)

/-- `_cleanup`. `munmap` and `sem_close` end the instance's use of the two objects, which stay. -/
def cleanup (m : Members) (s : Store ι) : Members × Store ι :=
  let s : Store ι :=
    match m.ptrQueue with
    | none => s
    | some fd =>
      match s.shm.objects[fd]? with
      | some (some q) =>
        let r := freeItems q s.freed maxSize.toNat
        { s with shm := s.shm.modify fd fun _ => some r.1, freed := r.2 }
      | _ => s
  ({ sem := none, ptrQueue := none }, { s with shm := s.shm.unlink })

/-! ### The system of all instances -/

/-- A `WateRMQ` object, before its constructor, during its life and after its destructor. -/
inductive Life
  | unborn
  | alive (m : Members)
  | gone

/-- The instances `I` of one name, with what is behind the name. -/
structure System (I ι : Type) where
  store : Store ι
  life : I → Life

/-- A step in the life of an instance. -/
inductive LifeStep (I : Type)
  | construct (i : I) (calls : InitCalls)
  | destroy (i : I)
  | destruct (i : I)

/-- The step runs `_cleanup` on the instance `i`. -/
def LifeStep.CleansUp {I : Type} (i : I) : LifeStep I → Prop
  | .construct _ _ => False
  | .destroy j => j = i
  | .destruct j => j = i

theorem cleansUp_destroy {I : Type} (i : I) : (LifeStep.destroy i).CleansUp i := rfl

theorem cleansUp_destruct {I : Type} (i : I) : (LifeStep.destruct i).CleansUp i := rfl

/-- The instance that takes the step. -/
def LifeStep.instance {I : Type} : LifeStep I → I
  | .construct i _ => i
  | .destroy i => i
  | .destruct i => i

namespace System

variable {I : Type} [DecidableEq I]

/-- One step: a constructor, a call of `destroy`, or a destructor. -/
def next (u : System I ι) : LifeStep I → Option (System I ι)
  | .construct i calls =>
    match u.life i with
    | .unborn =>
      let (members, store) := init calls u.store
      some
        { store := store
          life := Function.update u.life i (members.elim .gone .alive) }
    | _ => none
  | .destroy i =>
    match u.life i with
    | .alive m =>
      let (m, store) := cleanup m u.store
      some { store := store, life := Function.update u.life i (.alive m) }
    | _ => none
  | .destruct i =>
    match u.life i with
    | .alive m => some { store := (cleanup m u.store).2, life := Function.update u.life i .gone }
    | _ => none

omit [CPointer ι] [DecidableEq ι] [DecidableEq I]

/-- A name that nobody has used yet. -/
def fresh : System I ι where
  store := { shm := ⟨[], none, nofun⟩, sem := ⟨[], none, nofun⟩, freed := [] }
  life _ := .unborn

/-- The instance `i` is attached to the shared-memory object `fd` and to the semaphore `sem`. -/
def Attached (u : System I ι) (i : I) (fd sem : ℕ) : Prop :=
  u.life i = .alive { sem := some sem, ptrQueue := some fd }

/-- Where `_ptr_queue` of the instance `i` points to. -/
def ptrQueue (u : System I ι) (i : I) : Option ℕ :=
  match u.life i with
  | .alive m => m.ptrQueue
  | _ => none

/-- The queue that the instance `i` sees. -/
def queue (u : System I ι) (i : I) : Option (Queue ι) :=
  (u.ptrQueue i).bind fun fd => (u.store.shm.objects[fd]?).bind id

end System

end Functions

/-! ### What `_init` does -/

section Init

variable {ι : Type} [CPointer ι]

/-- An `_init` that returns attaches the instance to what the two names are bound to. -/
theorem init_of_succeed {calls : InitCalls} (h : calls.Succeed) (s : Store ι) :
    (init calls s).1 =
      some { sem := some (s.sem.openCreate 0).1, ptrQueue := some (s.shm.openCreate none).1 } := by
  obtain ⟨h_shm, h_ftruncate, h_mmap, h_sem⟩ := h
  simp [init, h_shm, h_ftruncate, h_mmap, h_sem]

theorem init_of_not_succeed {calls : InitCalls} (h : ¬ calls.Succeed) (s : Store ι) :
    (init calls s).1 = none := by
  -- in their order, each call but `fstat` leaves the program when it fails
  obtain ⟨shmOpen, ftruncate, mmap, fstat, semOpen⟩ := calls
  cases shmOpen with
  | false => rfl
  | true =>
    cases ftruncate with
    | false => rfl
    | true =>
      cases mmap with
      | false => rfl
      | true =>
        cases semOpen with
        | false => rfl
        | true => exact absurd ⟨rfl, rfl, rfl, rfl⟩ h

/-- Initialising twice is initialising once. -/
theorem initializeIfUnused_idem (q : Queue ι) :
    initializeIfUnused (initializeIfUnused q) = initializeIfUnused q := by
  by_cases h : q.front = 0 ∧ q.rear = 0 ∧ q.count = 0
  · have h_once : initializeIfUnused q =
        { items := fun i => if InArray i then CPointer.null else q.items i
          front := 0
          rear := 0
          count := 0 } := if_pos h
    rw [h_once]
    refine (if_pos ⟨rfl, rfl, rfl⟩).trans (Queue.ext (funext fun i => ?_) rfl rfl rfl)
    dsimp only
    split <;> rfl
  · rw [show initializeIfUnused q = q from if_neg h, show initializeIfUnused q = q from if_neg h]

/-- What the calls of `_init` up to any point have made of the shared memory `n`: the name is bound
to the object that was opened, and the objects that had contents have the same, or an unused queue
initialised. -/
structure Opened (n n' : Named (Option (Queue ι))) : Prop where
  bound : n'.bound = some (n.openCreate none).1
  length_le : n.objects.length ≤ n'.objects.length
  object : ∀ (o : ℕ) (q : Queue ι), n.objects[o]? = some (some q) →
    n'.objects[o]? = some (some q) ∨ n'.objects[o]? = some (some (initializeIfUnused q))

theorem Opened.of_openCreate (n : Named (Option (Queue ι))) : Opened n (n.openCreate none).2 where
  bound := n.openCreate_bound none
  length_le := n.le_openCreate_length none
  object o q h := by
    obtain ⟨h_lt, -⟩ := List.getElem?_eq_some_iff.mp h
    exact Or.inl ((n.openCreate_object none h_lt).trans h)

/-- A change of the opened object that leaves contents as they are, or initialises them. -/
theorem Opened.modify {n n' : Named (Option (Queue ι))} (h : Opened n n') (fd : ℕ)
    {f : Option (Queue ι) → Option (Queue ι)}
    (h_f : ∀ q, f (some q) = some q ∨ f (some q) = some (initializeIfUnused q)) :
    Opened n (n'.modify fd f) where
  bound := h.bound
  length_le := h.length_le.trans_eq (n'.modify_length fd f).symm
  object o q h_object := by
    by_cases h_fd : fd = o
    · subst h_fd
      rw [n'.modify_object]
      -- an initialised queue stays what it is when it is initialised again
      have h_init := h_f (initializeIfUnused q)
      rw [initializeIfUnused_idem] at h_init
      rcases h.object fd q h_object with h_same | h_same
      · rw [h_same, Option.map_some]
        exact (h_f q).imp (congrArg some) (congrArg some)
      · rw [h_same, Option.map_some]
        exact Or.inr (congrArg some (h_init.elim id id))
    · rw [n'.modify_object_of_ne h_fd]
      exact h.object o q h_object

/-- **What `_init` does to the shared memory.** -/
theorem init_shm (calls : InitCalls) (s : Store ι) :
    (calls.shmOpen = false ∧ (init calls s).2.shm = s.shm) ∨ Opened s.shm (init calls s).2.shm := by
  obtain ⟨shmOpen, ftruncate, mmap, fstat, semOpen⟩ := calls
  have h_open := Opened.of_openCreate s.shm
  have h_size := h_open.modify (s.shm.openCreate none).1
    (f := fun contents => some (contents.getD zeroQueue)) fun q => Or.inl rfl
  have h_init := h_size.modify (s.shm.openCreate none).1
    (f := fun contents => contents.map initializeIfUnused) fun q => Or.inr rfl
  cases shmOpen with
  | false => exact Or.inl ⟨rfl, rfl⟩
  | true =>
    refine Or.inr ?_
    cases ftruncate with
    | false => exact h_open
    | true =>
      cases mmap with
      | false => exact h_size
      | true =>
        -- from here on the shared memory depends on `fstat` alone
        cases semOpen <;> cases fstat
        · exact h_size
        · exact h_init
        · exact h_size
        · exact h_init

theorem init_shm_of_succeed {calls : InitCalls} (h : calls.Succeed) (s : Store ι) :
    Opened s.shm (init calls s).2.shm :=
  (init_shm calls s).resolve_left fun ⟨h_shm, _⟩ => Bool.noConfusion (h_shm.symm.trans h.1)

/-- **What `_init` does to the semaphores.** -/
theorem init_sem (calls : InitCalls) (s : Store ι) :
    (¬ calls.Succeed ∧ (init calls s).2.sem = s.sem) ∨
      (init calls s).2.sem = (s.sem.openCreate 0).2 := by
  -- `sem_open` is the last call, so a failure in front of it changes no semaphore
  obtain ⟨shmOpen, ftruncate, mmap, fstat, semOpen⟩ := calls
  cases shmOpen with
  | false => exact Or.inl ⟨fun h => Bool.noConfusion h.1, rfl⟩
  | true =>
    cases ftruncate with
    | false => exact Or.inl ⟨fun h => Bool.noConfusion h.2.1, rfl⟩
    | true =>
      cases mmap with
      | false => exact Or.inl ⟨fun h => Bool.noConfusion h.2.2.1, rfl⟩
      | true =>
        cases semOpen with
        | false => exact Or.inl ⟨fun h => Bool.noConfusion h.2.2.2, rfl⟩
        | true => exact Or.inr rfl

/-- The semaphore's name keeps the object it is bound to. -/
theorem init_sem_of_bound {s : Store ι} {sem : ℕ} (h : s.sem.bound = some sem)
    (calls : InitCalls) : (init calls s).2.sem.bound = some sem := by
  rcases init_sem calls s with ⟨-, h_same⟩ | h_open
  · rw [h_same, h]
  · rw [h_open, Named.openCreate_of_bound h, h]

theorem init_sem_of_succeed {calls : InitCalls} (h : calls.Succeed) (s : Store ι) :
    (init calls s).2.sem.bound = some (s.sem.openCreate 0).1 := by
  rcases init_sem calls s with ⟨h_not, -⟩ | h_open
  · exact absurd h h_not
  · rw [h_open, Named.openCreate_bound]

end Init

/-! ### What `_cleanup` does -/

section Cleanup

variable {ι : Type} [CPointer ι] [DecidableEq ι]

/-- The loop makes the slots it has come by null, and does nothing else to the queue. -/
theorem freeItems_fst (q : Queue ι) (freed : List ι) (n : ℕ) :
    (freeItems q freed n).1 =
      { q with items := fun i => if 0 ≤ i ∧ i < n then CPointer.null else q.items i } := by
  induction n with
  | zero =>
    refine Queue.ext (funext fun i => ?_) rfl rfl rfl
    exact (if_neg (by push_cast; omega)).symm
  | succ n ih =>
    rw [freeItems]
    generalize freeItems q freed n = r at ih
    obtain ⟨q', freed'⟩ := r
    obtain rfl : q' = _ := ih
    dsimp only
    -- slot `n` is null now, whether it was or not
    by_cases h_null : q.items n = CPointer.null
    · rw [if_pos (by simp [h_null])]
      refine Queue.ext (funext fun i => ?_) rfl rfl rfl
      dsimp only
      by_cases h_i : i = n
      · rw [h_i, h_null, ite_self, ite_self]
      · congr 1
        rw [eq_iff_iff]
        push_cast
        omega
    · rw [if_neg (by simpa using h_null)]
      refine Queue.ext (funext fun i => ?_) rfl rfl rfl
      dsimp only
      by_cases h_i : i = n
      · rw [h_i, Function.update_self, if_pos (by push_cast; omega)]
      · rw [Function.update_of_ne h_i]
        congr 1
        rw [eq_iff_iff]
        push_cast
        omega

/-- The queue that `_cleanup` leaves in the shared memory: the same, with null in every slot. -/
def emptied (q : Queue ι) : Queue ι :=
  { q with items := fun i => if InArray i then CPointer.null else q.items i }

theorem freeItems_maxSize (q : Queue ι) (freed : List ι) :
    (freeItems q freed maxSize.toNat).1 = emptied q := by
  rw [freeItems_fst]
  refine Queue.ext (funext fun i => ?_) rfl rfl rfl
  dsimp only [emptied]
  congr 1

@[simp] theorem cleanup_fst (m : Members) (s : Store ι) :
    (cleanup m s).1 = { sem := none, ptrQueue := none } := rfl

/-- **The name of the shared memory is free after a `_cleanup`**, whatever the instance had been
attached to. -/
@[simp] theorem cleanup_bound (m : Members) (s : Store ι) : (cleanup m s).2.shm.bound = none := rfl

@[simp] theorem cleanup_sem (m : Members) (s : Store ι) : (cleanup m s).2.sem = s.sem := by
  unfold cleanup
  dsimp only
  split
  · rfl
  · split <;> rfl

@[simp] theorem cleanup_length (m : Members) (s : Store ι) :
    (cleanup m s).2.shm.objects.length = s.shm.objects.length := by
  unfold cleanup
  dsimp only
  split
  · rfl
  · split
    · exact s.shm.modify_length _ _
    · rfl

/-- The slots of the object that the instance is attached to are null. -/
theorem cleanup_object {m : Members} {s : Store ι} {fd : ℕ} {q : Queue ι}
    (h_ptr : m.ptrQueue = some fd) (h_object : s.shm.objects[fd]? = some (some q)) :
    (cleanup m s).2.shm.objects[fd]? = some (some (emptied q)) := by
  unfold cleanup
  dsimp only
  rw [h_ptr]
  dsimp only
  rw [h_object]
  dsimp only
  rw [Named.unlink_objects, Named.modify_object, h_object, freeItems_maxSize]
  rfl

/-- The other objects stay as they are. -/
theorem cleanup_object_of_ne {m : Members} {s : Store ι} {o : ℕ} (h_ptr : m.ptrQueue ≠ some o) :
    (cleanup m s).2.shm.objects[o]? = s.shm.objects[o]? := by
  unfold cleanup
  dsimp only
  split
  · rfl
  next fd h_fd =>
    split
    · refine s.shm.modify_object_of_ne ?_ _
      rintro rfl
      exact h_ptr h_fd
    · rfl

end Cleanup

/-! ### What a step can do -/

namespace System

variable {I ι : Type} [DecidableEq I] [CPointer ι] [DecidableEq ι]

theorem next_construct {u v : System I ι} {i : I} {calls : InitCalls}
    (h : u.next (.construct i calls) = some v) :
    u.life i = .unborn ∧ v.store = (init calls u.store).2 ∧
      v.life = Function.update u.life i ((init calls u.store).1.elim .gone .alive) := by
  rw [next] at h
  split at h
  next h_life =>
    cases h
    exact ⟨h_life, rfl, rfl⟩
  next => cases h

/-- A constructor that returns attaches its instance, and no other. -/
theorem next_construct_of_succeed {u v : System I ι} {i : I} {calls : InitCalls}
    (h_calls : calls.Succeed) (h : u.next (.construct i calls) = some v) :
    v.life = Function.update u.life i (.alive
      { sem := some (u.store.sem.openCreate 0).1
        ptrQueue := some (u.store.shm.openCreate none).1 }) := by
  obtain ⟨-, -, h_life⟩ := next_construct h
  rw [h_life, init_of_succeed h_calls]
  rfl

/-- Both `destroy` and the destructor run `_cleanup`. -/
theorem next_cleanup {u v : System I ι} {i : I} {a : LifeStep I} (h_cleans : a.CleansUp i)
    (h : u.next a = some v) :
    ∃ m, u.life i = .alive m ∧ v.store = (cleanup m u.store).2 ∧ v.ptrQueue i = none ∧
      ∀ j, j ≠ i → v.life j = u.life j := by
  cases a with
  | construct j calls => exact h_cleans.elim
  | destroy j =>
    obtain rfl : j = i := h_cleans
    rw [next] at h
    split at h
    next m h_life =>
      cases h
      refine ⟨m, h_life, rfl, ?_, fun k hk => Function.update_of_ne hk _ _⟩
      simp [ptrQueue]
    next => cases h
  | destruct j =>
    obtain rfl : j = i := h_cleans
    rw [next] at h
    split at h
    next m h_life =>
      cases h
      refine ⟨m, h_life, rfl, ?_, fun k hk => Function.update_of_ne hk _ _⟩
      simp [ptrQueue]
    next => cases h

omit [DecidableEq I] [CPointer ι] [DecidableEq ι] in
theorem Attached.ptrQueue {u : System I ι} {i : I} {fd sem : ℕ} (h : u.Attached i fd sem) :
    u.ptrQueue i = some fd := by
  rw [System.ptrQueue, h]

end System

end Frontend
end WateRMQ
