import WateRMQ.Frontend.LifeCycle

/-!
# The life of one object

All public methods of `WateRMQ.cpp` on one object, from the constructor, whose calls of the
operating system succeed, to the destructor, with other processes that write to the shared queue and
to the semaphore in between.

`_readMessage` uses two pointers and asks for one of them. That this is enough is the invariant
`Phase`: an object has both pointers until its first `_cleanup`, and none from then on. So a read
after `destroy` finds no semaphore, and a second `_cleanup` finds nothing to release.
-/

namespace WateRMQ
namespace Frontend

open CMem Posix

/-! ### The functions of the source -/

/-- The members of `WateRMQ`: `_sem` and `_ptr_queue` with what they point to, and the others; and
how often the object has started a thread, and called `munmap`, `delete` and `shm_unlink`. -/
structure Object where
  reader : WateRMQ Slot
  filename : String
  command : String → Option String
  running : Bool
  threads : ℕ
  unmapped : ℕ
  deleted : ℕ
  unlinked : ℕ

namespace Object

/-- `WateRMQ(filename)`, when `_init` returns: `q` is in the shared memory, `value` is the value of
the semaphore, and `fstat` succeeds or not. -/
def construct (filename : String) (fstat : Bool) (q : Queue Slot) (value : ℕ) : Object where
  reader := ⟨some value, some (if fstat then initializeIfUnused q else q), []⟩
  filename := filename
  command _ := none
  running := false
  threads := 0
  unmapped := 0
  deleted := 0
  unlinked := 0

/-- The part of `_cleanup` for `_ptr_queue`. -/
def releaseQueue (o : Object) : Object :=
  match o.reader.ptrQueue with
  | none => o
  | some q =>
    let r := freeItems q o.reader.freed maxSize.toNat
    { o with
      reader := { o.reader with ptrQueue := none, freed := r.2 }
      unmapped := o.unmapped + 1 }

/-- The part of `_cleanup` for `_sem`. -/
def releaseSem (o : Object) : Object :=
  match o.reader.sem with
  | none => o
  | some _ =>
    { o with
      reader := { o.reader with sem := none }
      deleted := o.deleted + 1 }

/-- `_cleanup`. -/
def cleanup (o : Object) : Object :=
  let o := releaseSem (releaseQueue { o with running := false })
  { o with unlinked := o.unlinked + 1 }

/-- `_command[key] = value`, for some keys. -/
def setCommand (o : Object) (entries : List (String × String)) : Object :=
  { o with command := entries.foldl (fun c e => Function.update c e.1 (some e.2)) o.command }

def setExceptionMessage (o : Object)
    (loginExceptionMessage openingChannelExceptionMessage queueExceptionMessage
      bindingExceptionMessage consumingExceptionMessage closingChannelExceptionMessage
      closingConnectionExceptionMessage endingConnectionExceptionMessage : String) : Object :=
  o.setCommand
    [("loginExceptionMessage", loginExceptionMessage),
      ("openingChannelExceptionMessage", openingChannelExceptionMessage),
      ("queueExceptionMessage", queueExceptionMessage),
      ("bindingExceptionMessage", bindingExceptionMessage),
      ("consumingExceptionMessage", consumingExceptionMessage),
      ("closingChannelExceptionMessage", closingChannelExceptionMessage),
      ("closingConnectionExceptionMessage", closingConnectionExceptionMessage),
      ("endingConnectionExceptionMessage", endingConnectionExceptionMessage)]

def declareExchange (o : Object) (exchange_name bindingKey queuename : String) : Object :=
  o.setCommand
    [("exchange_name", exchange_name), ("bindingKey", bindingKey), ("queuename", queuename)]

def connection (o : Object) (hostname : String) (port : ℤ) : Object :=
  o.setCommand [("hostname", hostname), ("port", toString port)]

def login (o : Object) (v_host : String) (channel_max frame_max heartbeat : ℤ)
    (username password : String) : Object :=
  o.setCommand
    [("v_host", v_host), ("channel_max", toString channel_max), ("frame_max", toString frame_max),
      ("heartbeat", toString heartbeat), ("username", username), ("password", password)]

/-- `start`. The thread prints a line and ends. -/
def start (o : Object) : Object :=
  { o with running := true, threads := o.threads + 1 }

def destroy (o : Object) : Object := o.cleanup

/-- `~WateRMQ`. -/
def destruct (o : Object) : Object := o.cleanup

def consumingMessage (o : Object) : Except Stop (List UInt8 × Object) := do
  let (s, reader) ← Frontend.consumingMessage Slot.string o.reader
  return (s, { o with reader := reader })

/-- Other processes write to the shared queue and to the semaphore. -/
def others (o : Object) (q : Queue Slot) (value : ℕ) : Object :=
  { o with reader :=
    { sem := o.reader.sem.map fun _ => value
      ptrQueue := o.reader.ptrQueue.map fun _ => q
      freed := o.reader.freed } }

/-- A call of a public method, or a step of other processes. -/
inductive Step
  | setExceptionMessage (m₁ m₂ m₃ m₄ m₅ m₆ m₇ m₈ : String)
  | declareExchange (exchange_name bindingKey queuename : String)
  | connection (hostname : String) (port : ℤ)
  | login (v_host : String) (channel_max frame_max heartbeat : ℤ) (username password : String)
  | start
  | consumingMessage
  | destroy
  | others (q : Queue Slot) (value : ℕ)

def step (o : Object) : Step → Except Stop Object
  | .setExceptionMessage m₁ m₂ m₃ m₄ m₅ m₆ m₇ m₈ =>
    return o.setExceptionMessage m₁ m₂ m₃ m₄ m₅ m₆ m₇ m₈
  | .declareExchange exchange_name bindingKey queuename =>
    return o.declareExchange exchange_name bindingKey queuename
  | .connection hostname port => return o.connection hostname port
  | .login v_host channel_max frame_max heartbeat username password =>
    return o.login v_host channel_max frame_max heartbeat username password
  | .start => return o.start
  | .consumingMessage => o.consumingMessage.map Prod.snd
  | .destroy => return o.destroy
  | .others q value => return o.others q value

/-- A run of steps that return. -/
def next (o : Object) (a : Step) : Option Object := (o.step a).toOption

/-! ### What a read does to the pointers -/

section Reads

variable {w w' : WateRMQ Slot} {r : List UInt8}

/-- Without a semaphore nothing is read. -/
theorem readMessage_of_no_sem (h : w.sem = none) :
    Frontend.readMessage Slot.string w = .ok ([], w) := by
  unfold Frontend.readMessage
  rw [h]
  rfl

/-- A read that returns leaves both pointers in place. -/
theorem readMessage_pointers {value : ℕ} {q : Queue Slot} (h_sem : w.sem = some value)
    (h_queue : w.ptrQueue = some q) (h : Frontend.readMessage Slot.string w = .ok (r, w')) :
    (∃ value', w'.sem = some value') ∧ ∃ q', w'.ptrQueue = some q' := by
  unfold Frontend.readMessage at h
  rw [h_sem] at h
  obtain ⟨value', -, h⟩ := bind_eq_ok.mp h
  rw [h_queue] at h
  obtain ⟨msg, -, h⟩ := bind_eq_ok.mp h
  -- a null message, or one that is taken; every other way ends the program
  split at h
  · cases h
    exact ⟨⟨_, rfl⟩, q, rfl⟩
  · split at h
    · cases h
    · split at h
      · cases h
        exact ⟨⟨_, rfl⟩, _, rfl⟩
      · cases h

/-- A string that is not null is not read through a null pointer. -/
theorem string_ne_nullPointer {slot : Slot} (h : slot ≠ CPointer.null) :
    slot.string ≠ .error .nullPointer := by
  intro h_str
  cases slot with
  | uninit => cases h_str
  | null => exact h rfl
  | block bytes =>
    rw [Slot.string, readString] at h_str
    split at h_str <;> cases h_str

/-- **A read with both pointers, or without a semaphore, does not go through a null pointer.** -/
theorem readMessage_ne_nullPointer (h : w.sem = none ∨ w.ptrQueue ≠ none) :
    Frontend.readMessage Slot.string w ≠ .error (.fault .nullPointer) := by
  intro h_read
  cases h_sem : w.sem with
  | none =>
    rw [readMessage_of_no_sem h_sem] at h_read
    cases h_read
  | some value =>
    -- the guard of `_readMessage` is about `_sem`; that `_ptr_queue` is there is the hypothesis
    have h_queue := h.resolve_left (by rw [h_sem]; exact Option.some_ne_none value)
    obtain ⟨q, h_q⟩ := Option.ne_none_iff_exists'.mp h_queue
    unfold Frontend.readMessage at h_read
    rw [h_sem] at h_read
    rcases bind_eq_error.mp h_read with h_wait | ⟨value', -, h_read⟩
    · cases value with
      | zero => cases h_wait
      | succ value => cases h_wait
    · rw [h_q] at h_read
      rcases bind_eq_error.mp h_read with h_peek | ⟨msg, -, h_read⟩
      · -- a front outside of the array is another fault
        unfold Frontend.peek at h_peek
        split at h_peek
        · cases h_peek
        · split at h_peek <;> cases h_peek
      · split at h_read
        · cases h_read
        next h_null =>
          split at h_read
          next f h_str =>
            cases h_read
            exact string_ne_nullPointer h_null h_str
          · split at h_read <;> cases h_read

end Reads

/-! ### The two phases of an object -/

/-- Up to its first `_cleanup` an object has both pointers, from then on it has none. -/
inductive Phase (steps : List Step) (o : Object) : Prop
  | attached {value : ℕ} {q : Queue Slot} (h_sem : o.reader.sem = some value)
    (h_queue : o.reader.ptrQueue = some q) (h_unmapped : o.unmapped = 0) (h_deleted : o.deleted = 0)
    (h_steps : .destroy ∉ steps)
  | released (h_sem : o.reader.sem = none) (h_queue : o.reader.ptrQueue = none)
    (h_unmapped : o.unmapped = 1) (h_deleted : o.deleted = 1)

variable {o o' : Object} {steps : List Step} {a : Step}

theorem releaseQueue_attached {q : Queue Slot} (h : o.reader.ptrQueue = some q) :
    o.releaseQueue.reader.sem = o.reader.sem ∧ o.releaseQueue.reader.ptrQueue = none ∧
      o.releaseQueue.unmapped = o.unmapped + 1 ∧ o.releaseQueue.deleted = o.deleted := by
  rw [releaseQueue, h]
  exact ⟨rfl, rfl, rfl, rfl⟩

theorem releaseSem_attached {value : ℕ} (h : o.reader.sem = some value) :
    o.releaseSem.reader.sem = none ∧ o.releaseSem.reader.ptrQueue = o.reader.ptrQueue ∧
      o.releaseSem.unmapped = o.unmapped ∧ o.releaseSem.deleted = o.deleted + 1 := by
  rw [releaseSem, h]
  exact ⟨rfl, rfl, rfl, rfl⟩

/-- The first `_cleanup` releases both. -/
theorem cleanup_attached {value : ℕ} {q : Queue Slot} (h_sem : o.reader.sem = some value)
    (h_queue : o.reader.ptrQueue = some q) :
    o.cleanup.reader.sem = none ∧ o.cleanup.reader.ptrQueue = none ∧
      o.cleanup.unmapped = o.unmapped + 1 ∧ o.cleanup.deleted = o.deleted + 1 := by
  obtain ⟨h_sem', h_queue', h_unmapped, h_deleted⟩ :=
    releaseQueue_attached (o := { o with running := false }) h_queue
  obtain ⟨h_sem₂, h_queue₂, h_unmapped₂, h_deleted₂⟩ := releaseSem_attached (h_sem'.trans h_sem)
  exact ⟨h_sem₂, h_queue₂.trans h_queue', h_unmapped₂.trans h_unmapped,
    h_deleted₂.trans (congrArg (· + 1) h_deleted)⟩

/-- A later `_cleanup` has nothing to release. -/
theorem cleanup_released (h_sem : o.reader.sem = none) (h_queue : o.reader.ptrQueue = none) :
    o.cleanup = { o with running := false, unlinked := o.unlinked + 1 } := by
  simp [cleanup, releaseQueue, releaseSem, h_queue, h_sem]

/-- After a `_cleanup` the pointers are gone, and both objects were released once. -/
theorem Phase.cleanup (h : Phase steps o) (steps' : List Step) : Phase steps' o.cleanup := by
  cases h with
  | attached h_sem h_queue h_unmapped h_deleted _ =>
    obtain ⟨h₁, h₂, h₃, h₄⟩ := cleanup_attached h_sem h_queue
    exact .released h₁ h₂ (by rw [h₃, h_unmapped]) (by rw [h₄, h_deleted])
  | released h_sem h_queue h_unmapped h_deleted =>
    rw [cleanup_released h_sem h_queue]
    exact .released h_sem h_queue h_unmapped h_deleted

/-- A step that leaves the pointers and the two counts as they are. -/
theorem Phase.of_same (h : Phase steps o) (h_reader : o'.reader = o.reader)
    (h_unmapped : o'.unmapped = o.unmapped) (h_deleted : o'.deleted = o.deleted)
    (h_a : a ≠ .destroy) : Phase (steps ++ [a]) o' := by
  cases h with
  | attached h_sem h_queue h_unmapped' h_deleted' h_steps =>
    refine .attached (h_reader ▸ h_sem) (h_reader ▸ h_queue) (h_unmapped.trans h_unmapped')
      (h_deleted.trans h_deleted') ?_
    -- `destroy` is neither among the steps so far nor the one that is taken
    intro h_mem
    rcases List.mem_append.mp h_mem with h_mem | h_mem
    · exact h_steps h_mem
    · exact h_a (List.mem_singleton.mp h_mem).symm
  | released h_sem h_queue h_unmapped' h_deleted' =>
    exact .released (h_reader ▸ h_sem) (h_reader ▸ h_queue) (h_unmapped.trans h_unmapped')
      (h_deleted.trans h_deleted')

/-- A read returns the message, and changes what the pointers point to. -/
theorem consumingMessage_eq_ok {s : List UInt8} (h : o.consumingMessage = .ok (s, o')) :
    ∃ reader, Frontend.readMessage Slot.string o.reader = .ok (s, reader) ∧
      o' = { o with reader := reader } := by
  obtain ⟨⟨s', reader⟩, h_read, h_ok⟩ := bind_eq_ok.mp h
  cases h_ok
  exact ⟨reader, h_read, rfl⟩

/-- Without a semaphore `consumingMessage` returns the empty string and changes nothing. -/
theorem consumingMessage_of_no_sem (h : o.reader.sem = none) :
    o.consumingMessage = .ok ([], o) := by
  rw [consumingMessage, Frontend.consumingMessage, readMessage_of_no_sem h]
  rfl

theorem Phase.consumingMessage {s : List UInt8} (h : Phase steps o)
    (h_call : o.consumingMessage = .ok (s, o')) : Phase (steps ++ [.consumingMessage]) o' := by
  cases h with
  | attached h_sem h_queue h_unmapped h_deleted h_steps =>
    obtain ⟨reader, h_read, rfl⟩ := consumingMessage_eq_ok h_call
    obtain ⟨⟨value, h_sem'⟩, q, h_queue'⟩ := readMessage_pointers h_sem h_queue h_read
    exact .attached h_sem' h_queue' h_unmapped h_deleted (by simpa using h_steps)
  | released h_sem h_queue h_unmapped h_deleted =>
    rw [consumingMessage_of_no_sem h_sem] at h_call
    cases h_call
    exact .released h_sem h_queue h_unmapped h_deleted

/-- Other processes change what the pointers point to, and not the pointers. -/
theorem Phase.others (h : Phase steps o) (q : Queue Slot) (value : ℕ) :
    Phase (steps ++ [.others q value]) (o.others q value) := by
  cases h with
  | attached h_sem h_queue h_unmapped h_deleted h_steps =>
    exact .attached (congrArg (Option.map _) h_sem) (congrArg (Option.map _) h_queue) h_unmapped
      h_deleted (by simpa using h_steps)
  | released h_sem h_queue h_unmapped h_deleted =>
    exact .released (congrArg (Option.map _) h_sem) (congrArg (Option.map _) h_queue) h_unmapped
      h_deleted

theorem Phase.construct (filename : String) (fstat : Bool) (q : Queue Slot) (value : ℕ) :
    Phase [] (construct filename fstat q value) :=
  .attached rfl rfl rfl rfl List.not_mem_nil

/-- **Every step keeps the phases.** -/
theorem Phase.next (h : Phase steps o) (h_next : next o a = some o') : Phase (steps ++ [a]) o' := by
  cases a with
  | setExceptionMessage =>
    cases h_next
    exact h.of_same rfl rfl rfl nofun
  | declareExchange =>
    cases h_next
    exact h.of_same rfl rfl rfl nofun
  | connection =>
    cases h_next
    exact h.of_same rfl rfl rfl nofun
  | login =>
    cases h_next
    exact h.of_same rfl rfl rfl nofun
  | start =>
    -- the thread does not touch the object
    cases h_next
    exact h.of_same rfl rfl rfl nofun
  | consumingMessage =>
    rw [Object.next, step] at h_next
    cases h_call : o.consumingMessage with
    | error e =>
      rw [h_call] at h_next
      cases h_next
    | ok r =>
      obtain ⟨s, o''⟩ := r
      rw [h_call] at h_next
      cases h_next
      exact h.consumingMessage h_call
  | destroy =>
    cases h_next
    exact h.cleanup _
  | others q value =>
    cases h_next
    exact h.others q value

theorem phase_of_run {filename : String} {fstat : Bool} {q : Queue Slot} {value : ℕ}
    (h_run : Runs.exec next (construct filename fstat q value) steps = some o) : Phase steps o :=
  Runs.exec_history (.construct filename fstat q value)
    (fun _ _ _ _ h h_next _ => h.next h_next) h_run

/-- In both phases no call goes through a null pointer. -/
theorem Phase.step_ne_nullPointer (h : Phase steps o) (a : Step) :
    o.step a ≠ .error (.fault .nullPointer) := by
  intro h_step
  cases a with
  | consumingMessage =>
    -- the two phases are the two cases in which a read is safe
    have h_read : Frontend.readMessage Slot.string o.reader ≠ .error (.fault .nullPointer) := by
      refine readMessage_ne_nullPointer ?_
      cases h with
      | attached _ h_queue => exact Or.inr (by rw [h_queue]; exact Option.some_ne_none _)
      | released h_sem => exact Or.inl h_sem
    rw [step, Object.consumingMessage, Frontend.consumingMessage] at h_step
    cases h_result : Frontend.readMessage Slot.string o.reader with
    | error e =>
      rw [h_result] at h_step
      cases h_step
      exact h_read h_result
    | ok r =>
      rw [h_result] at h_step
      cases h_step
  | _ => cases h_step

/-- **The life of an object.** After any calls of its public methods, in any order and with any
steps of other processes in between, an object has both pointers or none, no call goes through a
null pointer, the destructor leaves the memory unmapped once and the semaphore deleted once, and
from the first `destroy` on there is nothing to consume. -/
theorem life_cycle {filename : String} {fstat : Bool} {q : Queue Slot} {value : ℕ}
    (h_run : Runs.exec next (construct filename fstat q value) steps = some o) :
    (o.reader.sem = none ↔ o.reader.ptrQueue = none) ∧
      (∀ a, o.step a ≠ .error (.fault .nullPointer)) ∧
      o.destruct.unmapped = 1 ∧ o.destruct.deleted = 1 ∧
      (.destroy ∈ steps → o.consumingMessage = .ok ([], o)) := by
  have h_phase := phase_of_run h_run
  -- the destructor releases what is left
  have h_destruct : o.destruct.unmapped = 1 ∧ o.destruct.deleted = 1 := by
    cases h_phase with
    | attached h_sem h_queue h_unmapped h_deleted =>
      obtain ⟨-, -, h_unmapped', h_deleted'⟩ := cleanup_attached h_sem h_queue
      exact ⟨by rw [destruct, h_unmapped', h_unmapped], by rw [destruct, h_deleted', h_deleted]⟩
    | released h_sem h_queue h_unmapped h_deleted =>
      rw [destruct, cleanup_released h_sem h_queue]
      exact ⟨h_unmapped, h_deleted⟩
  refine ⟨?_, h_phase.step_ne_nullPointer, h_destruct.1, h_destruct.2, fun h_destroy => ?_⟩
  · cases h_phase with
    | attached h_sem h_queue =>
      rw [h_sem, h_queue]
      exact iff_of_false (Option.some_ne_none _) (Option.some_ne_none _)
    | released h_sem h_queue => exact iff_of_true h_sem h_queue
  -- after a `destroy` only the second phase is left
  · cases h_phase with
    | attached _ _ _ _ h_steps => exact absurd h_destroy h_steps
    | released h_sem => exact consumingMessage_of_no_sem h_sem

/-- One message is consumed, and `destroy` is called twice before the next read. -/
theorem life_cycle_destroyed_twice :
    ∃ o, Runs.exec next (construct "queue" true ⟨fun _ => .block [65, 0], 10, 11, 1⟩ 1)
        [.start, .consumingMessage, .destroy, .destroy, .consumingMessage] = some o ∧
      o.destruct.unmapped = 1 ∧ o.destruct.deleted = 1 ∧ o.consumingMessage = .ok ([], o) := by
  obtain ⟨o, h_run⟩ : ∃ o, Runs.exec next
      (construct "queue" true ⟨fun _ => .block [65, 0], 10, 11, 1⟩ 1)
      [.start, .consumingMessage, .destroy, .destroy, .consumingMessage] = some o := ⟨_, rfl⟩
  obtain ⟨-, -, h_unmapped, h_deleted, h_read⟩ := life_cycle h_run
  exact ⟨o, h_run, h_unmapped, h_deleted, h_read (by simp)⟩

/-! ### The object and what is behind the names -/

/-- The two pointers of the object `o` are the members `m`, with what `s` has for them. -/
structure PointsTo (o : Object) (m : Members) (s : Store Slot) : Prop where
  sem : o.reader.sem = m.sem.bind fun sem => s.sem.objects[sem]?
  ptrQueue : o.reader.ptrQueue = m.ptrQueue.bind fun fd => (s.shm.objects[fd]?).bind id
  freed : o.reader.freed = s.freed

/-- An `_init` that returns finds a queue behind the name, or makes one. -/
theorem exists_init_object {calls : InitCalls} (h : calls.Succeed) (s : Store Slot) :
    ∃ q, (init calls s).2.shm.objects[(s.shm.openCreate none).1]? =
      some (some (if calls.fstat then initializeIfUnused q else q)) := by
  obtain ⟨shmOpen, ftruncate, mmap, fstat, semOpen⟩ := calls
  obtain ⟨h_shmOpen, h_ftruncate, h_mmap, h_semOpen⟩ := h
  obtain rfl : shmOpen = true := h_shmOpen
  obtain rfl : ftruncate = true := h_ftruncate
  obtain rfl : mmap = true := h_mmap
  obtain rfl : semOpen = true := h_semOpen
  obtain ⟨contents, h_contents⟩ := s.shm.exists_openCreate_object none
  -- after `ftruncate` the object has contents
  have h_size := (s.shm.openCreate none).2.modify_object (s.shm.openCreate none).1
    fun contents => some (contents.getD zeroQueue)
  rw [h_contents] at h_size
  refine ⟨contents.getD zeroQueue, ?_⟩
  cases fstat with
  | false => exact h_size
  | true => exact (Named.modify_object _ _ _).trans (congrArg (Option.map _) h_size)

theorem init_freed (calls : InitCalls) (s : Store Slot) : (init calls s).2.freed = s.freed := by
  obtain ⟨shmOpen, ftruncate, mmap, fstat, semOpen⟩ := calls
  cases shmOpen <;> cases ftruncate <;> cases mmap <;> cases semOpen <;> rfl

theorem exists_init_sem {calls : InitCalls} (h : calls.Succeed) (s : Store Slot) :
    ∃ value, (init calls s).2.sem.objects[(s.sem.openCreate 0).1]? = some value := by
  rcases init_sem calls s with ⟨h_not, -⟩ | h_open
  · exact absurd h h_not
  · rw [h_open]
    exact s.sem.exists_openCreate_object 0

/-- **The constructor is `_init`**: an `_init` that returns gives an object whose pointers point to
what the two names are bound to. -/
theorem PointsTo.exists_construct {calls : InitCalls} {s s' : Store Slot} {m : Members}
    (h_calls : calls.Succeed) (h_freed : s.freed = []) (h_init : init calls s = (some m, s'))
    (filename : String) :
    ∃ q value, PointsTo (Object.construct filename calls.fstat q value) m s' := by
  -- the two numbers are those that the names are bound to, and there is something behind both
  have h_members := init_of_succeed h_calls s
  obtain ⟨q, h_q⟩ := exists_init_object h_calls s
  obtain ⟨value, h_value⟩ := exists_init_sem h_calls s
  have h_free := (init_freed calls s).trans h_freed
  rw [h_init] at h_members h_q h_value h_free
  obtain rfl := Option.some.inj h_members
  exact ⟨q, value, h_value.symm, (congrArg (Option.bind · id) h_q).symm, h_free.symm⟩

/-- Which pointers `_cleanup` has freed, by the queue that it finds. -/
theorem cleanup_freed (m : Members) (s : Store Slot) :
    (Frontend.cleanup m s).2.freed =
      (m.ptrQueue.bind fun fd => (s.shm.objects[fd]?).bind id).elim s.freed fun q =>
        (freeItems q s.freed maxSize.toNat).2 := by
  unfold Frontend.cleanup
  -- the number of rounds is not to be evaluated
  obtain ⟨n, h_n⟩ : ∃ n, maxSize.toNat = n := ⟨_, rfl⟩
  rw [h_n]
  dsimp only
  split
  next h_none => rw [h_none, Option.bind_none, Option.elim_none]
  next fd h_fd =>
    rw [h_fd, Option.bind_some]
    split
    next q h_object => rw [h_object, Option.bind_some, id, Option.elim_some]
    next h_object =>
      -- an object without contents has nothing to free
      cases h : s.shm.objects[fd]? with
      | none => rfl
      | some contents =>
        cases contents with
        | none => rfl
        | some q => exact absurd h (h_object q)

theorem releaseSem_reader (o : Object) :
    o.releaseSem.reader = { o.reader with sem := none } := by
  unfold releaseSem
  split
  next h_none => rw [← h_none]
  next => rfl

theorem releaseQueue_reader (o : Object) :
    o.releaseQueue.reader =
      { sem := o.reader.sem
        ptrQueue := none
        freed := o.reader.ptrQueue.elim o.reader.freed fun q =>
          (freeItems q o.reader.freed maxSize.toNat).2 } := by
  unfold releaseQueue
  dsimp only
  split
  next h_none => rw [h_none, Option.elim_none, ← h_none]
  next q h_some => rw [h_some, Option.elim_some]

/-- **`destroy` and the destructor are `_cleanup`.** -/
theorem PointsTo.cleanup {o : Object} {m : Members} {s : Store Slot} (h : PointsTo o m s) :
    PointsTo o.cleanup (Frontend.cleanup m s).1 (Frontend.cleanup m s).2 := by
  have h_reader : o.cleanup.reader = _ :=
    (releaseSem_reader _).trans (congrArg (fun r : WateRMQ Slot => { r with sem := none })
      (releaseQueue_reader { o with running := false }))
  refine ⟨by rw [h_reader]; rfl, by rw [h_reader]; rfl, ?_⟩
  rw [h_reader, cleanup_freed, ← h.ptrQueue, ← h.freed]

end Object
end Frontend
end WateRMQ
