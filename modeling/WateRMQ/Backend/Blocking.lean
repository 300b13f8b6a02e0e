import WateRMQ.Backend.Consuming
import WateRMQ.Backend.Lock

/-!
# The consume loop under its lock

`rabbitmqConsuming_private` with the semaphore of `sendMessage` as it is: a `sem_wait` goes through
only when there is a unit and the handle is open. `Blocking` puts the `Lock` and the `Consumer`
together. The steps are those of the lock; the two `enqueue` of a call take place when the call
comes to its `msync`.

* `Blocking.run_round` — where the wait goes through, the steps of a call are a round of
  `rabbitmqConsuming_private`, so the `Kernel`s whose `semWait` always comes back are about the
  calls that get their unit;
* `Blocking.once` — from one unit and an open handle, and with any steps of the other users between
  them, only the first answer of the library ever gets to `sendMessage`'s queues;
* `Blocking.first_reached` — and it does get there when the other users let it.
-/

namespace WateRMQ
namespace Backend

open CMem Runs

/-- The loop under its lock: the lock, the process, the event of the round whose call of
`sendMessage` is running, and the events that the library still has. -/
structure Blocking (U σ φ : Type) where
  lock : Lock U
  consumer : Consumer σ φ
  current : Option Event
  answers : List Event

namespace Blocking

variable {U σ φ ι : Type} [DecidableEq U] [QueueAccess σ ι] [CPointer ι] [DecidableEq ι]
  [Kernel φ σ]

/-- One step. A process that has ended takes none; the other users go on. -/
def next (mallocs : ℕ → Malloc ι × Malloc ι) (u : Blocking U σ φ) (a : LockStep U) :
    Option (Blocking U σ φ) :=
  match u.lock.next a with
  | none => none
  | some lock =>
    match a, u.consumer.process with
    | .userWait _, _ => some { u with lock := lock }
    | .userPost _, _ => some { u with lock := lock }
    | _, .error _ => none
    | .send, .ok _ =>
      match u.answers with
      | [] => none
      | e :: answers =>
        some { lock := lock, consumer := u.consumer, current := some e, answers := answers }
    | .exec .msync, .ok _ =>
      u.current.map fun e =>
        { u with lock := lock, consumer := u.consumer.send mallocs e.result.body }
    | .exec _, .ok _ => some { u with lock := lock }
    | .ret, .ok _ =>
      u.current.map fun e =>
        { u with
          lock := lock
          consumer :=
            { u.consumer with effects := u.consumer.effects ++ retRequestHandlingPrivate e }
          current := none }

/-- The loop before its first round, on a semaphore with one unit. -/
def start (p : Process σ φ) (events : List Event) : Blocking U σ φ where
  lock := .start
  consumer := .start p
  current := none
  answers := events

variable {mallocs : ℕ → Malloc ι × Malloc ι} {u v : Blocking U σ φ}

/-- **Everything a step can do.** It is a step of the lock; the other users change nothing else,
and a step of the process needs a living one. -/
theorem next_cases {a : LockStep U} (h : u.next mallocs a = some v) :
    u.lock.next a = some v.lock ∧
      ((∃ b, (a = .userWait b ∨ a = .userPost b) ∧ v = { u with lock := v.lock }) ∨
        ∃ p, u.consumer.process = .ok p ∧
          ((∃ e, a = .send ∧ u.answers = e :: v.answers ∧ v.consumer = u.consumer ∧
              v.current = some e) ∨
            (∃ e, a = .exec .msync ∧ u.current = some e ∧
              v = { u with
                lock := v.lock, consumer := u.consumer.send mallocs e.result.body }) ∨
            (∃ c, a = .exec c ∧ c ≠ .msync ∧ v = { u with lock := v.lock }) ∨
            ∃ e, a = .ret ∧ u.current = some e ∧ v.answers = u.answers ∧ v.current = none ∧
              v.consumer =
                { u.consumer with
                  effects := u.consumer.effects ++ retRequestHandlingPrivate e })) := by
  unfold next at h
  cases h_lock : u.lock.next a with
  | none => rw [h_lock] at h; cases h
  | some lock =>
    rw [h_lock] at h
    dsimp only at h
    split at h
    · cases h
      exact ⟨rfl, Or.inl ⟨_, Or.inl rfl, rfl⟩⟩
    · cases h
      exact ⟨rfl, Or.inl ⟨_, Or.inr rfl, rfl⟩⟩
    · cases h
    next p h_alive =>
      -- the library answers, if it has something left
      split at h
      · cases h
      next e answers h_answers =>
        cases h
        exact ⟨rfl, Or.inr ⟨p, h_alive, Or.inl ⟨e, rfl, h_answers, rfl, rfl⟩⟩⟩
    next p h_alive =>
      obtain ⟨e, h_e, rfl⟩ := Option.map_eq_some_iff.mp h
      exact ⟨rfl, Or.inr ⟨p, h_alive, Or.inr (Or.inl ⟨e, rfl, h_e, rfl⟩)⟩⟩
    next c p h_c h_alive =>
      cases h
      exact ⟨rfl, Or.inr ⟨p, h_alive, Or.inr (Or.inr (Or.inl ⟨c, rfl, h_c, rfl⟩))⟩⟩
    next p h_alive =>
      obtain ⟨e, h_e, rfl⟩ := Option.map_eq_some_iff.mp h
      exact ⟨rfl, Or.inr ⟨p, h_alive, Or.inr (Or.inr (Or.inr ⟨e, rfl, h_e, rfl, rfl, rfl⟩))⟩⟩

/-- **A call that gets its unit is a round of the loop.** Where the wait goes through and the
process survives, the steps of a call do what `rabbitmqConsuming_private` does in a round, and
leave the handle closed. -/
theorem run_round {d : Consumer σ φ} {e : Event} {answers : List Event} {value : ℕ}
    (h_idle : u.lock.rest = none) (h_open : u.lock.handleOpen = true)
    (h_value : u.lock.value = value + 1) (h_answers : u.answers = e :: answers)
    {p : Process σ φ} (h_alive : u.consumer.process = .ok p)
    (h_round : consumingRound mallocs u.consumer e = (d, .goOn)) :
    ∃ v, exec (next mallocs) u
        [.send, .exec .semWait, .exec .msync, .exec .semClose, .ret] = some v ∧
      v.consumer = d ∧ v.answers = answers ∧ v.lock.rest = none ∧ v.lock.handleOpen = false := by
  obtain ⟨lock, consumer, current, events⟩ := u
  obtain ⟨units, isOpen, rest, taken, given, inside⟩ := lock
  dsimp only at h_idle h_open h_value h_answers h_alive h_round
  subst h_idle h_open h_value h_answers
  -- the process is alive before the `msync` and after it
  obtain ⟨q, h_sent, rfl⟩ : ∃ q, (consumer.send mallocs e.result.body).process = .ok q ∧
      d = { consumer.send mallocs e.result.body with
        effects :=
          (consumer.send mallocs e.result.body).effects ++ retRequestHandlingPrivate e } := by
    unfold consumingRound at h_round
    dsimp only at h_round
    split at h_round
    · cases h_round
    next q h_sent =>
      cases h_round
      exact ⟨q, h_sent, rfl⟩
  have h_first : exec (next mallocs)
      (⟨⟨value + 1, true, none, taken, given, inside⟩, consumer, current, e :: answers⟩ :
        Blocking U σ φ) [.send, .exec .semWait, .exec .msync] =
        some ⟨⟨value, true, some [.semClose], 1, 0, inside⟩, consumer.send mallocs e.result.body,
          some e, answers⟩ := by
    simp only [exec, next, Lock.next, Lock.exec, sendMessageCalls, h_alive, Option.bind_some,
      Option.map_some, if_pos]
  refine ⟨⟨⟨value, false, none, 1, 0, inside⟩, _, none, answers⟩, ?_, rfl, rfl, rfl, rfl⟩
  rw [show [LockStep.send, .exec .semWait, .exec .msync, .exec .semClose, .ret] =
    [.send, .exec .semWait, .exec .msync] ++ [.exec .semClose, (.ret : LockStep U)] from rfl,
    exec_append, h_first]
  simp only [exec, next, Lock.next, Lock.exec, h_sent, Option.bind_some, Option.map_some, if_pos]

/-! ### At most one message -/

/-- How far the loop is: before its first call, in that call before its `msync`, and past it, where
the lock is about to die or dead. -/
inductive Progress (mallocs : ℕ → Malloc ι × Malloc ι) (p : Process σ φ) (events : List Event)
    (u : Blocking U σ φ) : Prop
  | idle (h_lock : u.lock.Locked) (h_rest : u.lock.rest = none) (h_answers : u.answers = events)
      (h_consumer : u.consumer = .start p)
  | calling (e : Event) (h_lock : u.lock.Locked)
      (h_rest : u.lock.rest = some sendMessageCalls ∨ u.lock.rest = some [.msync, .semClose])
      (h_current : u.current = some e) (h_answers : events = e :: u.answers)
      (h_consumer : u.consumer = .start p)
  | sent (e : Event) (answers : List Event) (effects : List Effect)
      (h_lock : u.lock.Locked ∧ u.lock.rest = some [.semClose] ∨ u.lock.Dead)
      (h_answers : events = e :: answers)
      (h_consumer : u.consumer =
        { (Consumer.start p).send mallocs e.result.body with effects := effects })

variable {p : Process σ φ} {events : List Event}

/-- The other users leave the running call where it is. -/
theorem rest_of_user {lock lock' : Lock U} {a : LockStep U} {b : U}
    (h_a : a = .userWait b ∨ a = .userPost b) (h : lock.next a = some lock') :
    lock'.rest = lock.rest := by
  rcases h_a with rfl | rfl
  · obtain ⟨value, -, -, rfl⟩ := Lock.next_userWait h
    rfl
  · obtain ⟨-, rfl⟩ := Lock.next_userPost h
    rfl

omit [DecidableEq U] in
theorem ne_close_of_user {a : LockStep U} {b : U} (h_a : a = .userWait b ∨ a = .userPost b) :
    a ≠ .exec .semClose := by
  rcases h_a with rfl | rfl
  · exact nofun
  · exact nofun

/-- Before the first call only a new call can begin. -/
theorem Progress.of_idle {a : LockStep U} (h_lock : u.lock.Locked) (h_rest : u.lock.rest = none)
    (h_answers : u.answers = events) (h_consumer : u.consumer = .start p)
    (h : u.next mallocs a = some v) : Progress mallocs p events v := by
  obtain ⟨h_next, ⟨b, h_a, h_v⟩ | ⟨q, -, h_step⟩⟩ := next_cases h
  · rw [h_v]
    exact .idle (h_lock.next h_next (ne_close_of_user h_a))
      ((rest_of_user h_a h_next).trans h_rest) h_answers h_consumer
  · rcases h_step with ⟨e, rfl, h_e, h_same, h_current⟩ | ⟨e, rfl, -⟩ | ⟨c, rfl, -⟩ | ⟨e, rfl, -⟩
    · obtain ⟨-, h_v⟩ := Lock.next_send h_next
      exact .calling e (h_lock.next h_next nofun) (Or.inl (by rw [h_v])) h_current
        (h_answers.symm.trans h_e) (h_same.trans h_consumer)
    · obtain ⟨rest, h_some, -⟩ := Lock.next_exec h_next
      cases h_rest.symm.trans h_some
    · obtain ⟨rest, h_some, -⟩ := Lock.next_exec h_next
      cases h_rest.symm.trans h_some
    · cases h_rest.symm.trans (Lock.next_ret h_next).1

/-- In the first call the work on the queue comes with the `msync`. -/
theorem Progress.of_calling {a : LockStep U} {e : Event} (h_lock : u.lock.Locked)
    (h_rest : u.lock.rest = some sendMessageCalls ∨ u.lock.rest = some [.msync, .semClose])
    (h_current : u.current = some e) (h_answers : events = e :: u.answers)
    (h_consumer : u.consumer = .start p) (h : u.next mallocs a = some v) :
    Progress mallocs p events v := by
  obtain ⟨h_next, ⟨b, h_a, h_v⟩ | ⟨q, -, h_step⟩⟩ := next_cases h
  · rw [h_v]
    exact .calling e (h_lock.next h_next (ne_close_of_user h_a))
      (by rwa [rest_of_user h_a h_next]) h_current h_answers h_consumer
  · rcases h_step with ⟨_, rfl, -⟩ | ⟨e', rfl, h_e', h_v⟩ | ⟨c, rfl, h_c, h_v⟩ | ⟨_, rfl, -⟩
    · obtain ⟨h_none, -⟩ := Lock.next_send h_next
      rcases h_rest with h_rest | h_rest <;> cases h_rest.symm.trans h_none
    · -- the message is passed on
      obtain rfl : e = e' := Option.some.inj (h_current.symm.trans h_e')
      obtain ⟨rest, h_some, h_exec⟩ := Lock.next_exec h_next
      have h_closing : v.lock.rest = some [.semClose] := by
        rcases h_rest with h_rest | h_rest
        · cases h_rest.symm.trans h_some
        · cases h_rest.symm.trans h_some
          rw [← Option.some.inj h_exec]
      refine .sent e u.answers ((Consumer.start p).send mallocs e.result.body).effects
        (Or.inl ⟨h_lock.next h_next nofun, h_closing⟩) h_answers ?_
      rw [h_v, h_consumer]
    · -- the wait, which gets its unit
      obtain ⟨rest, h_some, h_exec⟩ := Lock.next_exec h_next
      rcases h_rest with h_rest | h_rest
      · cases h_rest.symm.trans h_some
        obtain ⟨value, -, -, h_lock_v⟩ := Lock.exec_semWait h_exec
        rw [h_v]
        exact .calling e (h_lock.next h_next nofun) (Or.inr (by rw [h_lock_v])) h_current h_answers
          h_consumer
      · cases h_rest.symm.trans h_some
        exact absurd rfl h_c
    · obtain ⟨h_nil, -⟩ := Lock.next_ret h_next
      rcases h_rest with h_rest | h_rest <;> cases h_rest.symm.trans h_nil

/-- Past it nothing more is passed on: the call closes the handle, and no other gets its unit. -/
theorem Progress.of_sent {a : LockStep U} {e : Event} {answers : List Event}
    {effects : List Effect}
    (h_lock : u.lock.Locked ∧ u.lock.rest = some [.semClose] ∨ u.lock.Dead)
    (h_answers : events = e :: answers)
    (h_consumer : u.consumer =
      { (Consumer.start p).send mallocs e.result.body with effects := effects })
    (h : u.next mallocs a = some v) : Progress mallocs p events v := by
  obtain ⟨h_next, h_step⟩ := next_cases h
  have h_lock' : v.lock.Locked ∧ v.lock.rest = some [.semClose] ∨ v.lock.Dead := by
    rcases h_lock with ⟨h_locked, h_rest⟩ | h_dead
    · by_cases h_close : a = .exec .semClose
      · subst h_close
        exact Or.inr (h_locked.dead h_next)
      · refine Or.inl ⟨h_locked.next h_next h_close, ?_⟩
        obtain ⟨b, h_a, -⟩ | ⟨q, -, h_step⟩ := h_step
        · exact (rest_of_user h_a h_next).trans h_rest
        · rcases h_step with ⟨_, rfl, -⟩ | ⟨_, rfl, -⟩ | ⟨c, rfl, -⟩ | ⟨_, rfl, -⟩
          · cases h_rest.symm.trans (Lock.next_send h_next).1
          · obtain ⟨rest, h_some, -⟩ := Lock.next_exec h_next
            cases h_rest.symm.trans h_some
          · obtain ⟨rest, h_some, -⟩ := Lock.next_exec h_next
            cases h_rest.symm.trans h_some
            exact absurd rfl h_close
          · cases h_rest.symm.trans (Lock.next_ret h_next).1
    · exact Or.inr (h_dead.next h_next)
  obtain ⟨b, h_a, h_v⟩ | ⟨q, -, h_step⟩ := h_step
  · exact .sent e answers effects h_lock' h_answers (by rw [h_v]; exact h_consumer)
  · rcases h_step with ⟨_, -, -, h_same, -⟩ | ⟨_, rfl, -⟩ | ⟨c, -, -, h_v⟩ | ⟨e', -, -, -, -, h_v⟩
    · exact .sent e answers effects h_lock' h_answers (h_same.trans h_consumer)
    · -- no call comes to its `msync`
      obtain ⟨rest, h_some, -⟩ := Lock.next_exec h_next
      rcases h_lock with ⟨-, h_rest⟩ | h_dead
      · cases h_rest.symm.trans h_some
      · rcases h_dead.rest with h_rest | h_rest | h_rest <;> cases h_rest.symm.trans h_some
    · exact .sent e answers effects h_lock' h_answers (by rw [h_v]; exact h_consumer)
    · exact .sent e answers (effects ++ retRequestHandlingPrivate e') h_lock' h_answers
        (by rw [h_v, h_consumer])

/-- **At most one message.** In every state of every run from one unit and an open handle, with any
waits and posts of the other users, the process is as it was before its first call of `sendMessage`
or as the call for the first answer of the library has left it. -/
theorem once {steps : List (LockStep U)}
    (h_run : exec (next mallocs) (start p events) steps = some u) :
    u.consumer = .start p ∨ ∃ e answers effects, events = e :: answers ∧
      u.consumer = { (Consumer.start p).send mallocs e.result.body with effects := effects } := by
  have h_progress : Progress mallocs p events u := by
    refine exec_invariant (I := Progress mallocs p events) ?_
      (.idle Lock.locked_start rfl rfl rfl) h_run
    intro s a t h_s h_next
    cases h_s with
    | idle h_lock h_rest h_answers h_consumer =>
      exact .of_idle h_lock h_rest h_answers h_consumer h_next
    | calling e h_lock h_rest h_current h_answers h_consumer =>
      exact .of_calling h_lock h_rest h_current h_answers h_consumer h_next
    | sent e answers effects h_lock h_answers h_consumer =>
      exact .of_sent h_lock h_answers h_consumer h_next
  cases h_progress with
  | idle h_lock h_rest h_answers h_consumer => exact Or.inl h_consumer
  | calling e h_lock h_rest h_current h_answers h_consumer => exact Or.inl h_consumer
  | sent e answers effects h_lock h_answers h_consumer =>
    exact Or.inr ⟨e, answers, effects, h_answers, h_consumer⟩

/-- The call for the first answer gets through when nobody else holds the unit. -/
theorem first_reached (mallocs : ℕ → Malloc ι × Malloc ι) (p : Process σ φ) (e : Event)
    (answers : List Event) :
    ∃ u : Blocking U σ φ, exec (next mallocs) (start p (e :: answers))
        [.send, .exec .semWait, .exec .msync] = some u ∧
      u.consumer = (Consumer.start p).send mallocs e.result.body :=
  ⟨_, rfl, rfl⟩

end Blocking

end Backend
end WateRMQ
