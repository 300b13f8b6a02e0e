import Mathlib.Data.Set.Basic

/-!
# Programs with a state

A program starts in a state and gives a value, or it is stopped. The state that it has reached by
then is there in both cases, so what a program has done before it was stopped can be said.

`Ends` is the weakest precondition: the program gives a value that satisfies one postcondition, or
it is stopped with what satisfies another one. The rules are those of `pure`, `stop`, `modify` and
sequencing, and that of consequence.
-/

/-- A program with the state `σ`, which is stopped with an `ε`. -/
def Prog (σ ε α : Type) := σ → Except ε α × σ

namespace Prog

variable {σ ε ε' α β : Type}

/-- What follows a program. -/
def andThen (f : α → Prog σ ε β) : Except ε α × σ → Except ε β × σ
  | (.ok a, t) => f a t
  | (.error e, t) => (.error e, t)

instance : Monad (Prog σ ε) where
  pure a s := (.ok a, s)
  bind x f s := andThen f (x s)

/-- The program is stopped. -/
def stop (e : ε) : Prog σ ε α := fun s => (.error e, s)

/-- The state changes. -/
def modify (f : σ → σ) : Prog σ ε Unit := fun s => (.ok (), f s)

/-- The program is stopped unless the condition holds. -/
def check (c : Bool) (e : ε) : Prog σ ε Unit := if c then pure () else stop e

/-- A result is the value of the program, or stops it. -/
def ofExcept (f : ε' → ε) : Except ε' α → Prog σ ε α
  | .ok a => pure a
  | .error e => stop (f e)

/-- What the program is stopped with is seen differently. -/
def mapStop (f : ε → ε') (x : Prog σ ε α) : Prog σ ε' α := fun s =>
  match x s with
  | (.ok a, t) => (.ok a, t)
  | (.error e, t) => (.error (f e), t)

/-- A part that ends normally hands its value and its state on. -/
theorem bind_of_ok {x : Prog σ ε α} {s t : σ} {a : α} (h : x s = (.ok a, t)) (f : α → Prog σ ε β) :
    (x >>= f) s = f a t := by
  change andThen f (x s) = f a t
  rw [h]
  rfl

/-- A part that stops ends the program. -/
theorem bind_of_error {x : Prog σ ε α} {s t : σ} {e : ε} (h : x s = (.error e, t))
    (f : α → Prog σ ε β) : (x >>= f) s = (.error e, t) := by
  change andThen f (x s) = (.error e, t)
  rw [h]
  rfl

/-- From `s`, the program gives a value for which `Q` holds, or it is stopped and `E` holds. -/
structure Ends (x : Prog σ ε α) (s : σ) (Q : α → σ → Prop) (E : ε → σ → Prop) : Prop where
  ok : ∀ a t, x s = (.ok a, t) → Q a t
  stopped : ∀ e t, x s = (.error e, t) → E e t

variable {x : Prog σ ε α} {s : σ} {Q Q' : α → σ → Prop} {E E' : ε → σ → Prop}

/-- A value changes nothing. -/
theorem ends_pure {a : α} (h : Q a s) : Ends (pure a : Prog σ ε α) s Q E where
  ok b t h_run := by
    cases h_run
    exact h
  stopped e t h_run := by cases h_run

/-- A stop changes nothing. -/
theorem ends_stop {e : ε} (h : E e s) : Ends (stop e : Prog σ ε α) s Q E where
  ok b t h_run := by cases h_run
  stopped e' t h_run := by
    cases h_run
    exact h

/-- A change of the state does not stop. -/
theorem ends_modify {f : σ → σ} {Q : Unit → σ → Prop} (h : Q () (f s)) :
    Ends (modify f : Prog σ ε Unit) s Q E where
  ok b t h_run := by
    cases h_run
    exact h
  stopped e t h_run := by cases h_run

/-- A check goes on when it holds, and stops when it does not. -/
theorem ends_check {c : Bool} {e : ε} {Q : Unit → σ → Prop} (h : c = true → Q () s)
    (h' : c = false → E e s) : Ends (check c e) s Q E := by
  cases c with
  | true => exact ends_pure (h rfl)
  | false => exact ends_stop (h' rfl)

/-- A result that was computed elsewhere. -/
theorem ends_ofExcept {f : ε' → ε} {r : Except ε' α} (h : ∀ a, r = .ok a → Q a s)
    (h' : ∀ e, r = .error e → E (f e) s) : Ends (ofExcept f r) s Q E := by
  cases r with
  | ok a => exact ends_pure (h a rfl)
  | error e => exact ends_stop (h' e rfl)

/-- What holds in the end may be weakened. -/
theorem Ends.mono (h : Ends x s Q E) (h_Q : ∀ a t, Q a t → Q' a t) (h_E : ∀ e t, E e t → E' e t) :
    Ends x s Q' E' where
  ok a t h_run := h_Q a t (h.ok a t h_run)
  stopped e t h_run := h_E e t (h.stopped e t h_run)

/-- Two programs that come to the same end the same way. -/
theorem Ends.of_run_eq {y : Prog σ ε α} {t : σ} (h : Ends y t Q E) (h_run : x s = y t) :
    Ends x s Q E where
  ok a u h_x := h.ok a u (h_run.symm.trans h_x)
  stopped e u h_x := h.stopped e u (h_run.symm.trans h_x)

/-- A run that is known, and ends normally. -/
theorem ends_of_ok {a : α} {t : σ} (h_run : x s = (.ok a, t)) (h : Q a t) : Ends x s Q E :=
  (ends_pure h).of_run_eq h_run

/-- A run that is known, and stops. -/
theorem ends_of_error {e : ε} {t : σ} (h_run : x s = (.error e, t)) (h : E e t) : Ends x s Q E :=
  (ends_stop h).of_run_eq h_run

/-- Two parts: where the first one ends normally, the second one goes on. -/
theorem Ends.bind {f : α → Prog σ ε β} {R : β → σ → Prop} (h : Ends x s Q E)
    (h_f : ∀ a t, Q a t → Ends (f a) t R E) : Ends (x >>= f) s R E := by
  cases h_x : x s with
  | mk r t =>
    cases r with
    | ok a => exact (h_f a t (h.ok a t h_x)).of_run_eq (bind_of_ok h_x f)
    | error e => exact ends_of_error (bind_of_error h_x f) (h.stopped e t h_x)

/-- What stops may be renamed. -/
theorem Ends.mapStop {f : ε → ε'} {E' : ε' → σ → Prop} (h : Ends x s Q fun e t => E' (f e) t) :
    Ends (x.mapStop f) s Q E' := by
  cases h_x : x s with
  | mk r t =>
    cases r with
    | ok a => exact ends_of_ok (by rw [Prog.mapStop, h_x]) (h.ok a t h_x)
    | error e => exact ends_of_error (by rw [Prog.mapStop, h_x]) (h.stopped e t h_x)

end Prog
