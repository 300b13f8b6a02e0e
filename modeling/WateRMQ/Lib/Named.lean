import Mathlib.Data.List.Basic
import Mathlib.Order.Basic
import Mathlib.Tactic.Cases

/-!
# Objects behind a name

The name space of POSIX shared memory and of POSIX semaphores, for one name. The name is bound to
an object or to none; unlinking it takes the binding away and leaves the object, which those who
have opened it go on to use.

* `Named.openCreate` — opening with `O_CREAT`: the object that the name is bound to, or a new one;
* `Named.unlink` — the name is free again;
* `Named.modify` — a write to an object.

Objects are numbered in the order of their creation, so a number is never given out twice:
`openCreate_fst_ne` says that an object whose name was unlinked is not found again.
-/

namespace Posix

/-- The objects created under a name so far, and the one that the name is bound to. -/
structure Named (α : Type) where
  objects : List α
  bound : Option ℕ
  bound_lt : ∀ o, bound = some o → o < objects.length

namespace Named

variable {α : Type}

/-- Opening with `O_CREAT`: the number of the object, and `init` for the one that is created. -/
def openCreate (n : Named α) (init : α) : ℕ × Named α :=
  match n.bound with
  | some o => (o, n)
  | none =>
    (n.objects.length,
      { objects := n.objects ++ [init]
        bound := some n.objects.length
        bound_lt := fun o h => by
          obtain rfl := Option.some.inj h
          simp })

/-- Taking the name away. -/
def unlink (n : Named α) : Named α where
  objects := n.objects
  bound := none
  bound_lt _ h := nomatch h

/-- A write to the object number `o`. -/
def modify (n : Named α) (o : ℕ) (f : α → α) : Named α where
  objects := n.objects.modify o f
  bound := n.bound
  bound_lt o' h := by
    rw [List.length_modify]
    exact n.bound_lt o' h

@[simp] theorem unlink_bound (n : Named α) : n.unlink.bound = none := rfl

@[simp] theorem unlink_objects (n : Named α) : n.unlink.objects = n.objects := rfl

@[simp] theorem modify_bound (n : Named α) (o : ℕ) (f : α → α) : (n.modify o f).bound = n.bound :=
  rfl

@[simp] theorem modify_length (n : Named α) (o : ℕ) (f : α → α) :
    (n.modify o f).objects.length = n.objects.length :=
  List.length_modify f n.objects o

/-- The object that is modified. -/
theorem modify_object (n : Named α) (o : ℕ) (f : α → α) :
    (n.modify o f).objects[o]? = (n.objects[o]?).map f :=
  List.getElem?_modify_eq f o n.objects

/-- The other objects stay. -/
theorem modify_object_of_ne (n : Named α) {o o' : ℕ} (h : o ≠ o') (f : α → α) :
    (n.modify o f).objects[o']? = n.objects[o']? :=
  List.getElem?_modify_ne f n.objects h

/-- An object that is there is opened, with what is in it. -/
theorem openCreate_of_bound {n : Named α} {o : ℕ} (h : n.bound = some o) (init : α) :
    n.openCreate init = (o, n) := by
  rw [openCreate, h]

/-- A new object gets the next number. -/
theorem openCreate_fst_of_unbound {n : Named α} (h : n.bound = none) (init : α) :
    (n.openCreate init).1 = n.objects.length := by
  rw [openCreate, h]

/-- The name is bound to what was opened. -/
@[simp] theorem openCreate_bound (n : Named α) (init : α) :
    (n.openCreate init).2.bound = some (n.openCreate init).1 := by
  cases h : n.bound with
  | some o => rw [openCreate_of_bound h, h]
  | none => rw [openCreate, h]

/-- What was opened is there. -/
theorem exists_openCreate_object (n : Named α) (init : α) :
    ∃ a, (n.openCreate init).2.objects[(n.openCreate init).1]? = some a :=
  ⟨_, List.getElem?_eq_getElem
    ((n.openCreate init).2.bound_lt _ (n.openCreate_bound init))⟩

/-- The objects there were are still there. -/
theorem openCreate_object (n : Named α) (init : α) {o : ℕ} (ho : o < n.objects.length) :
    (n.openCreate init).2.objects[o]? = n.objects[o]? := by
  cases h : n.bound with
  | some o => rw [openCreate_of_bound h]
  | none =>
    rw [openCreate, h]
    exact List.getElem?_append_left ho

/-- No object disappears. -/
theorem le_openCreate_length (n : Named α) (init : α) :
    n.objects.length ≤ (n.openCreate init).2.objects.length := by
  cases h : n.bound with
  | some o => simp [openCreate_of_bound h]
  | none => simp [openCreate, h]

/-- **An object that the name has been taken from is not opened again.** -/
theorem openCreate_fst_ne {n : Named α} {o : ℕ} (ho : o < n.objects.length)
    (h : n.bound ≠ some o) (init : α) : (n.openCreate init).1 ≠ o := by
  cases h_bound : n.bound with
  | some o' =>
    rw [openCreate_of_bound h_bound]
    exact fun h_eq => h (h_bound.trans (congrArg some h_eq))
  | none =>
    rw [openCreate_fst_of_unbound h_bound]
    exact (Nat.ne_of_lt ho).symm

end Named

end Posix
