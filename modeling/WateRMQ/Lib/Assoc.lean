import Mathlib.Data.List.Nodup
import Mathlib.Order.Basic

/-!
# Association lists

Lists of keys and values in which the first entry with a key counts, as it does for `List.lookup`.
`put` replaces the value of that entry, or puts a new entry behind all others. `override` does so
with all entries of a second list, where `f` says what becomes of a value that is there already;
`lookup_override` is its meaning, when no key is twice in the second list.
-/

namespace Assoc

variable {κ α : Type} [BEq κ]

/-- The first entry with the key gets the value. When there is none, there is a new entry at the
end. -/
def put (key : κ) (v : α) : List (κ × α) → List (κ × α)
  | [] => [(key, v)]
  | e :: es => if e.1 == key then (e.1, v) :: es else e :: put key v es

/-- The value that an entry gets. -/
def combine (f : α → α → α) (old : Option α) (v : α) : α := old.elim v fun w => f w v

/-- All entries of `add`, one after the other. -/
def override (f : α → α → α) (base add : List (κ × α)) : List (κ × α) :=
  add.foldl (fun es e => put e.1 (combine f (es.lookup e.1) e.2) es) base

/-- There is at most one entry more. -/
theorem length_put_le (key : κ) (v : α) (es : List (κ × α)) :
    (put key v es).length ≤ es.length + 1 := by
  induction es with
  | nil => exact Nat.le_refl _
  | cons e es ih =>
    rw [put]
    split
    · exact Nat.le_succ _
    · exact Nat.succ_le_succ ih

/-- The first entry is laid over the list, and then the others. -/
theorem override_cons (f : α → α → α) (base : List (κ × α)) (e : κ × α) (add : List (κ × α)) :
    override f base (e :: add) =
      override f (put e.1 (combine f (base.lookup e.1) e.2) base) add := rfl

/-- There are at most as many entries as in both lists. -/
theorem length_override_le (f : α → α → α) (base add : List (κ × α)) :
    (override f base add).length ≤ base.length + add.length := by
  induction add generalizing base with
  | nil => exact Nat.le_refl _
  | cons e add ih =>
    rw [override_cons]
    refine Nat.le_trans (ih _) ?_
    have h_put := length_put_le e.1 (combine f (base.lookup e.1) e.2) base
    rw [List.length_cons]
    omega

section Lawful

variable [LawfulBEq κ]

theorem lookup_cons_of_eq {key : κ} (v : α) (es : List (κ × α)) :
    ((key, v) :: es).lookup key = some v := List.lookup_cons_self

theorem lookup_cons_of_ne {key key' : κ} (h : key ≠ key') (v : α) (es : List (κ × α)) :
    ((key', v) :: es).lookup key = es.lookup key := by
  rw [List.lookup_cons, beq_eq_false_iff_ne.mpr h]

/-- The value that was put is found. -/
theorem lookup_put_self (key : κ) (v : α) (es : List (κ × α)) :
    (put key v es).lookup key = some v := by
  induction es with
  | nil => exact lookup_cons_of_eq v []
  | cons e es ih =>
    rw [put]
    split
    case isTrue h =>
      rw [eq_of_beq h]
      exact lookup_cons_of_eq v es
    case isFalse h =>
      have h_ne : key ≠ e.1 := fun h_eq => h (beq_iff_eq.mpr h_eq.symm)
      rw [lookup_cons_of_ne h_ne, ih]

/-- What is found under another key stays. -/
theorem lookup_put_of_ne {key key' : κ} (h : key' ≠ key) (v : α) (es : List (κ × α)) :
    (put key v es).lookup key' = es.lookup key' := by
  induction es with
  | nil => exact lookup_cons_of_ne h v []
  | cons e es ih =>
    obtain ⟨k, w⟩ := e
    rw [put]
    split
    case isTrue h_eq =>
      have h_eq : k = key := eq_of_beq h_eq
      rw [h_eq, lookup_cons_of_ne h, lookup_cons_of_ne h]
    case isFalse =>
      rw [List.lookup_cons, List.lookup_cons, ih]

/-- An entry of the second list counts for its key, and where there is none the first list
counts. -/
theorem lookup_override (f : α → α → α) (base : List (κ × α)) {add : List (κ × α)}
    (h : (add.map Prod.fst).Nodup) (key : κ) : (override f base add).lookup key =
      (add.lookup key).elim (base.lookup key) fun v => some (combine f (base.lookup key) v) := by
  induction add generalizing base with
  | nil => rfl
  | cons e add ih =>
    obtain ⟨k, v⟩ := e
    obtain ⟨h_k, h_rest⟩ := List.nodup_cons.mp h
    rw [override_cons, ih _ h_rest]
    by_cases h_key : key = k
    · -- the key is not among those that follow
      have h_none : add.lookup key = none := by
        refine List.lookup_eq_none_iff.mpr fun e h_e => bne_iff_ne.mpr fun h_eq => h_k ?_
        rw [← h_key, h_eq]
        exact List.mem_map.mpr ⟨e, h_e, rfl⟩
      rw [h_none, h_key, lookup_cons_of_eq]
      exact lookup_put_self k _ base
    · rw [lookup_cons_of_ne h_key, lookup_put_of_ne h_key]

end Lawful

end Assoc
