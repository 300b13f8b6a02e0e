import Mathlib.Data.Set.Card

/-!
# The units of a semaphore

A semaphore and the parties that hold one of its units: `Units holders value n` says that there are
`n` units in all, those in the semaphore and one for each holder. `take` and `give` keep the number
of units; `mint` is a party that becomes a holder without having taken one.
-/

namespace Semaphore

variable {P : Type} {holders : Set P} {p : P} {value n : ℕ}

/-- The units in the semaphore and in the hands of the holders are `n`. -/
def Units (holders : Set P) (value n : ℕ) : Prop := (value : ℕ∞) + holders.encard = n

theorem units_empty : Units (∅ : Set P) value n ↔ value = n := by
  rw [Units, Set.encard_empty, add_zero, Nat.cast_inj]

/-- A unit goes from the semaphore to `p`. -/
theorem Units.take (h : Units holders (value + 1) n) (hp : p ∉ holders) :
    Units (insert p holders) value n := by
  rw [Units, Set.encard_insert_of_notMem hp, ← h, Nat.cast_add_one, add_assoc,
    add_comm holders.encard 1]

/-- The unit of `p` goes back to the semaphore. -/
theorem Units.give (h : Units holders value n) (hp : p ∈ holders) :
    Units (holders \ {p}) (value + 1) n := by
  rw [Units, ← h, ← Set.encard_sdiff_singleton_add_one hp, Nat.cast_add_one, add_assoc,
    add_comm 1 (holders \ {p}).encard]

/-- `p` is a holder from now on, and the semaphore has not lost a unit. -/
theorem Units.mint (h : Units holders value n) (hp : p ∉ holders) :
    Units (insert p holders) value (n + 1) := by
  rw [Units, Set.encard_insert_of_notMem hp, ← add_assoc, h, Nat.cast_add_one]

theorem Units.value_le (h : Units holders value n) : value ≤ n := by
  have h_le : (value : ℕ∞) ≤ n := h ▸ le_self_add
  exact_mod_cast h_le

/-- **One unit excludes two holders.** -/
theorem Units.subsingleton (h : Units holders value n) (h_one : n ≤ value + 1) :
    holders.Subsingleton := by
  rw [← Set.encard_le_one_iff_subsingleton]
  have h_sum : (value : ℕ∞) + holders.encard ≤ value + 1 := by
    rw [h]
    exact_mod_cast h_one
  exact (ENat.add_le_add_iff_left (ENat.natCast_ne_top value)).mp h_sum

/-- With a unit outside the semaphore there is a holder. -/
theorem Units.nonempty (h : Units holders value n) (h_lt : value < n) : holders.Nonempty := by
  rw [Set.nonempty_iff_ne_empty]
  rintro rfl
  exact h_lt.ne (units_empty.mp h)

end Semaphore
