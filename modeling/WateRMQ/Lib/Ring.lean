import Mathlib.Data.Nat.ModEq
import Mathlib.Logic.Function.Basic
import Mathlib.Tactic.Cases

/-!
# A window of a stream in a ring

A stream `f : ℕ → α` is written to a ring of `size` slots, item `k` to the slot `k % size`.
`Window size buffer f r w` says that the ring holds the items from `r` up to `w`: those that were
written and not yet read. A write keeps the window when there is room (`Window.store`), because the
items in it lie in different slots (`mod_ne_of_lt`); a read finds its item (`Window.load`).
-/

namespace Ring

variable {α : Type} {size r w : ℕ} {buffer : ℕ → α} {f : ℕ → α}

/-- The items from `r` up to `w` are in their slots. -/
def Window (size : ℕ) (buffer f : ℕ → α) (r w : ℕ) : Prop :=
  ∀ k, r ≤ k → k < w → buffer (k % size) = f k

/-- Positions less than a ring apart lie in different slots. -/
theorem mod_ne_of_lt {k : ℕ} (h : k < w) (h_size : w < k + size) : k % size ≠ w % size := by
  intro h_eq
  have h_dvd : size ∣ w - k := (Nat.modEq_iff_dvd' h.le).mp h_eq
  have h_le := Nat.le_of_dvd (Nat.sub_pos_of_lt h) h_dvd
  omega

theorem Window.empty (r : ℕ) : Window size buffer f r r :=
  fun _ h h' => absurd h' (Nat.not_lt.mpr h)

/-- A write, when there is room. -/
theorem Window.store (h : Window size buffer f r w) (h_room : w < r + size) :
    Window size (Function.update buffer (w % size) (f w)) f r (w + 1) := by
  intro k h_r h_w
  rcases Nat.lt_succ_iff_lt_or_eq.mp h_w with h_old | rfl
  · rw [Function.update_of_ne (mod_ne_of_lt h_old (by omega))]
    exact h k h_r h_old
  · exact Function.update_self _ _ _

/-- A read finds the oldest item. -/
theorem Window.load (h : Window size buffer f r w) (h_lt : r < w) : buffer (r % size) = f r :=
  h r le_rfl h_lt

theorem Window.drop (h : Window size buffer f r w) : Window size buffer f (r + 1) w :=
  fun k h_r h_w => h k (Nat.le_of_succ_le h_r) h_w

end Ring
