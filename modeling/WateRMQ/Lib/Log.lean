import Mathlib.Data.List.Basic
import Mathlib.Data.List.Infix
import Mathlib.Tactic.Cases

/-!
# A bounded log with a read cursor

`BoundedLog α cap` is an append-only list of at most `cap` entries together with a cursor that
counts the entries already taken. What is behind the cursor is pending. Seen from outside it is a
FIFO list — `pending_append` and `pending_advance` — whose one peculiarity is that a taken entry
never gives its place back: `advance` leaves `entries` as they are, and `IsFull` counts them all.
-/

/-- A log of at most `cap` entries, the first `taken` of which were taken. -/
@[ext] structure BoundedLog (α : Type) (cap : ℕ) where
  entries : List α
  taken : ℕ
  taken_le : taken ≤ entries.length
  length_le : entries.length ≤ cap

namespace BoundedLog

variable {α : Type} {cap : ℕ}

/-- The log without entries. -/
def empty (α : Type) (cap : ℕ) : BoundedLog α cap where
  entries := []
  taken := 0
  taken_le := le_rfl
  length_le := Nat.zero_le cap

/-- Every place of the log has been used. -/
def IsFull (l : BoundedLog α cap) : Prop := l.entries.length = cap

instance (l : BoundedLog α cap) : Decidable l.IsFull := inferInstanceAs (Decidable (_ = _))

/-- The entries not yet taken, oldest first. -/
def pending (l : BoundedLog α cap) : List α := l.entries.drop l.taken

/-- Append an entry; a full log is left as it is. -/
def append (l : BoundedLog α cap) (a : α) : BoundedLog α cap :=
  if h : l.IsFull then l
  else
    { entries := l.entries ++ [a]
      taken := l.taken
      taken_le := by have := l.taken_le; simp only [List.length_append]; omega
      length_le := by
        have := l.length_le
        unfold IsFull at h
        simp only [List.length_append, List.length_singleton]
        omega }

/-- Take the oldest pending entry; a log without pending entries is left as it is. -/
def advance (l : BoundedLog α cap) : BoundedLog α cap :=
  if h : l.taken = l.entries.length then l
  else { l with taken := l.taken + 1, taken_le := by have := l.taken_le; omega }

/-- A full log takes nothing. -/
theorem append_of_isFull {l : BoundedLog α cap} (h : l.IsFull) (a : α) : l.append a = l :=
  dif_pos h

/-- A log with room takes the entry behind the others. -/
theorem entries_append {l : BoundedLog α cap} (h : ¬ l.IsFull) (a : α) :
    (l.append a).entries = l.entries ++ [a] := by
  rw [append, dif_neg h]

/-- Nothing is taken when an entry is appended. -/
@[simp] theorem taken_append (l : BoundedLog α cap) (a : α) : (l.append a).taken = l.taken := by
  unfold append
  split <;> rfl

/-- No entry is removed when one is taken. -/
@[simp] theorem entries_advance (l : BoundedLog α cap) : l.advance.entries = l.entries := by
  unfold advance
  split <;> rfl

/-- When all entries are taken, none is. -/
theorem advance_of_taken {l : BoundedLog α cap} (h : l.taken = l.entries.length) :
    l.advance = l :=
  dif_pos h

/-- Otherwise one more is. -/
theorem taken_advance {l : BoundedLog α cap} (h : l.taken ≠ l.entries.length) :
    l.advance.taken = l.taken + 1 := by
  rw [advance, dif_neg h]

/-! ### The pending part is a FIFO list -/

@[simp] theorem length_pending (l : BoundedLog α cap) :
    l.pending.length = l.entries.length - l.taken := List.length_drop

/-- Nothing is pending when all entries are taken. -/
theorem pending_eq_nil_iff (l : BoundedLog α cap) :
    l.pending = [] ↔ l.taken = l.entries.length := by
  have := l.taken_le
  rw [pending, List.drop_eq_nil_iff]
  omega

/-- **Appending is `enqueue`**: an entry that finds a place goes to the end of the pending ones. -/
theorem pending_append {l : BoundedLog α cap} (h : ¬ l.IsFull) (a : α) :
    (l.append a).pending = l.pending ++ [a] := by
  unfold pending
  rw [entries_append h, taken_append, List.drop_append_of_le_length l.taken_le]

/-- **Advancing is `dequeue`**: the oldest pending entry goes. -/
theorem pending_advance (l : BoundedLog α cap) : l.advance.pending = l.pending.tail := by
  by_cases h : l.taken = l.entries.length
  · -- nothing is pending, and the tail of nothing is nothing
    rw [advance_of_taken h, (pending_eq_nil_iff l).mpr h, List.tail_nil]
  · unfold pending
    rw [entries_advance, taken_advance h, List.tail_drop]

end BoundedLog
