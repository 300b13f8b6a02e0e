import Mathlib.Data.Set.Basic
import WateRMQ.Lib.Memory

/-!
# A heap

The blocks that a program has allocated, numbered in the order of their allocation. A block that was
freed keeps its number, and `live` is the set of those that were not.

Whether a call of `malloc` finds memory, and what is in it, is given by the number of the call
(`Supply`). So what a function does with the heap can be said for every pattern of successes and
failures, and for every content of fresh memory.

A function that only allocates has made of the heap `h` the heap `h.grown new n`: `n` calls of
`malloc` and the blocks `new` behind those of `h`.
-/

namespace CMem

/-- A pointer to a block: the null pointer, or the number of the block. -/
abbrev Pointer := Option ℕ

instance : CPointer Pointer := ⟨none⟩

/-- What the calls of `malloc` give: the null pointer, or memory with these bytes in it. -/
abbrev Supply := ℕ → Option Bytes

/-- The blocks, a freed one being `none`, and the number of calls of `malloc`. -/
structure Heap (α : Type) where
  blocks : List (Option α)
  mallocs : ℕ

namespace Heap

variable {α : Type} {supply : Supply} {fresh : Bytes → α} {h : Heap α} {new : List α} {n i : ℕ}
  {c c' : α} {bytes : Bytes}

/-- The live blocks. -/
def live (h : Heap α) : Set ℕ := {a | ∃ c, h.blocks[a]? = some (some c)}

/-- A call of `malloc`; `fresh` is what the bytes in the memory are to the caller. -/
def malloc (supply : Supply) (fresh : Bytes → α) (h : Heap α) : Pointer × Heap α :=
  match supply h.mallocs with
  | none => (none, ⟨h.blocks, h.mallocs + 1⟩)
  | some bytes => (some h.blocks.length, ⟨h.blocks ++ [some (fresh bytes)], h.mallocs + 1⟩)

/-- What the block behind a pointer holds. -/
def load (h : Heap α) : Pointer → Except Fault α
  | none => .error .nullPointer
  | some a =>
    match h.blocks[a]? with
    | some (some c) => .ok c
    | some none => .error .useAfterFree
    | none => .error .outOfBounds

/-- A write to the block behind a pointer. -/
def modify (h : Heap α) (p : Pointer) (f : α → Except Fault α) : Except Fault (Heap α) :=
  match p with
  | none => .error .nullPointer
  | some a => do
    let c ← h.load (some a)
    let c' ← f c
    return ⟨h.blocks.set a (some c'), h.mallocs⟩

/-- The heap after `n` calls of `malloc`, with some blocks more. -/
def grown (h : Heap α) (new : List α) (n : ℕ) : Heap α :=
  ⟨h.blocks ++ new.map some, h.mallocs + n⟩

/-- What is allocated in two steps may be allocated in one. -/
theorem grown_grown (h : Heap α) (new new' : List α) (n n' : ℕ) :
    (h.grown new n).grown new' n' = h.grown (new ++ new') (n + n') := by
  simp [grown, Nat.add_assoc]

/-- A call of `malloc` that finds nothing. -/
theorem malloc_of_none (h_supply : supply h.mallocs = none) :
    h.malloc supply fresh = (none, h.grown [] 1) := by
  rw [malloc, h_supply, grown, List.map_nil, List.append_nil]

/-- A call of `malloc` that finds memory: the block gets the next number. -/
theorem malloc_of_some (h_supply : supply h.mallocs = some bytes) :
    h.malloc supply fresh = (some h.blocks.length, h.grown [fresh bytes] 1) := by
  rw [malloc, h_supply]
  rfl

/-- The same for a heap that has grown. -/
theorem malloc_grown_of_none (h_supply : supply (h.mallocs + n) = none) :
    (h.grown new n).malloc supply fresh = (none, h.grown new (n + 1)) := by
  rw [malloc_of_none (h := h.grown new n) h_supply, grown_grown, List.append_nil]

/-- The new block comes behind those that the heap has grown by. -/
theorem malloc_grown_of_some (h_supply : supply (h.mallocs + n) = some bytes) :
    (h.grown new n).malloc supply fresh =
      (some (h.blocks.length + new.length), h.grown (new ++ [fresh bytes]) (n + 1)) := by
  rw [malloc_of_some (h := h.grown new n) h_supply, grown_grown]
  simp [grown]

/-- The new blocks lie behind the old ones. -/
theorem getElem?_grown (h : Heap α) (new : List α) (n i : ℕ) :
    (h.grown new n).blocks[h.blocks.length + i]? = (new[i]?).map some := by
  rw [grown, List.getElem?_append_right (Nat.le_add_right _ i), Nat.add_sub_cancel_left,
    List.getElem?_map]

/-- A new block can be loaded. -/
theorem load_grown (h_new : new[i]? = some c) :
    (h.grown new n).load (some (h.blocks.length + i)) = .ok c := by
  rw [load, getElem?_grown, h_new]
  rfl

/-- A new block can be changed. -/
theorem modify_grown {f : α → Except Fault α} (h_new : new[i]? = some c) (h_f : f c = .ok c') :
    (h.grown new n).modify (some (h.blocks.length + i)) f = .ok (h.grown (new.set i c') n) := by
  rw [modify, load_grown h_new]
  simp only [bind, Except.bind, h_f, pure, Except.pure]
  rw [grown, List.set_append_right _ _ (Nat.le_add_right _ i), Nat.add_sub_cancel_left,
    ← List.map_set]
  rfl

/-- New blocks are live: without a `free` the live blocks are the same only when there are none. -/
theorem live_grown_eq_iff : (h.grown new n).live = h.live ↔ new = [] := by
  refine ⟨?_, ?_⟩
  · intro h_eq
    cases new with
    | nil => rfl
    -- the first new block is live, and there was none of its number before
    | cons c new =>
      have h_mem : h.blocks.length ∈ (h.grown (c :: new) n).live :=
        ⟨c, getElem?_grown h (c :: new) n 0⟩
      rw [h_eq] at h_mem
      obtain ⟨c', h_c'⟩ := h_mem
      rw [List.getElem?_eq_none le_rfl] at h_c'
      cases h_c'
  · rintro rfl
    rw [live, live, grown, List.map_nil, List.append_nil]

/-! ### Giving memory back -/

/-- The block of a number is live and holds `c`. -/
def Holds (h : Heap α) (a : ℕ) (c : α) : Prop := h.blocks[a]? = some (some c)

/-- A call of `free`. -/
def free (h : Heap α) (a : ℕ) : Except Fault (Heap α) := do
  let _ ← h.load (some a)
  return ⟨h.blocks.set a none, h.mallocs⟩

/-- A live block has a number that was given out. -/
theorem Holds.lt {a : ℕ} (h_a : h.Holds a c) : a < h.blocks.length :=
  (List.getElem?_eq_some_iff.mp h_a).choose

/-- The next block is none of the live ones. -/
theorem Holds.ne_new {a : ℕ} (h_a : h.Holds a c) : h.blocks.length ≠ a := h_a.lt.ne'

/-- A block holds one thing. -/
theorem Holds.unique {a : ℕ} (h_a : h.Holds a c) (h_a' : h.Holds a c') : c = c' :=
  Option.some.inj (Option.some.inj (h_a.symm.trans h_a'))

/-- A live block is still there when the heap has grown. -/
theorem Holds.grown {a : ℕ} (h_a : h.Holds a c) (new : List α) (n : ℕ) :
    (h.grown new n).Holds a c :=
  (List.getElem?_append_left h_a.lt).trans h_a

/-- A block that was just allocated is live. -/
theorem holds_grown (h : Heap α) (c : α) (n : ℕ) : (h.grown [c] n).Holds h.blocks.length c :=
  getElem?_grown h [c] n 0

/-- A live block can be freed. -/
theorem free_of_holds {a : ℕ} (h_a : h.Holds a c) :
    h.free a = .ok ⟨h.blocks.set a none, h.mallocs⟩ := by
  have h_load : h.load (some a) = .ok c := by
    unfold Holds at h_a
    rw [load, h_a]
  rw [free, h_load]
  rfl

/-- The other blocks stay as they are. -/
theorem Holds.free {a b : ℕ} {h' : Heap α} (h_b : h.Holds b c) (h_free : h.free a = .ok h')
    (h_ne : a ≠ b) : h'.Holds b c := by
  obtain ⟨-, -, h_eq⟩ := bind_eq_ok.mp h_free
  cases h_eq
  exact (List.getElem?_set_ne h_ne).trans h_b

/-- Different live blocks are freed without a fault, and all others stay as they are. -/
theorem frees_of_holds {as : List ℕ} (h_nodup : as.Nodup) (h_as : ∀ a ∈ as, ∃ c, h.Holds a c) :
    ∃ h', as.foldlM free h = .ok h' ∧ ∀ b c, b ∉ as → h.Holds b c → h'.Holds b c := by
  induction as generalizing h with
  | nil => exact ⟨h, rfl, fun _ _ _ h_b => h_b⟩
  | cons a as ih =>
    obtain ⟨h_a, h_rest⟩ := List.nodup_cons.mp h_nodup
    obtain ⟨c, h_c⟩ := h_as a List.mem_cons_self
    have h_free := free_of_holds h_c
    obtain ⟨h', h_run, h_keep⟩ := ih h_rest (h := ⟨h.blocks.set a none, h.mallocs⟩) fun b h_b => by
      obtain ⟨d, h_d⟩ := h_as b (List.mem_cons_of_mem a h_b)
      exact ⟨d, h_d.free h_free fun h_eq => h_a (h_eq ▸ h_b)⟩
    refine ⟨h', ?_, fun b d h_b h_d => ?_⟩
    · rw [List.foldlM_cons, h_free]
      exact h_run
    · obtain ⟨h_ne, h_b'⟩ := not_or.mp (fun h_mem => h_b (List.mem_cons.mpr h_mem))
      exact h_keep b d h_b' (h_d.free h_free fun h_eq => h_ne h_eq.symm)

end Heap
end CMem
