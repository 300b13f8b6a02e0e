import WateRMQ.Lib.Memory
import WateRMQ.Backend.Queue

/-!
# The backend's queue as bytes

The layout of `Queue` on the 64-bit machine: the pointers of `items` from offset 0 on, then the
two `int`s. `Region` is a range of memory with what limits the accesses to it, and the functions
of the source run on it through `Region.access`.

* `Region.view` — the structure that the bytes stand for. `Region.view_view` says that whatever
  succeeds on the bytes does the same on the structure;
* `Region.Frame` — what the writing functions leave alone: every byte behind the structure, and
  the limits of the region.
-/

namespace WateRMQ
namespace Backend

open CMem QueueAccess

/-- The offset of `front`. -/
@[irreducible] def frontOffset : ℕ := 8 * maxSize.toNat

/-- The offset of `rear`. -/
@[irreducible] def rearOffset : ℕ := frontOffset + 4

/-- `sizeof(Queue)`. -/
@[irreducible] def sizeofQueue : ℕ := rearOffset + 4

/-- The size of a page. -/
def pageSize : ℕ := 4096

/-- The end of the last page of a mapping of `length` bytes. -/
@[irreducible] def pageEnd (length : ℕ) : ℕ := (length + (pageSize - 1)) / pageSize * pageSize

theorem frontOffset_eq : frontOffset = 324480 := by
  unfold frontOffset
  rfl

theorem rearOffset_eq : rearOffset = 324484 := by
  unfold rearOffset
  rw [frontOffset_eq]

/-- The size in bytes. -/
theorem sizeofQueue_eq : sizeofQueue = 324488 := by
  unfold sizeofQueue
  rw [rearOffset_eq]

/-- `rear` is the last field. -/
theorem rearOffset_add : rearOffset + 4 = sizeofQueue := by
  rw [rearOffset_eq, sizeofQueue_eq]

/-- A mapping ends in its last page. -/
theorem le_pageEnd (length : ℕ) : length ≤ pageEnd length := by
  unfold pageEnd pageSize
  omega

/-- A range of memory: a block of the heap or a mapping of a file. `stores` keeps the offsets
that were stored to, the newest first. -/
structure Region where
  bytes : Bytes
  length : ℕ
  writable : Bool
  shared : Bool
  stores : List ℕ

namespace Region

/-- Load `size` bytes at offset `a`, with `load` as the decoding. Up to the end of the last page
the memory is there. -/
def read {α : Type} (r : Region) (load : Bytes → ℕ → α) (a size : ℕ) : Except Fault α :=
  if a + size ≤ pageEnd r.length then .ok (load r.bytes a) else .error .outOfBounds

/-- Store `size` bytes at offset `a`, with `bytes` as the outcome. -/
def write (r : Region) (bytes : Bytes) (a size : ℕ) : Except Fault Region :=
  if r.writable then
    if a + size ≤ r.length then .ok { r with bytes := bytes, stores := a :: r.stores }
    else .error .outOfBounds
  else .error .notWritable

instance access : QueueAccess Region Word where
  getItem r i :=
    if Queue.InArray i then r.read loadWord (8 * i.toNat) 8 else .error .outOfBounds
  getFront r := r.read loadInt frontOffset 4
  getRear r := r.read loadInt rearOffset 4
  setItem r i x :=
    if Queue.InArray i then r.write (storeWord r.bytes (8 * i.toNat) x) (8 * i.toNat) 8
    else .error .outOfBounds
  setFront r n :=
    if InInt n then r.write (storeInt r.bytes frontOffset n) frontOffset 4
    else .error .intOverflow
  setRear r n :=
    if InInt n then r.write (storeInt r.bytes rearOffset n) rearOffset 4
    else .error .intOverflow

/-- A load stays inside the pages of the region. -/
theorem read_ok {α : Type} {r : Region} {load : Bytes → ℕ → α} {a size : ℕ} {x : α}
    (h : r.read load a size = .ok x) : a + size ≤ pageEnd r.length ∧ load r.bytes a = x := by
  unfold read at h
  split at h
  next h_inside => exact ⟨h_inside, Except.ok.inj h⟩
  next => cases h

/-- A store needs a writable region and stays inside it. -/
theorem write_ok {r r' : Region} {bytes : Bytes} {a size : ℕ}
    (h : r.write bytes a size = .ok r') :
    r.writable = true ∧ a + size ≤ r.length ∧
      r' = { r with bytes := bytes, stores := a :: r.stores } := by
  unfold write at h
  split at h
  next h_writable =>
    split at h
    next h_inside => exact ⟨h_writable, h_inside, (Except.ok.inj h).symm⟩
    next => cases h
  next => cases h

/-- A load of a slot stays inside the array and gives its eight bytes. -/
theorem getItem_ok {r : Region} {i : ℤ} {x : Word} (h : getItem r i = .ok x) :
    Queue.InArray i ∧ loadWord r.bytes (8 * i.toNat) = x := by
  by_cases h_in : Queue.InArray i
  · exact ⟨h_in, (read_ok ((if_pos h_in).symm.trans h)).2⟩
  · cases (if_neg h_in).symm.trans h

/-- A load of `front` gives its four bytes. -/
theorem getFront_ok {r : Region} {n : ℤ} (h : getFront r = .ok n) :
    loadInt r.bytes frontOffset = n := by
  have h_read : r.read loadInt frontOffset 4 = .ok n := h
  exact (read_ok h_read).2

/-- A load of `rear` gives its four bytes. -/
theorem getRear_ok {r : Region} {n : ℤ} (h : getRear r = .ok n) :
    rearOffset + 4 ≤ pageEnd r.length ∧ loadInt r.bytes rearOffset = n := by
  have h_read : r.read loadInt rearOffset 4 = .ok n := h
  exact read_ok h_read

/-- A store to a slot is a store of eight bytes inside the array. -/
theorem setItem_ok {r r' : Region} {i : ℤ} {x : Word} (h : setItem r i x = .ok r') :
    Queue.InArray i ∧
      r.write (storeWord r.bytes (8 * i.toNat) x) (8 * i.toNat) 8 = .ok r' := by
  by_cases h_in : Queue.InArray i
  · exact ⟨h_in, (if_pos h_in).symm.trans h⟩
  · cases (if_neg h_in).symm.trans h

/-- A slot that was stored is loaded from the same bytes. -/
instance : LawfulQueueAccess Region Word where
  getItem_setItem {r r' i x} h := by
    obtain ⟨h_in, h_write⟩ := setItem_ok h
    obtain ⟨-, h_inside, rfl⟩ := write_ok h_write
    -- what lies inside the region lies inside its last page
    refine (if_pos h_in).trans ((if_pos (h_inside.trans (le_pageEnd r.length))).trans ?_)
    exact congrArg Except.ok (loadWord_storeWord_same _ _ _)

/-- A store to `front` is a store of four bytes. -/
theorem setFront_ok {r r' : Region} {n : ℤ} (h : setFront r n = .ok r') :
    InInt n ∧ r.write (storeInt r.bytes frontOffset n) frontOffset 4 = .ok r' := by
  by_cases h_in : InInt n
  · exact ⟨h_in, (if_pos h_in).symm.trans h⟩
  · cases (if_neg h_in).symm.trans h

/-- A store to `rear` is a store of four bytes. -/
theorem setRear_ok {r r' : Region} {n : ℤ} (h : setRear r n = .ok r') :
    InInt n ∧ r.write (storeInt r.bytes rearOffset n) rearOffset 4 = .ok r' := by
  by_cases h_in : InInt n
  · exact ⟨h_in, (if_pos h_in).symm.trans h⟩
  · cases (if_neg h_in).symm.trans h

/-! ### The structure behind the bytes -/

/-- The structure that the bytes stand for. -/
def view (r : Region) : Queue Word where
  items i := if Queue.InArray i then loadWord r.bytes (8 * i.toNat) else 0
  front := loadInt r.bytes frontOffset
  rear := loadInt r.bytes rearOffset

/-- A slot lies in front of the two `int`s. -/
theorem slot_before_front {i : ℤ} (h : Queue.InArray i) : 8 * i.toNat + 8 ≤ frontOffset := by
  obtain ⟨h_low, h_high⟩ := h
  rw [maxSize_eq] at h_high
  rw [frontOffset_eq]
  omega

/-- `front` lies before `rear`. -/
theorem front_before_rear : frontOffset + 4 ≤ rearOffset := by
  rw [frontOffset_eq, rearOffset_eq]

/-- A slot lies before `rear`. -/
theorem slot_before_rear {i : ℤ} (h : Queue.InArray i) : 8 * i.toNat + 8 ≤ rearOffset :=
  calc 8 * i.toNat + 8 ≤ frontOffset := slot_before_front h
    _ ≤ frontOffset + 4 := Nat.le_add_right _ 4
    _ ≤ rearOffset := front_before_rear

/-- A slot of the structure is the slot of the bytes. -/
theorem view_getItem {r : Region} {i : ℤ} {x : Word} (h : getItem r i = .ok x) :
    getItem r.view i = .ok x := by
  obtain ⟨h_in, h_load⟩ := getItem_ok h
  rw [Queue.getItem_eq _ h_in]
  simp only [view, if_pos h_in, h_load]

/-- The `front` of the structure is that of the bytes. -/
theorem view_getFront {r : Region} {n : ℤ} (h : getFront r = .ok n) :
    getFront r.view = .ok n := by
  rw [Queue.getFront_eq]
  simp only [view, getFront_ok h]

/-- The `rear` of the structure is that of the bytes. -/
theorem view_getRear {r : Region} {n : ℤ} (h : getRear r = .ok n) :
    getRear r.view = .ok n := by
  rw [Queue.getRear_eq]
  simp only [view, (getRear_ok h).2]

/-- A store to a slot of the bytes is one to the slot of the structure: the other fields lie
elsewhere. -/
theorem view_setItem {r r' : Region} {i : ℤ} {x : Word} (h : setItem r i x = .ok r') :
    setItem r.view i x = .ok r'.view := by
  obtain ⟨h_in, h_write⟩ := setItem_ok h
  obtain ⟨-, -, rfl⟩ := write_ok h_write
  have h_before := slot_before_front h_in
  have h_before' := slot_before_rear h_in
  rw [Queue.setItem_eq _ h_in]
  -- the three members of the structure: slot `i` is written, the other slots and the two
  -- `int`s lie elsewhere
  refine congrArg Except.ok (Queue.ext (funext fun j => ?_) ?_ ?_)
  · by_cases h_eq : j = i
    · subst h_eq
      simp only [view, if_pos h_in, Function.update_self, loadWord_storeWord_same]
    · by_cases h_in' : Queue.InArray j
      · have h_ne : 8 * j.toNat + 8 ≤ 8 * i.toNat ∨ 8 * i.toNat + 8 ≤ 8 * j.toNat := by
          have h₁ := h_in.1
          have h₂ := h_in'.1
          omega
        simp only [view, if_pos h_in', Function.update_of_ne h_eq,
          loadWord_storeWord_disjoint _ _ h_ne]
      · simp only [view, if_neg h_in', Function.update_of_ne h_eq]
  · simp only [view, loadInt_storeWord_disjoint _ _ (Or.inr h_before)]
  · simp only [view, loadInt_storeWord_disjoint _ _ (Or.inr h_before')]

/-- A store to `front` leaves the slots and `rear` alone. -/
theorem view_setFront {r r' : Region} {n : ℤ} (h : setFront r n = .ok r') :
    setFront r.view n = .ok r'.view := by
  obtain ⟨h_in, h_write⟩ := setFront_ok h
  obtain ⟨-, -, rfl⟩ := write_ok h_write
  rw [Queue.setFront_eq _ h_in]
  refine congrArg Except.ok (Queue.ext (funext fun j => ?_) ?_ ?_)
  · by_cases h_in' : Queue.InArray j
    · have h_before := slot_before_front h_in'
      simp only [view, if_pos h_in', loadWord_storeInt_disjoint _ _ (Or.inl h_before)]
    · simp only [view, if_neg h_in']
  · simp only [view, loadInt_storeInt_same _ _ h_in]
  · simp only [view, loadInt_storeInt_disjoint _ _ (Or.inr front_before_rear)]

/-- A store to `rear` leaves the slots and `front` alone. -/
theorem view_setRear {r r' : Region} {n : ℤ} (h : setRear r n = .ok r') :
    setRear r.view n = .ok r'.view := by
  obtain ⟨h_in, h_write⟩ := setRear_ok h
  obtain ⟨-, -, rfl⟩ := write_ok h_write
  rw [Queue.setRear_eq _ h_in]
  refine congrArg Except.ok (Queue.ext (funext fun j => ?_) ?_ ?_)
  · by_cases h_in' : Queue.InArray j
    · have h_before := slot_before_rear h_in'
      simp only [view, if_pos h_in', loadWord_storeInt_disjoint _ _ (Or.inl h_before)]
    · simp only [view, if_neg h_in']
  · simp only [view, loadInt_storeInt_disjoint _ _ (Or.inl front_before_rear)]
  · simp only [view, loadInt_storeInt_same _ _ h_in]

/-- **The bytes and the structure agree.** Whatever succeeds on the bytes does the same on the
structure that they stand for. -/
theorem view_view : View view where
  getItem := view_getItem
  getFront := view_getFront
  getRear := view_getRear
  setItem := view_setItem
  setFront := view_setFront
  setRear := view_setRear

/-! ### Regions that hold a whole structure -/

section Holds

variable {r : Region}

/-- When the pages hold the structure, `front` can be loaded. -/
theorem getFront_eq (h : sizeofQueue ≤ pageEnd r.length) : getFront r = .ok r.view.front := by
  have h_inside : frontOffset + 4 ≤ pageEnd r.length := by
    rw [frontOffset_eq]
    rw [sizeofQueue_eq] at h
    omega
  change r.read loadInt frontOffset 4 = .ok r.view.front
  rw [read, if_pos h_inside, view]

/-- When the pages hold the structure, `rear` can be loaded. -/
theorem getRear_eq (h : sizeofQueue ≤ pageEnd r.length) : getRear r = .ok r.view.rear := by
  have h_inside : rearOffset + 4 ≤ pageEnd r.length := by
    rw [rearOffset_eq]
    rw [sizeofQueue_eq] at h
    omega
  change r.read loadInt rearOffset 4 = .ok r.view.rear
  rw [read, if_pos h_inside, view]

variable (h : sizeofQueue ≤ r.length)
include h

/-- A writable region takes a slot. -/
theorem setItem_succeeds (h_writable : r.writable = true) {i : ℤ} (h_in : Queue.InArray i)
    (x : Word) : ∃ r', setItem r i x = .ok r' := by
  have h_before := slot_before_front h_in
  have h_inside : 8 * i.toNat + 8 ≤ r.length := by
    rw [frontOffset_eq] at h_before
    rw [sizeofQueue_eq] at h
    omega
  exact ⟨_, (if_pos h_in).trans ((if_pos h_writable).trans (if_pos h_inside))⟩

/-- A writable region takes a new `front`. -/
theorem setFront_succeeds (h_writable : r.writable = true) {n : ℤ} (h_in : InInt n) :
    ∃ r', setFront r n = .ok r' := by
  have h_inside : frontOffset + 4 ≤ r.length := by
    rw [frontOffset_eq]
    rw [sizeofQueue_eq] at h
    omega
  exact ⟨_, (if_pos h_in).trans ((if_pos h_writable).trans (if_pos h_inside))⟩

/-- A writable region takes a new `rear`. -/
theorem setRear_succeeds (h_writable : r.writable = true) {n : ℤ} (h_in : InInt n) :
    ∃ r', setRear r n = .ok r' := by
  have h_inside : rearOffset + 4 ≤ r.length := by
    rw [rearOffset_eq]
    rw [sizeofQueue_eq] at h
    omega
  exact ⟨_, (if_pos h_in).trans ((if_pos h_writable).trans (if_pos h_inside))⟩

end Holds

/-! ### What is left alone -/

/-- `r` differs from `r₀` at most in the bytes of the structure. -/
structure Frame (r₀ r : Region) : Prop where
  length : r.length = r₀.length
  writable : r.writable = r₀.writable
  shared : r.shared = r₀.shared
  behind : ∀ a, sizeofQueue ≤ a → r.bytes a = r₀.bytes a

theorem Frame.refl (r : Region) : Frame r r :=
  ⟨rfl, rfl, rfl, fun _ _ => rfl⟩

/-- A store inside the structure. -/
theorem Frame.write {r₀ r r' : Region} (h : Frame r₀ r) {bytes : Bytes} {a size : ℕ}
    (h_write : r.write bytes a size = .ok r')
    (h_bytes : ∀ b, sizeofQueue ≤ b → bytes b = r.bytes b) : Frame r₀ r' := by
  obtain ⟨-, -, rfl⟩ := write_ok h_write
  exact
    { length := h.length
      writable := h.writable
      shared := h.shared
      behind := fun b hb => (h_bytes b hb).trans (h.behind b hb) }

/-- **The frame of the writing functions**: they touch no byte behind the structure. -/
theorem frame_keeps (r₀ : Region) : Keeps (Frame r₀) where
  setItem hq h := by
    obtain ⟨h_in, h_write⟩ := setItem_ok h
    have h_before := slot_before_front h_in
    -- a slot ends in front of `front`, and so in front of the end of the structure
    refine hq.write h_write fun b hb => storeWord_of_outside _ _ (Or.inr ?_)
    rw [frontOffset_eq] at h_before
    rw [sizeofQueue_eq] at hb
    omega
  setFront hq h := by
    refine hq.write (setFront_ok h).2 fun b hb => storeInt_of_outside _ _ (Or.inr ?_)
    rw [sizeofQueue_eq] at hb
    rw [frontOffset_eq]
    omega
  setRear hq h := by
    refine hq.write (setRear_ok h).2 fun b hb => storeInt_of_outside _ _ (Or.inr ?_)
    rw [sizeofQueue_eq] at hb
    rw [rearOffset_eq]
    omega

end Region

end Backend
end WateRMQ
