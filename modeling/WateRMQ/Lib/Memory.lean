import Mathlib.Data.List.GetD
import Mathlib.Data.Nat.Basic
import Mathlib.Data.Int.ModEq
import Mathlib.Logic.Function.Basic
import Mathlib.Tactic.Ring
import WateRMQ.Lib.CString

/-!
# Byte memory, little endian

A memory is a function `ℕ → UInt8`. `loadNat` and `storeNat` read and write an unsigned number of
any width; `loadInt`, `storeInt` are the four-byte `int`, `loadWord`, `storeWord` the eight-byte
pointer; `loadBytes`, `storeBytes` are any sequence of bytes. For each width there are the two laws
everything else rests on: a load from where a store went gives the stored value back, and a load
from a disjoint range is unchanged.
-/

namespace CMem

/-- The bytes of an address space, or of one object, from its first address on. -/
abbrev Bytes := ℕ → UInt8

/-- A pointer of the 64-bit machine. -/
abbrev Word := BitVec 64

instance : CPointer Word := ⟨0⟩

/-- The unsigned number in the `n` bytes at `a`. -/
def loadNat (m : Bytes) (a : ℕ) : ℕ → ℕ
  | 0 => 0
  | n + 1 => (m a).toNat + 256 * loadNat m (a + 1) n

/-- Write the low `n` bytes of `v` at `a`. -/
def storeNat (m : Bytes) (a : ℕ) : ℕ → ℕ → Bytes
  | 0, _ => m
  | n + 1, v => storeNat (Function.update m a (UInt8.ofNat v)) (a + 1) n (v / 256)

/-- A store changes no byte outside its range. -/
theorem storeNat_of_outside (m : Bytes) {a n v i : ℕ} (h : i < a ∨ a + n ≤ i) :
    storeNat m a n v i = m i := by
  induction n generalizing m a v with
  | zero => rfl
  | succ n ih =>
    rw [storeNat, ih _ (by omega), Function.update_of_ne (by omega)]

/-- A load reads only the bytes of its range. -/
theorem loadNat_congr {m m' : Bytes} {a n : ℕ} (h : ∀ i, a ≤ i → i < a + n → m i = m' i) :
    loadNat m a n = loadNat m' a n := by
  induction n generalizing a with
  | zero => rfl
  | succ n ih =>
    rw [loadNat, loadNat, h a le_rfl (by omega), ih fun i h₁ h₂ => h i (by omega) (by omega)]

/-- Loading what was stored. -/
theorem loadNat_storeNat_same (m : Bytes) (a n v : ℕ) :
    loadNat (storeNat m a n v) a n = v % 256 ^ n := by
  induction n generalizing m a v with
  | zero => rw [loadNat, pow_zero, Nat.mod_one]
  | succ n ih =>
    -- the byte at `a` is written first, and the rest of the store leaves it alone
    have h_low : storeNat m a (n + 1) v a = UInt8.ofNat v := by
      rw [storeNat, storeNat_of_outside _ (by omega), Function.update_self]
    have h_byte : (UInt8.ofNat v).toNat = v % 256 := by
      rw [UInt8.toNat_ofNat']
    have h_high : loadNat (storeNat m a (n + 1) v) (a + 1) n = v / 256 % 256 ^ n := ih _ _ _
    calc loadNat (storeNat m a (n + 1) v) a (n + 1)
        = v % 256 + 256 * (v / 256 % 256 ^ n) := by rw [loadNat, h_low, h_byte, h_high]
      _ = v % 256 ^ (n + 1) := by rw [pow_succ', Nat.mod_mul]

/-- Loading from a range that a store did not touch. -/
theorem loadNat_storeNat_disjoint (m : Bytes) {a n v b k : ℕ} (h : b + k ≤ a ∨ a + n ≤ b) :
    loadNat (storeNat m a n v) b k = loadNat m b k :=
  loadNat_congr fun _ _ _ => storeNat_of_outside m (by omega)

/-- Zeroed memory holds the number zero everywhere. -/
theorem loadNat_zero {m : Bytes} {a n : ℕ} (h : ∀ i, a ≤ i → i < a + n → m i = 0) :
    loadNat m a n = 0 := by
  induction n generalizing a with
  | zero => rfl
  | succ n ih =>
    rw [loadNat, h a le_rfl (by omega), ih fun i h₁ h₂ => h i (by omega) (by omega)]
    rfl

/-! ### `int` -/

/-- The `int` at `a`. -/
@[irreducible] def loadInt (m : Bytes) (a : ℕ) : ℤ := Int.bmod (loadNat m a 4) (2 ^ 32)

/-- Write an `int` at `a`. -/
@[irreducible] def storeInt (m : Bytes) (a : ℕ) (n : ℤ) : Bytes := storeNat m a 4 (n % 2 ^ 32).toNat

/-- Only the four bytes count. -/
theorem loadInt_congr {m m' : Bytes} {a : ℕ} (h : ∀ i, a ≤ i → i < a + 4 → m i = m' i) :
    loadInt m a = loadInt m' a := by
  unfold loadInt
  rw [loadNat_congr h]

/-- The bytes around the four stay. -/
theorem storeInt_of_outside (m : Bytes) {a i : ℕ} (n : ℤ) (h : i < a ∨ a + 4 ≤ i) :
    storeInt m a n i = m i := by
  unfold storeInt
  exact storeNat_of_outside m h

/-- An `int` that was stored is loaded. -/
theorem loadInt_storeInt_same (m : Bytes) (a : ℕ) {n : ℤ} (h : InInt n) :
    loadInt (storeInt m a n) a = n := by
  obtain ⟨h_low, h_high⟩ := h
  unfold loadInt storeInt
  rw [loadNat_storeNat_same, Int.bmod_def]
  split <;> omega

/-- An `int` elsewhere is not touched. -/
theorem loadInt_storeInt_disjoint (m : Bytes) {a b : ℕ} (n : ℤ) (h : b + 4 ≤ a ∨ a + 4 ≤ b) :
    loadInt (storeInt m a n) b = loadInt m b := by
  unfold loadInt storeInt
  rw [loadNat_storeNat_disjoint m h]

/-- Four bytes of zero are the number zero. -/
theorem loadInt_zero {m : Bytes} {a : ℕ} (h : ∀ i, a ≤ i → i < a + 4 → m i = 0) :
    loadInt m a = 0 := by
  have h_nat : loadNat m a 4 = 0 := loadNat_zero h
  unfold loadInt
  rw [h_nat, Nat.cast_zero, Int.zero_bmod]

/-! ### Pointers -/

/-- The pointer at `a`. -/
@[irreducible] def loadWord (m : Bytes) (a : ℕ) : Word := BitVec.ofNat 64 (loadNat m a 8)

/-- Write a pointer at `a`. -/
@[irreducible] def storeWord (m : Bytes) (a : ℕ) (w : Word) : Bytes := storeNat m a 8 w.toNat

/-- The bytes around the eight stay. -/
theorem storeWord_of_outside (m : Bytes) {a i : ℕ} (w : Word) (h : i < a ∨ a + 8 ≤ i) :
    storeWord m a w i = m i := by
  unfold storeWord
  exact storeNat_of_outside m h

/-- A word that was stored is loaded. -/
theorem loadWord_storeWord_same (m : Bytes) (a : ℕ) (w : Word) :
    loadWord (storeWord m a w) a = w := by
  unfold loadWord storeWord
  have h_lt : w.toNat < 256 ^ 8 := w.isLt
  rw [loadNat_storeNat_same, Nat.mod_eq_of_lt h_lt, BitVec.ofNat_toNat, BitVec.setWidth_eq]

/-- A word elsewhere is not touched. -/
theorem loadWord_storeWord_disjoint (m : Bytes) {a b : ℕ} (w : Word)
    (h : b + 8 ≤ a ∨ a + 8 ≤ b) : loadWord (storeWord m a w) b = loadWord m b := by
  unfold loadWord storeWord
  rw [loadNat_storeNat_disjoint m h]

theorem loadWord_storeInt_disjoint (m : Bytes) {a b : ℕ} (n : ℤ)
    (h : b + 8 ≤ a ∨ a + 4 ≤ b) : loadWord (storeInt m a n) b = loadWord m b := by
  unfold loadWord storeInt
  rw [loadNat_storeNat_disjoint m h]

theorem loadInt_storeWord_disjoint (m : Bytes) {a b : ℕ} (w : Word)
    (h : b + 4 ≤ a ∨ a + 8 ≤ b) : loadInt (storeWord m a w) b = loadInt m b := by
  unfold loadInt storeWord
  rw [loadNat_storeNat_disjoint m h]

/-! ### Sequences of bytes -/

/-- The `n` bytes at `a`. -/
def loadBytes (m : Bytes) (a n : ℕ) : List UInt8 := (List.range n).map fun i => m (a + i)

/-- Write the bytes `bs` from `a` on. -/
def storeBytes (m : Bytes) (a : ℕ) (bs : List UInt8) : Bytes :=
  fun i => if a ≤ i then bs.getD (i - a) (m i) else m i

@[simp] theorem length_loadBytes (m : Bytes) (a n : ℕ) : (loadBytes m a n).length = n := by
  rw [loadBytes, List.length_map, List.length_range]

/-- The bytes around those that are stored stay. -/
theorem storeBytes_of_outside (m : Bytes) {a i : ℕ} {bs : List UInt8}
    (h : i < a ∨ a + bs.length ≤ i) : storeBytes m a bs i = m i := by
  rw [storeBytes]
  split
  · exact List.getD_eq_default _ _ (by omega)
  · rfl

/-- A byte that was stored. -/
theorem storeBytes_of_inside (m : Bytes) (a : ℕ) {bs : List UInt8} {i : ℕ} (h : i < bs.length) :
    storeBytes m a bs (a + i) = bs[i] := by
  rw [storeBytes, if_pos (Nat.le_add_right a i), Nat.add_sub_cancel_left,
    List.getD_eq_getElem _ _ h]

/-- Only the bytes that are loaded count. -/
theorem loadBytes_congr {m m' : Bytes} {a n : ℕ} (h : ∀ i, a ≤ i → i < a + n → m i = m' i) :
    loadBytes m a n = loadBytes m' a n := by
  refine List.map_congr_left fun i hi => h _ (Nat.le_add_right a i) ?_
  have h_lt := List.mem_range.mp hi
  omega

/-- Loading from a range that a store did not touch. -/
theorem loadBytes_storeBytes_disjoint (m : Bytes) {a b n : ℕ} {bs : List UInt8}
    (h : b + n ≤ a ∨ a + bs.length ≤ b) : loadBytes (storeBytes m a bs) b n = loadBytes m b n :=
  loadBytes_congr fun _ _ _ => storeBytes_of_outside m (by omega)

/-- Loading what was stored, with the bytes behind it. -/
theorem loadBytes_storeBytes_same (m : Bytes) (a : ℕ) {n : ℕ} {bs : List UInt8}
    (h : bs.length ≤ n) :
    loadBytes (storeBytes m a bs) a n =
      bs ++ loadBytes m (a + bs.length) (n - bs.length) := by
  refine List.ext_getElem (by simp [h]) ?_
  intro i h₁ h₂
  by_cases h_i : i < bs.length
  · rw [List.getElem_append_left h_i]
    simp [loadBytes, storeBytes_of_inside m a h_i]
  · rw [List.getElem_append_right (by omega)]
    have h_outside : storeBytes m a bs (a + i) = m (a + i) :=
      storeBytes_of_outside m (by omega)
    have h_index : a + bs.length + (i - bs.length) = a + i := by omega
    simp [loadBytes, h_outside, h_index]

end CMem
