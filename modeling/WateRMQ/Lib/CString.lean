import Mathlib.Data.List.Basic
import Mathlib.Data.Int.ModEq
import Mathlib.Tactic.Cases

/-!
# C strings, `char *` arguments and `int` lengths

The part of a C program's data that string-copying code depends on.

* `Fault` — what ends a program at a memory access or an `int` operation;
* `CStr` — a string as C sees it, the characters before the terminator;
* `CharPtr` — what a `const char *` argument may point at: nothing, a freed block, or readable
  memory that need not hold a terminator;
* `strlen`, `readString` — the two ways of scanning for a terminator. Both fault when the scan
  leaves the readable memory;
* `CharArray n` — a `char[n]` that holds a string;
* `Slot` — a `char *` stored in an array, together with the block it points to;
* `copySize` — a length that passes from `size_t` to `int` and back, as in
  `int n = strlen(s) + 1; malloc(n);`. `copySize_of_lt` says for which lengths nothing is lost.
-/

namespace CMem

/-- What ends a C program at a memory access or at an `int` operation. -/
inductive Fault
  | nullPointer
  | useAfterFree
  | outOfBounds
  | uninitialized
  | notWritable
  | intOverflow
  deriving DecidableEq, Repr

/-- Inverting a sequence of two computations that may fault. -/
theorem bind_eq_ok {ε α β : Type} {x : Except ε α} {f : α → Except ε β} {b : β} :
    (x >>= f) = .ok b ↔ ∃ a, x = .ok a ∧ f a = .ok b := by
  cases x with
  | error e => simp [bind, Except.bind]
  | ok a => simp [bind, Except.bind]

/-- A sequence fails where one of its parts does. -/
theorem bind_eq_error {ε α β : Type} {x : Except ε α} {f : α → Except ε β} {e : ε} :
    (x >>= f) = .error e ↔ x = .error e ∨ ∃ a, x = .ok a ∧ f a = .error e := by
  cases x with
  | error e => simp [bind, Except.bind]
  | ok a => simp [bind, Except.bind]

/-- A type of pointers, with the null pointer. -/
class CPointer (ι : Type) where
  null : ι

/-- What one call of `malloc(n)` gives, for the bytes that a `memcpy` then puts into the block:
the null pointer, or the pointer to a block with these bytes. -/
abbrev Malloc (ι : Type) := ℕ → List UInt8 → ι

/-- The `malloc` that finds no memory. -/
def Malloc.fails (ι : Type) [CPointer ι] : Malloc ι := fun _ _ => CPointer.null

/-- The values of a C `int`. -/
def InInt (n : ℤ) : Prop := -2 ^ 31 ≤ n ∧ n < 2 ^ 31

instance (n : ℤ) : Decidable (InInt n) := inferInstanceAs (Decidable (_ ∧ _))

/-! ### Strings -/

/-- A C string: the characters in front of the terminator, none of them `'\0'`. -/
@[ext] structure CStr where
  chars : List UInt8
  noNul : (0 : UInt8) ∉ chars
  deriving DecidableEq

namespace CStr

/-- The string as it lies in memory, terminator included. -/
def bytes (s : CStr) : List UInt8 := s.chars ++ [0]

/-- `strlen` of the string. -/
def length (s : CStr) : ℕ := s.chars.length

@[simp] theorem length_bytes (s : CStr) : s.bytes.length = s.length + 1 := by
  simp [bytes, length]

/-- A string can be read off its bytes. -/
theorem bytes_injective : Function.Injective bytes := by
  intro s t h
  exact CStr.ext (List.append_cancel_right h)

end CStr

/-- What a `const char *` may point at: nothing, a block that was freed, or memory whose readable
part, from the pointer on, is `mem`. -/
inductive CharPtr
  | null
  | dangling
  | bytes (mem : List UInt8)
  deriving DecidableEq

/-- The pointer to a C string. -/
def CStr.ptr (s : CStr) : CharPtr := .bytes s.bytes

/-- `strlen(p)`. -/
def strlen : CharPtr → Except Fault ℕ
  | .null => .error .nullPointer
  | .dangling => .error .useAfterFree
  | .bytes mem => if 0 ∈ mem then .ok (mem.idxOf 0) else .error .outOfBounds

/-- The first `n` bytes behind `p`, as many of them as are readable. -/
def CharPtr.take (p : CharPtr) (n : ℕ) : List UInt8 :=
  match p with
  | .bytes mem => mem.take n
  | _ => []

/-- `memcpy(dst, p, n)` stays inside the readable memory of its source. -/
def CharPtr.Readable (p : CharPtr) (n : ℕ) : Prop :=
  match p with
  | .bytes mem => n ≤ mem.length
  | _ => False

instance (p : CharPtr) (n : ℕ) : Decidable (p.Readable n) := by
  cases p <;> unfold CharPtr.Readable <;> infer_instance

/-- The string constructor `string(const char *)` on a block: the bytes in front of the first
terminator. -/
def readString (block : List UInt8) : Except Fault (List UInt8) :=
  if 0 ∈ block then .ok (block.take (block.idxOf 0)) else .error .outOfBounds

/-- `strlen` of a string. -/
@[simp] theorem strlen_ptr (s : CStr) : strlen s.ptr = .ok s.length := by
  -- the first zero is the terminator, because the characters hold none
  have h_idx : (s.chars ++ [0]).idxOf 0 = s.chars.length := by
    rw [List.idxOf_append_of_notMem s.noNul]
    simp
  simp [CStr.ptr, CStr.bytes, strlen, h_idx, CStr.length]

/-- A string is read up to its terminator. -/
@[simp] theorem readString_bytes (s : CStr) : readString s.bytes = .ok s.chars := by
  have h_idx : (s.chars ++ [0]).idxOf 0 = s.chars.length := by
    rw [List.idxOf_append_of_notMem s.noNul]
    simp
  simp [CStr.bytes, readString, h_idx]

/-- What lies behind the terminator is not read. -/
theorem readString_bytes_append (s : CStr) (rest : List UInt8) :
    readString (s.bytes ++ rest) = .ok s.chars := by
  have h_idx : (s.chars ++ 0 :: rest).idxOf 0 = s.chars.length := by
    rw [List.idxOf_append_of_notMem s.noNul]
    simp
  simp [CStr.bytes, readString, h_idx]

/-- Without a terminator the read leaves the block. -/
theorem readString_of_notMem {block : List UInt8} (h : (0 : UInt8) ∉ block) :
    readString block = .error .outOfBounds :=
  if_neg h

/-- What comes out of `readString` holds no terminator. -/
theorem zero_notMem_of_readString {block s : List UInt8} (h : readString block = .ok s) :
    (0 : UInt8) ∉ s := by
  unfold readString at h
  split at h
  · -- what is taken ends in front of the first zero
    obtain rfl := Except.ok.inj h
    exact fun h_mem => (List.mem_take_iff_idxOf_lt ‹_›).mp h_mem |>.ne rfl
  · cases h

/-- A string that is read is shorter than the memory that it is read from. -/
theorem length_lt_of_readString {block s : List UInt8} (h : readString block = .ok s) :
    s.length < block.length := by
  unfold readString at h
  split at h
  next h_mem =>
    obtain rfl := Except.ok.inj h
    have h_lt := List.idxOf_lt_length_of_mem h_mem
    rw [List.length_take]
    omega
  · cases h

/-- The bytes behind the pointer, up to the terminator. -/
theorem take_ptr (s : CStr) : s.ptr.take (s.length + 1) = s.bytes := by
  change s.bytes.take (s.length + 1) = s.bytes
  rw [← CStr.length_bytes, List.take_length]

/-- The string and its terminator can be read, and nothing behind them. -/
@[simp] theorem readable_ptr (s : CStr) (n : ℕ) : s.ptr.Readable n ↔ n ≤ s.length + 1 := by
  rw [← CStr.length_bytes]
  rfl

/-! ### Arrays of characters -/

namespace CStr

/-- The pointer `n + s`: the string behind the first `n` characters. -/
def drop (n : ℕ) (s : CStr) : CStr :=
  ⟨s.chars.drop n, fun h => s.noNul (List.mem_of_mem_drop h)⟩

instance : Append CStr :=
  ⟨fun s t => ⟨s.chars ++ t.chars, fun h => (List.mem_append.mp h).elim s.noNul t.noNul⟩⟩

@[simp] theorem length_drop (n : ℕ) (s : CStr) : (s.drop n).length = s.length - n :=
  List.length_drop

@[simp] theorem length_append (s t : CStr) : (s ++ t).length = s.length + t.length :=
  List.length_append

/-- Dropping one character more than a prefix has takes one character of what follows. -/
theorem drop_append (s t : CStr) (n : ℕ) : (s ++ t).drop (s.length + n) = t.drop n := by
  apply CStr.ext
  change (s.chars ++ t.chars).drop (s.chars.length + n) = t.chars.drop n
  rw [List.drop_append, List.drop_of_length_le (Nat.le_add_right _ n), List.nil_append,
    Nat.add_sub_cancel_left]

end CStr

/-- A `char[n]` that holds a string. -/
@[ext] structure CharArray (n : ℕ) where
  str : CStr
  fits : str.length < n
  deriving DecidableEq

/-! ### Slots -/

/-- What a `char *` in an array may be, with the block it points to: memory never written, the
null pointer of a `malloc` that found no memory, or the pointer to a block. -/
inductive Slot
  | uninit
  | null
  | block (bytes : List UInt8)
  deriving DecidableEq

instance : CPointer Slot := ⟨.null⟩

/-- The `malloc` that finds memory. -/
def Malloc.succeeds : Malloc Slot := fun _ bytes => .block bytes

/-- A `malloc` that finds memory, or that does not. -/
def mallocThat (ok : Bool) : Malloc Slot := if ok then Malloc.succeeds else Malloc.fails Slot

/-- The string behind a slot. -/
def Slot.string : Slot → Except Fault (List UInt8)
  | .uninit => .error .uninitialized
  | .null => .error .nullPointer
  | .block bytes => readString bytes

/-! ### Lengths through `int` -/

/-- Conversion of a `size_t` to `int`: reduction modulo `2 ^ 32` into the signed range. -/
def intOfSize (n : ℕ) : ℤ := Int.bmod n (2 ^ 32)

/-- Conversion of an `int` to `size_t`: reduction modulo `2 ^ 64`. -/
def sizeOfInt (i : ℤ) : ℕ := (i % 2 ^ 64).toNat

/-- The byte count that `malloc` and `memcpy` receive for a string of length `len`, when
`len + 1` is kept in an `int`. -/
def copySize (len : ℕ) : ℕ := sizeOfInt (intOfSize (len + 1))

/-- A length that an `int` can say. -/
theorem copySize_of_lt {len : ℕ} (h : len + 1 < 2 ^ 31) : copySize len = len + 1 := by
  unfold copySize intOfSize sizeOfInt
  rw [Int.bmod_def]
  split <;> omega

/-- **Which lengths make it through an `int`**: those that fit, and the largest of a `size_t`, which
become negative and come back. -/
theorem copySize_eq_iff {len : ℕ} (h : len + 1 < 2 ^ 64) :
    copySize len = len + 1 ↔ len + 1 < 2 ^ 31 ∨ 2 ^ 64 - 2 ^ 31 ≤ len + 1 := by
  unfold copySize intOfSize sizeOfInt
  rw [Int.bmod_def]
  split <;> omega

/-- A byte count is either the one asked for or less, or it belongs to a negative `int`. -/
theorem copySize_le_or (len : ℕ) : copySize len ≤ len + 1 ∨ 2 ^ 63 ≤ copySize len := by
  unfold copySize intOfSize sizeOfInt
  rw [Int.bmod_def]
  split <;> omega

end CMem
