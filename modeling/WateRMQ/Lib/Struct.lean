import Mathlib.Algebra.BigOperators.Group.List.Basic
import WateRMQ.Lib.Memory

/-!
# A `struct` of arrays

The members of a `struct` that are arrays of characters lie one after the other, without padding. So
the bytes of the `struct` are known from the list of its members and their sizes.

* `address size l a` — where the member `a` begins;
* `field`, `copyTo` — the bytes of a member, and what a copy to a member makes of all bytes.

A copy that is no longer than its member leaves the others alone (`field_copyTo_of_ne`), because two
members have no byte in common (`address_disjoint`). A longer one goes on with the next member.
-/

namespace CMem
namespace Struct

variable {ι : Type} [DecidableEq ι] {size : ι → ℕ} {l : List ι} {a b : ι} {m : Bytes}
  {bs : List UInt8}

/-- Where the member `a` begins. -/
def address (size : ι → ℕ) : List ι → ι → ℕ
  | [], _ => 0
  | k :: l, a => if a = k then 0 else size k + address size l a

/-- The size of the whole. -/
def total (size : ι → ℕ) (l : List ι) : ℕ := (l.map size).sum

/-- A member lies inside the whole. -/
theorem address_add_size_le (h : a ∈ l) : address size l a + size a ≤ total size l := by
  induction l with
  | nil => cases h
  | cons k l ih =>
    rw [address, total, List.map_cons, List.sum_cons]
    split
    next h_eq =>
      subst h_eq
      omega
    next h_ne =>
      have h_le := ih ((List.mem_cons.mp h).resolve_left h_ne)
      rw [total] at h_le
      omega

/-- Two members have no byte in common. -/
theorem address_disjoint (ha : a ∈ l) (hb : b ∈ l) (h_ne : a ≠ b) :
    address size l a + size a ≤ address size l b ∨
      address size l b + size b ≤ address size l a := by
  induction l with
  | nil => cases ha
  | cons k l ih =>
    rw [address, address]
    -- one of the two may be the first member
    by_cases h_a : a = k
    · subst h_a
      rw [if_pos rfl, if_neg h_ne.symm]
      omega
    · by_cases h_b : b = k
      · subst h_b
        rw [if_pos rfl, if_neg h_a]
        omega
      · rw [if_neg h_a, if_neg h_b]
        have h := ih ((List.mem_cons.mp ha).resolve_left h_a)
          ((List.mem_cons.mp hb).resolve_left h_b)
        omega

/-- The bytes of the member `a`. -/
def field (size : ι → ℕ) (l : List ι) (m : Bytes) (a : ι) : List UInt8 :=
  loadBytes m (address size l a) (size a)

/-- A copy of `bs` to the beginning of the member `a`, however long it is. -/
def copyTo (size : ι → ℕ) (l : List ι) (m : Bytes) (a : ι) (bs : List UInt8) : Bytes :=
  storeBytes m (address size l a) bs

@[simp] theorem length_field (m : Bytes) (a : ι) : (field size l m a).length = size a :=
  length_loadBytes m _ _

/-- A copy that fits changes no other member. -/
theorem field_copyTo_of_ne (ha : a ∈ l) (hb : b ∈ l) (h_ne : b ≠ a) (h : bs.length ≤ size a) :
    field size l (copyTo size l m a bs) b = field size l m b := by
  have h_disjoint : address size l b + size b ≤ address size l a ∨
      address size l a + size a ≤ address size l b := address_disjoint hb ha h_ne
  exact loadBytes_storeBytes_disjoint m (by omega)

/-- A string that fits is what the member then holds. -/
theorem readString_field_copyTo (m : Bytes) {s : CStr} (h : s.length < size a) :
    readString (field size l (copyTo size l m a s.bytes) a) = .ok s.chars := by
  have h_length : s.bytes.length ≤ size a := by
    rw [CStr.length_bytes]
    exact h
  rw [field, copyTo, loadBytes_storeBytes_same m _ h_length, readString_bytes_append]

end Struct

end CMem
