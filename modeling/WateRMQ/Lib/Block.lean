import WateRMQ.Lib.CString

/-!
# Strings copied into a block

A block is the list of its bytes; `memcpy` and `memset` write to its beginning and must stay inside
of it.

A program that copies strings into one block, each with its characters alone and without a
terminator, gets the last of them back only by luck. `readString_memcpys_iff` says when: no string
was longer than the one that the block was made for, and the last one is just as long. A shorter one
leaves the end of an older one behind it; a string of one character more takes the terminator away,
and no later one brings it back.
-/

namespace CMem

/-- `memcpy` of the bytes `bs` to the beginning of a block. -/
def memcpy (block bs : List UInt8) : Except Fault (List UInt8) :=
  if bs.length ≤ block.length then .ok (bs ++ block.drop bs.length) else .error .outOfBounds

/-- `memset` of the first `n` bytes of a block. -/
def memset (block : List UInt8) (byte : UInt8) (n : ℕ) : Except Fault (List UInt8) :=
  memcpy block (List.replicate n byte)

/-- The copies of the characters of some strings, one after the other. -/
def memcpys (block : List UInt8) (strings : List CStr) : Except Fault (List UInt8) :=
  strings.foldlM (fun block s => memcpy block s.chars) block

/-- The characters of `s`, and behind them those of `t` that they do not cover. -/
def CStr.over (s t : CStr) : CStr := s ++ t.drop s.length

/-- The last of some strings, or `t` when there is none. -/
def lastString (t : CStr) (strings : List CStr) : CStr := strings.getLast?.getD t

variable {s t : CStr} {strings : List CStr} {block block' bs : List UInt8}

theorem memcpy_of_le (h : bs.length ≤ block.length) :
    memcpy block bs = .ok (bs ++ block.drop bs.length) :=
  if_pos h

theorem le_of_memcpy (h : memcpy block bs = .ok block') : bs.length ≤ block.length := by
  by_contra h_lt
  rw [memcpy, if_neg h_lt] at h
  cases h

/-- A block of zeros with a string in front of them. -/
theorem memset_memcpy {n : ℕ} (h : block.length = s.length + 1) (hn : n = s.length + 1) :
    (memset block 0 n >>= fun block => memcpy block s.chars) = .ok s.bytes := by
  subst hn
  have h_zeros : memset block 0 (s.length + 1) = .ok (List.replicate (s.length + 1) 0) := by
    rw [memset, memcpy_of_le (by simp [h]), List.length_replicate, ← h, List.drop_length,
      List.append_nil]
  rw [h_zeros]
  change memcpy (List.replicate (s.length + 1) 0) s.chars = .ok s.bytes
  have h_le : s.chars.length ≤ (List.replicate (s.length + 1) (0 : UInt8)).length := by
    rw [List.length_replicate]
    exact Nat.le_succ s.length
  -- of the zeros the last one is left
  have h_rest : s.length + 1 - s.chars.length = 1 := by
    change s.chars.length + 1 - s.chars.length = 1
    exact Nat.add_sub_cancel_left s.chars.length 1
  rw [memcpy_of_le h_le, List.drop_replicate, h_rest]
  rfl

@[simp] theorem CStr.length_over (s t : CStr) : (s.over t).length = max s.length t.length := by
  rw [CStr.over, CStr.length_append, CStr.length_drop]
  omega

theorem CStr.over_of_length_eq (h : s.length = t.length) : s.over t = s := by
  apply CStr.ext
  change s.chars ++ t.chars.drop s.length = s.chars
  rw [h, CStr.length, List.drop_length, List.append_nil]

/-- A string that is not too long is laid over the one in the block. -/
theorem memcpy_bytes (h : s.length ≤ t.length) : memcpy t.bytes s.chars = .ok (s.over t).bytes := by
  have h_le : s.chars.length ≤ t.bytes.length := by
    rw [CStr.length_bytes]
    exact Nat.le_succ_of_le h
  have h_drop : (t.chars ++ [0]).drop s.chars.length = t.chars.drop s.length ++ [0] :=
    List.drop_append_of_le_length h
  rw [memcpy_of_le h_le]
  change Except.ok (s.chars ++ (t.chars ++ [0]).drop s.chars.length) = .ok _
  rw [h_drop, ← List.append_assoc]
  rfl

/-- A string of one character more than the block was made for takes the terminator away. -/
theorem notMem_of_memcpy_bytes (h : memcpy t.bytes s.chars = .ok block)
    (h_lt : t.length < s.length) : (0 : UInt8) ∉ block := by
  have h_le := le_of_memcpy h
  rw [memcpy_of_le h_le] at h
  obtain rfl := Except.ok.inj h
  have h_length : t.bytes.length ≤ s.chars.length := by
    rw [CStr.length_bytes]
    exact h_lt
  rw [List.drop_eq_nil_of_le h_length, List.append_nil]
  exact s.noNul

/-- No copy of characters brings a terminator. -/
theorem memcpys_notMem (h : (0 : UInt8) ∉ block) (h_run : memcpys block strings = .ok block') :
    (0 : UInt8) ∉ block' := by
  induction strings generalizing block with
  | nil =>
    obtain rfl := Except.ok.inj h_run
    exact h
  | cons s strings ih =>
    rw [memcpys, List.foldlM_cons] at h_run
    obtain ⟨block₁, h_first, h_rest⟩ := bind_eq_ok.mp h_run
    rw [memcpy_of_le (le_of_memcpy h_first)] at h_first
    obtain rfl := Except.ok.inj h_first
    -- a byte of the new block is one of the string, or one that was there
    refine ih ?_ h_rest
    intro h_mem
    rcases List.mem_append.mp h_mem with h_mem | h_mem
    · exact s.noNul h_mem
    · exact h (List.mem_of_mem_drop h_mem)

/-- Strings that are not too long are laid over one another. -/
theorem memcpys_bytes (h : ∀ s ∈ strings, s.length ≤ t.length) :
    memcpys t.bytes strings = .ok (strings.foldl (fun t s => s.over t) t).bytes := by
  induction strings generalizing t with
  | nil => rfl
  | cons s strings ih =>
    obtain ⟨h_s, h_strings⟩ := List.forall_mem_cons.mp h
    rw [memcpys, List.foldlM_cons, memcpy_bytes h_s]
    refine ih fun s' h_s' => ?_
    rw [CStr.length_over]
    exact le_max_of_le_right (h_strings s' h_s')

/-- A block that still has a terminator got no string that is too long. -/
theorem le_of_memcpys (h : memcpys t.bytes strings = .ok block) (h_mem : (0 : UInt8) ∈ block) :
    ∀ s ∈ strings, s.length ≤ t.length := by
  induction strings generalizing t with
  | nil => simp
  | cons s strings ih =>
    rw [memcpys, List.foldlM_cons] at h
    obtain ⟨block₁, h_first, h_rest⟩ := bind_eq_ok.mp h
    -- too long a string takes the terminator away, and it does not come back
    have h_s : s.length ≤ t.length := by
      by_contra h_lt
      have h_not := notMem_of_memcpy_bytes h_first (Nat.lt_of_not_le h_lt)
      exact memcpys_notMem h_not h_rest h_mem
    -- with it laid over the first one, the block is made for a string of the same length
    rw [memcpy_bytes h_s] at h_first
    obtain rfl := Except.ok.inj h_first
    have h_strings := ih h_rest
    rw [CStr.length_over, max_eq_right h_s] at h_strings
    exact List.forall_mem_cons.mpr ⟨h_s, h_strings⟩

/-- Strings laid over one another are as long as the longest. -/
theorem length_foldl_over (h : ∀ s ∈ strings, s.length ≤ t.length) :
    (strings.foldl (fun t s => s.over t) t).length = t.length := by
  induction strings generalizing t with
  | nil => rfl
  | cons s strings ih =>
    obtain ⟨h_s, h_strings⟩ := List.forall_mem_cons.mp h
    have h_length : (s.over t).length = t.length := by
      rw [CStr.length_over, max_eq_right h_s]
    rw [List.foldl_cons, ih fun s' h_s' => h_length.symm ▸ h_strings s' h_s', h_length]

/-- The last string, when it covers all. -/
theorem foldl_over_eq_iff (h : ∀ s ∈ strings, s.length ≤ t.length) :
    strings.foldl (fun t s => s.over t) t = lastString t strings ↔
      (lastString t strings).length = t.length := by
  refine ⟨?_, ?_⟩
  · intro h_eq
    rw [← h_eq, length_foldl_over h]
  · intro h_last
    rcases List.eq_nil_or_concat' strings with rfl | ⟨pre, s, rfl⟩
    · rfl
    · -- what the last string is laid over has its length
      have h_s : lastString t (pre ++ [s]) = s := by simp [lastString]
      have h_pre := length_foldl_over fun s' h_s' => h s' (List.mem_append_left [s] h_s')
      rw [h_s] at h_last ⊢
      rw [List.foldl_append, List.foldl_cons, List.foldl_nil]
      exact CStr.over_of_length_eq (h_last.trans h_pre.symm)

/-- **When the last string is what the block holds.** -/
theorem readString_memcpys_iff :
    (∃ block, memcpys t.bytes strings = .ok block ∧
      readString block = .ok (lastString t strings).chars) ↔
      (∀ s ∈ strings, s.length ≤ t.length) ∧ (lastString t strings).length = t.length := by
  refine ⟨?_, ?_⟩
  · rintro ⟨block, h_run, h_read⟩
    -- what is read from the block ends at a terminator
    have h_mem : (0 : UInt8) ∈ block := by
      by_contra h_not
      rw [readString_of_notMem h_not] at h_read
      cases h_read
    have h_le := le_of_memcpys h_run h_mem
    rw [memcpys_bytes h_le] at h_run
    obtain rfl := Except.ok.inj h_run
    rw [readString_bytes] at h_read
    exact ⟨h_le, (foldl_over_eq_iff h_le).mp (CStr.ext (Except.ok.inj h_read))⟩
  · rintro ⟨h_le, h_last⟩
    refine ⟨_, memcpys_bytes h_le, ?_⟩
    rw [(foldl_over_eq_iff h_le).mpr h_last, readString_bytes]

end CMem
