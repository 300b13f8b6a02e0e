import WateRMQ.Lib.Assoc
import WateRMQ.Amqp.Properties

/-!
# Merged tables

`amqp_table_clone` of `amqp_table.c` and `amqp_merge_capabilities` of `amqp_socket.c`, which lays
the properties that a program gives over the default ones of the library.

`Table.override` is what the merged table is for: an entry of the second table counts for its key,
and two tables under one key are merged again. `amqp_merge_capabilities_spec` says that the code
computes it when no key is twice in the second table, and `Table.mergeable` says when it refuses:
two tables without entries ask for no memory, and get none. For a key that is twice in the second
table the code reads an entry of the first one that need not be there.
-/

namespace WateRMQ
namespace Amqp

open CMem Assoc

/-! ### Functions that allocate -/

/-- A function that takes memory from a pool: `memory k` says whether the allocation number `k`
succeeds, and the state counts the allocations. -/
abbrev Allocating (α : Type) := ReaderT (ℕ → Bool) (StateT ℕ (Except Failure)) α

/-- What a function gives whose first allocation is that of number 0. -/
def Allocating.result {α : Type} (x : Allocating α) (memory : ℕ → Bool) : Except Failure α :=
  (x memory 0).map Prod.fst

/-- A call of `amqp_pool_alloc` whose caller returns `AMQP_STATUS_NO_MEMORY` when it gives nothing.
It gives nothing for an amount of zero. -/
def allocate (amount : ℕ) : Allocating Unit := fun memory n =>
  if amount = 0 ∨ memory n = false then .error (.status .noMemory) else .ok ((), n + 1)

/-- A function that returns with a failure. -/
def refuse {α : Type} (e : Failure) : Allocating α := fun _ _ => .error e

/-- With all the memory that it asks for, `x` gives `a` if `p`, and returns a status if not. When an
allocation fails it may return `AMQP_STATUS_NO_MEMORY`. -/
def Computes {α : Type} (x : Allocating α) (p : Bool) (a : α) : Prop :=
  ∀ memory n, (p = true ∧ ∃ k, x memory n = .ok (a, k)) ∨
    ∃ e, x memory n = .error (.status e) ∧ (p = false ∨ e = .noMemory ∧ ∃ k, memory k = false)

section Computes

variable {α β : Type} {x : Allocating α} {f : α → Allocating β} {p q : Bool} {a : α} {b : β}

/-- A value needs no memory. -/
theorem computes_pure (a : α) : Computes (pure a) true a := fun _ n => .inl ⟨rfl, n, rfl⟩

/-- Two parts of a function, one after the other. -/
theorem Computes.bind (h : Computes x p a) (h_f : Computes (f a) q b) :
    Computes (x >>= f) (p && q) b := by
  intro memory n
  rcases h memory n with ⟨rfl, k, h_ok⟩ | ⟨e, h_error, h_why⟩
  · have h_run : (x >>= f) memory n = f a memory k := by
      change (x memory n).bind _ = _
      rw [h_ok]
      rfl
    rw [h_run, Bool.true_and]
    exact h_f memory k
  · have h_run : (x >>= f) memory n = .error (.status e) := by
      change (x memory n).bind _ = _
      rw [h_error]
      rfl
    refine .inr ⟨e, h_run, h_why.imp ?_ id⟩
    rintro rfl
    exact Bool.false_and q

/-- A function that gives a value ends with it. -/
theorem Computes.map (h : Computes x p a) (g : α → β) :
    Computes (x >>= fun y => pure (g y)) p (g a) := by
  rw [← Bool.and_true p]
  exact h.bind (computes_pure (g a))

/-- Memory for something is there, unless the allocation fails. -/
theorem computes_allocate (amount : ℕ) : Computes (allocate amount) (amount ≠ 0) () := by
  intro memory n
  by_cases h_amount : amount = 0
  · exact .inr ⟨.noMemory, if_pos (.inl h_amount), .inl (decide_eq_false (not_not.mpr h_amount))⟩
  · cases h_memory : memory n with
    | true =>
      have h_go : ¬ (amount = 0 ∨ memory n = false) := by
        rw [h_memory]
        exact fun h => h.elim h_amount nofun
      exact .inl ⟨decide_eq_true h_amount, n + 1, if_neg h_go⟩
    | false => exact .inr ⟨.noMemory, if_pos (.inr h_memory), .inr ⟨rfl, n, h_memory⟩⟩

/-- Memory that something asks for first. -/
theorem Computes.allocate {amount : ℕ} (h : amount ≠ 0) (h_x : Computes x p a) :
    Computes (allocate amount >>= fun _ => x) p a := by
  have h_both := (computes_allocate amount).bind (f := fun _ => x) h_x
  rwa [decide_eq_true h, Bool.true_and] at h_both

/-- A function that refuses. -/
theorem computes_refuse (e : Status) (a : α) : Computes (refuse (.status e)) false a :=
  fun _ _ => .inr ⟨e, rfl, .inl rfl⟩

/-- What a function gives that computes something. -/
theorem Computes.result (h : Computes x p a) (memory : ℕ → Bool) :
    (p = true ∧ x.result memory = .ok a) ∨ ∃ e, x.result memory = .error (.status e) ∧
      (p = false ∨ e = .noMemory ∧ ∃ k, memory k = false) := by
  rw [Allocating.result]
  rcases h memory 0 with ⟨h_p, k, h_ok⟩ | ⟨e, h_error, h_why⟩
  · rw [h_ok]
    exact .inl ⟨h_p, rfl⟩
  · rw [h_error]
    exact .inr ⟨e, rfl, h_why⟩

/-- With all memory, a function that computes something gives it. -/
theorem Computes.of_memory (h : Computes x true a) {memory : ℕ → Bool}
    (h_memory : ∀ k, memory k = true) (n : ℕ) : ∃ k, x memory n = .ok (a, k) := by
  rcases h memory n with ⟨-, h_ok⟩ | ⟨-, -, h_false | ⟨-, k, h_k⟩⟩
  · exact h_ok
  · cases h_false
  · cases (h_memory k).symm.trans h_k

end Computes

/-! ### The functions of the source -/

/-- The copy of the bytes of a string. -/
def cloneBytes (bytes : List UInt8) : Allocating Unit :=
  if bytes.length = 0 then pure () else allocate bytes.length

/-- `amqp_table_clone` around its loop. -/
def tableClone (original : Table) (loop : Allocating Table) : Allocating Table :=
  if original.length = 0 then pure []
  else do
    allocate original.length
    loop

mutual

/-- `amqp_field_value_clone`. The pointer of an array without entries is null, as it is behind
`amqp_decode_array`. -/
def amqp_field_value_clone : FieldValue → Allocating FieldValue
  | .utf8 bytes => do
    cloneBytes bytes
    return .utf8 bytes
  | .bytes bytes => do
    cloneBytes bytes
    return .bytes bytes
  | .array entries =>
    if entries.length = 0 then pure (.array [])
    else do
      allocate entries.length
      let entries ← cloneArray entries
      return .array entries
  | .table entries => do
    let entries ← tableClone entries (cloneEntries entries)
    return .table entries
  | .boolean boolean => pure (.boolean boolean)
  | .number kind value => pure (.number kind value)
  | .decimal decimals value => pure (.decimal decimals value)
  | .void => pure .void

/-- The loop over the entries of an array. -/
def cloneArray : List FieldValue → Allocating (List FieldValue)
  | [] => pure []
  | v :: entries => do
    let v ← amqp_field_value_clone v
    let entries ← cloneArray entries
    return v :: entries

/-- The loop of `amqp_table_clone`, with `amqp_table_entry_clone`. -/
def cloneEntries : List (List UInt8 × FieldValue) → Allocating (List (List UInt8 × FieldValue))
  | [] => pure []
  | (key, v) :: entries =>
    if key.length = 0 then refuse (.status .invalidParameter)
    else do
      allocate key.length
      let v ← amqp_field_value_clone v
      let entries ← cloneEntries entries
      return (key, v) :: entries

end

/-- `amqp_table_clone`. -/
def amqp_table_clone (original : Table) : Allocating Table :=
  tableClone original (cloneEntries original)

/-- `amqp_merge_capabilities` of two tables around its loop: the entries of both have room in
`temp_result`, which is copied in the end. -/
def mergeTables (base add : Table) (loop : Allocating Table) : Allocating Table := do
  allocate (base.length + add.length)
  let temp_result ← loop
  amqp_table_clone temp_result

mutual

/-- What the loop of `amqp_merge_capabilities` makes of the value of an entry `e` that it has found,
where `be` is what it finds in `base`. -/
def mergeValue (be : Option FieldValue) (e : FieldValue) : FieldValue → Allocating FieldValue
  | .table add =>
    match e with
    | .table _ =>
      match be with
      | none => refuse (.fault .nullPointer)
      | some (.table base) => do
        let result ← mergeTables base add (mergeEntries base add base)
        return .table result
      -- the value is not a table, but it is read as one
      | some _ => refuse (.fault .uninitialized)
    | _ => pure (.table add)
  | v => pure v

/-- The loop of `amqp_merge_capabilities` over the entries of `add`. -/
def mergeEntries (base : List (List UInt8 × FieldValue)) :
    List (List UInt8 × FieldValue) → List (List UInt8 × FieldValue) →
      Allocating (List (List UInt8 × FieldValue))
  | [], temp_result => pure temp_result
  | (key, v) :: add, temp_result =>
    match temp_result.lookup key with
    | none => mergeEntries base add (put key v temp_result)
    | some e => do
      let v ← mergeValue (base.lookup key) e v
      mergeEntries base add (put key v temp_result)

end

/-- `amqp_merge_capabilities`. There is no memory for two tables without entries, so it fails. -/
def amqp_merge_capabilities (base : Table) : Option Table → Allocating Table
  | none => amqp_table_clone base
  | some add => mergeTables base add (mergeEntries base add base)

/-! ### What it is for -/

mutual

/-- A value laid over the one that is there. -/
def FieldValue.override (e : FieldValue) : FieldValue → FieldValue
  | .table add =>
    match e with
    | .table base => .table (overrideEntries base add)
    | _ => .table add
  | v => v

/-- The entries of a table laid over another one. -/
def overrideEntries (base : List (List UInt8 × FieldValue)) :
    List (List UInt8 × FieldValue) → List (List UInt8 × FieldValue)
  | [] => base
  | (key, v) :: add =>
    overrideEntries (put key ((base.lookup key).elim v fun e => e.override v) base) add

end

/-- A table laid over another one. -/
def Table.override (base add : Table) : Table := overrideEntries base add

/-! ### The copy of a table -/

mutual

/-- No key in the value is empty. -/
def FieldValue.keyed : FieldValue → Bool
  | .array entries => keyedArray entries
  | .table entries => keyedEntries entries
  | _ => true

/-- No key in the entries of an array is empty. -/
def keyedArray : List FieldValue → Bool
  | [] => true
  | v :: entries => v.keyed && keyedArray entries

/-- No key in a table is empty. -/
def keyedEntries : List (List UInt8 × FieldValue) → Bool
  | [] => true
  | (key, v) :: entries => key.length ≠ 0 && (v.keyed && keyedEntries entries)

end

/-- An empty string needs no memory. -/
theorem computes_cloneBytes (bytes : List UInt8) : Computes (cloneBytes bytes) true () := by
  rw [cloneBytes]
  split
  case isTrue => exact computes_pure ()
  case isFalse h =>
    rw [← decide_eq_true h]
    exact computes_allocate _

/-- A table is copied if its entries are. One without entries is not allocated. -/
theorem computes_tableClone {original : Table} {loop : Allocating Table}
    (h : Computes loop (keyedEntries original) original) :
    Computes (tableClone original loop) (keyedEntries original) original := by
  rw [tableClone]
  split
  case isTrue h_empty =>
    rw [List.length_eq_zero_iff.mp h_empty]
    exact computes_pure []
  case isFalse h_entries => exact h.allocate h_entries

mutual

/-- A copy of a value is that value, and only an empty key is refused. -/
theorem computes_amqp_field_value_clone :
    ∀ v : FieldValue, Computes (amqp_field_value_clone v) v.keyed v
  | .array entries => by
    rw [amqp_field_value_clone, FieldValue.keyed]
    split
    case isTrue h_empty =>
      rw [List.length_eq_zero_iff.mp h_empty]
      exact computes_pure _
    case isFalse h_entries =>
      exact ((computes_cloneArray entries).map FieldValue.array).allocate h_entries
  | .table entries => by
    rw [amqp_field_value_clone, FieldValue.keyed]
    exact (computes_tableClone (computes_cloneEntries entries)).map FieldValue.table
  | .utf8 bytes => by
    rw [amqp_field_value_clone]
    exact (computes_cloneBytes bytes).map fun _ => FieldValue.utf8 bytes
  | .bytes bytes => by
    rw [amqp_field_value_clone]
    exact (computes_cloneBytes bytes).map fun _ => FieldValue.bytes bytes
  | .boolean _ => computes_pure _
  | .number _ _ => computes_pure _
  | .decimal _ _ => computes_pure _
  | .void => computes_pure _

theorem computes_cloneArray : ∀ l, Computes (cloneArray l) (keyedArray l) l
  | [] => computes_pure []
  | v :: entries => by
    rw [cloneArray, keyedArray]
    exact (computes_amqp_field_value_clone v).bind ((computes_cloneArray entries).map _)

theorem computes_cloneEntries : ∀ l, Computes (cloneEntries l) (keyedEntries l) l
  | [] => computes_pure []
  | (key, v) :: entries => by
    rw [cloneEntries, keyedEntries]
    -- an empty key is refused before anything is allocated for it
    split
    case isTrue h_key =>
      rw [decide_eq_false (not_not.mpr h_key)]
      exact computes_refuse _ _
    case isFalse =>
      exact (computes_allocate key.length).bind
        ((computes_amqp_field_value_clone v).bind ((computes_cloneEntries entries).map _))

end

/-- A copy is the table that it is a copy of. There is none of a table with an empty key in it. -/
theorem computes_amqp_table_clone (t : Table) : Computes (amqp_table_clone t) (keyedEntries t) t :=
  computes_tableClone (computes_cloneEntries t)

/-! ### The merged table -/

mutual

/-- No key is twice in a table, wherever it lies in tables. -/
def FieldValue.Distinct : FieldValue → Prop
  | .table entries => (entries.map Prod.fst).Nodup ∧ DistinctEntries entries
  | _ => True

/-- No key is twice in one of the tables under the keys. -/
def DistinctEntries : List (List UInt8 × FieldValue) → Prop
  | [] => True
  | (_, v) :: entries => v.Distinct ∧ DistinctEntries entries

end

/-- No key is twice in the table or in one of the tables in it. -/
def Table.Distinct (t : Table) : Prop := (t.map Prod.fst).Nodup ∧ DistinctEntries t

mutual

/-- A value can be laid over the one that is there: where two tables meet, one of them has an entry,
what they have under one key can be laid over each other, and no key of both together is empty. -/
def FieldValue.mergeable (e : FieldValue) : FieldValue → Bool
  | .table add =>
    match e with
    | .table base =>
      base.length + add.length ≠ 0 &&
        (mergeableEntries base add && keyedEntries (overrideEntries base add))
    | _ => true
  | _ => true

/-- The values of a table can be laid over what another one has under their keys. -/
def mergeableEntries (base : List (List UInt8 × FieldValue)) :
    List (List UInt8 × FieldValue) → Bool
  | [] => true
  | (key, v) :: add =>
    (base.lookup key).elim true (fun e => e.mergeable v) && mergeableEntries base add

end

/-- A table can be laid over another one. -/
def Table.mergeable (base add : Table) : Bool :=
  base.length + add.length ≠ 0 && (mergeableEntries base add && keyedEntries (base.override add))

/-- Two tables are merged if their entries are and the result can be copied. -/
theorem computes_mergeTables {base add r : Table} {loop : Allocating Table} {p : Bool}
    (h : Computes loop p r) :
    Computes (mergeTables base add loop)
      (base.length + add.length ≠ 0 && (p && keyedEntries r)) r :=
  (computes_allocate _).bind (h.bind (computes_amqp_table_clone r))

mutual

/-- Where `e` is what `base` has under the key, a value is laid over it. -/
theorem computes_mergeValue (e : FieldValue) :
    ∀ v : FieldValue, v.Distinct → Computes (mergeValue (some e) e v) (e.mergeable v) (e.override v)
  | .table add, h => by
    rw [FieldValue.Distinct] at h
    -- only a table on a table is merged again; every other value takes the place of the old one
    cases e with
    | table base =>
      rw [mergeValue, FieldValue.mergeable, FieldValue.override]
      have h_entries := computes_mergeEntries base add base h.1 h.2 fun _ _ => rfl
      exact (computes_mergeTables h_entries).map FieldValue.table
    | _ => exact computes_pure _
  | .boolean _, _ => computes_pure _
  | .number _ _, _ => computes_pure _
  | .decimal _ _, _ => computes_pure _
  | .utf8 _, _ => computes_pure _
  | .bytes _, _ => computes_pure _
  | .array _, _ => computes_pure _
  | .void, _ => computes_pure _

/-- While no key comes twice, what is found under the next one is what `base` has there. -/
theorem computes_mergeEntries (base : List (List UInt8 × FieldValue)) :
    ∀ add temp : List (List UInt8 × FieldValue), (add.map Prod.fst).Nodup → DistinctEntries add →
      (∀ key ∈ add.map Prod.fst, temp.lookup key = base.lookup key) →
      Computes (mergeEntries base add temp) (mergeableEntries base add) (overrideEntries temp add)
  | [], temp, _, _, _ => computes_pure temp
  | (key, v) :: add, temp, h_nodup, h_distinct, h_same => by
    rw [DistinctEntries] at h_distinct
    obtain ⟨h_key, h_rest⟩ := List.nodup_cons.mp h_nodup
    -- what is put under this key is not found under a later one
    have h_later : ∀ w, ∀ k ∈ add.map Prod.fst, (put key w temp).lookup k = base.lookup k := by
      intro w k h_k
      have h_ne : k ≠ key := by
        rintro rfl
        exact h_key h_k
      rw [lookup_put_of_ne h_ne]
      exact h_same k (List.mem_cons_of_mem _ h_k)
    have h_next := fun w =>
      computes_mergeEntries base add (put key w temp) h_rest h_distinct.2 (h_later w)
    have h_be : temp.lookup key = base.lookup key := h_same key List.mem_cons_self
    rw [mergeEntries, mergeableEntries, overrideEntries, h_be]
    -- a new key, or one that `base` has: there its value is the entry of `base` itself
    cases base.lookup key with
    | none => exact h_next v
    | some e => exact (computes_mergeValue e v h_distinct.1).bind (h_next _)

end

/-- `amqp_merge_capabilities` lays `add` over `base`, when no key is twice in `add`. -/
theorem amqp_merge_capabilities_spec (base : Table) {add : Table} (h : add.Distinct) :
    Computes (amqp_merge_capabilities base (some add)) (base.mergeable add) (base.override add) :=
  computes_mergeTables (computes_mergeEntries base add base h.1 h.2 fun _ _ => rfl)

/-- Laying a table over another one is what `Assoc.override` does. -/
theorem overrideEntries_eq (base add : Table) :
    overrideEntries base add = Assoc.override FieldValue.override base add := by
  induction add generalizing base with
  | nil => rfl
  | cons e add ih =>
    obtain ⟨key, v⟩ := e
    rw [overrideEntries, override_cons]
    exact ih _

/-- **Merged tables**: let no key be twice in `add`. Then there is no fault. The merge succeeds if
`add` can be laid over `base`, unless an allocation fails, and only then. In the result an entry of
`add` counts for its key, and under a key that has tables in both these are merged again. The
entries have room where `amqp_merge_capabilities` puts them together. -/
theorem merged_lookup (memory : ℕ → Bool) (base : Table) {add : Table} (h : add.Distinct) :
    (∀ f, (amqp_merge_capabilities base (some add)).result memory ≠ .error (.fault f)) ∧
      (base.mergeable add = true →
        (∃ r, (amqp_merge_capabilities base (some add)).result memory = .ok r) ∨
          (amqp_merge_capabilities base (some add)).result memory = .error (.status .noMemory) ∧
            ∃ k, memory k = false) ∧
      ∀ r, (amqp_merge_capabilities base (some add)).result memory = .ok r →
        base.mergeable add = true ∧ r.length ≤ base.length + add.length ∧ ∀ key, r.lookup key =
          (add.lookup key).elim (base.lookup key) fun v =>
            some (combine FieldValue.override (base.lookup key) v) := by
  rcases (amqp_merge_capabilities_spec base h).result memory with
    ⟨h_mergeable, h_ok⟩ | ⟨e, h_error, h_why⟩
  · -- the merge succeeds: then it has laid `add` over `base`
    rw [h_ok]
    refine ⟨nofun, fun _ => .inl ⟨_, rfl⟩, fun r h_r => ?_⟩
    obtain rfl := Except.ok.inj h_r
    rw [Table.override, overrideEntries_eq]
    exact ⟨h_mergeable, length_override_le _ base add, lookup_override _ base h.1⟩
  · -- it fails: `add` cannot be laid over `base`, or there is no memory
    rw [h_error]
    refine ⟨nofun, fun h_mergeable => .inr ?_, nofun⟩
    rcases h_why with h_not | ⟨rfl, h_failed⟩
    · rw [h_mergeable] at h_not
      cases h_not
    · exact ⟨rfl, h_failed⟩

/-- A table within a table, where one of its two entries is given anew. -/
theorem merged_lookup_nested :
    Table.Distinct [([1], .table [([2], .boolean true)])] ∧
      ∃ r, (amqp_merge_capabilities
          [([1], .table [([2], .boolean false), ([3], .boolean false)])]
          (some [([1], .table [([2], .boolean true)])])).result (fun _ => true) = .ok r ∧
        r.lookup [1] = some (.table [([2], .boolean true), ([3], .boolean false)]) := by
  have h : Table.Distinct [([1], .table [([2], .boolean true)])] := by
    refine ⟨List.nodup_singleton _, ?_, trivial⟩
    rw [FieldValue.Distinct]
    exact ⟨List.nodup_singleton _, trivial, trivial⟩
  obtain ⟨-, h_succeeds, h_result⟩ := merged_lookup (fun _ => true)
    [([1], .table [([2], .boolean false), ([3], .boolean false)])] h
  refine ⟨h, ?_⟩
  rcases h_succeeds rfl with ⟨r, h_r⟩ | ⟨-, k, h_k⟩
  · exact ⟨r, h_r, (h_result r h_r).2.2 [1]⟩
  · cases h_k

/-! ### A key that is twice in the table -/

/-- The loop goes over the first entries and then over the others. -/
theorem mergeEntries_append (base rest : Table) : ∀ add temp : Table,
    mergeEntries base (add ++ rest) temp = mergeEntries base add temp >>= mergeEntries base rest
  | [], temp => rfl
  | (key, v) :: add, temp => by
    rw [List.cons_append, mergeEntries, mergeEntries]
    cases temp.lookup key with
    | none => exact mergeEntries_append base rest add _
    | some e =>
      dsimp only
      rw [bind_assoc]
      exact bind_congr fun w => mergeEntries_append base rest add _

/-- A function in which the first part ends with `a`, and the second with a failure. -/
theorem result_of_fails {α β : Type} {x : Allocating α} {f : α → Allocating β}
    {memory : ℕ → Bool} {n k : ℕ} {a : α} {e : Failure} (h : x memory n = .ok (a, k))
    (h_f : f a memory k = .error e) : (x >>= f) memory n = .error e := by
  change (x memory n).bind _ = _
  rw [h]
  exact h_f

/-- Two tables under a key that is twice in `add` and not in `base`: when the entries before the
second one can be laid over `base`, that one is merged with an entry of `base` that is not there. -/
theorem amqp_merge_capabilities_twice (base : Table) {before after : Table} {key : List UInt8}
    (first second : Table) (h_distinct : before.Distinct)
    (h_mergeable : mergeableEntries base before = true)
    (h_first : before.lookup key = some (.table first)) (h_base : base.lookup key = none) :
    (amqp_merge_capabilities base (some (before ++ (key, .table second) :: after))).result
      (fun _ => true) = .error (.fault .nullPointer) := by
  have h_all : ∀ k : ℕ, (fun _ => true : ℕ → Bool) k = true := fun _ => rfl
  have h_before := computes_mergeEntries base before base h_distinct.1 h_distinct.2 fun _ _ => rfl
  rw [h_mergeable] at h_before
  obtain ⟨k, h_k⟩ := h_before.of_memory h_all 1
  -- the first table is in `temp_result` as it is
  have h_temp : (overrideEntries base before).lookup key = some (.table first) := by
    rw [overrideEntries_eq, lookup_override _ base h_distinct.1, h_first, h_base]
    rfl
  have h_fault : mergeEntries base ((key, .table second) :: after) (overrideEntries base before)
      (fun _ => true) k = .error (.fault .nullPointer) := by
    rw [mergeEntries, h_temp, h_base]
    rfl
  have h_room : base.length + (before ++ (key, FieldValue.table second) :: after).length ≠ 0 := by
    rw [List.length_append, List.length_cons]
    omega
  have h_allocate : allocate (base.length + (before ++ (key, .table second) :: after).length)
      (fun _ => true) 0 = .ok ((), 1) := if_neg fun h => h.elim h_room nofun
  have h_loop : mergeEntries base (before ++ (key, .table second) :: after) base (fun _ => true) 1 =
      .error (.fault .nullPointer) := by
    rw [mergeEntries_append]
    exact result_of_fails h_k h_fault
  have h_run : amqp_merge_capabilities base (some (before ++ (key, .table second) :: after))
      (fun _ => true) 0 = .error (.fault .nullPointer) := by
    refine result_of_fails h_allocate ?_
    change (mergeEntries _ _ _ _ _).bind _ = _
    rw [h_loop]
    rfl
  rw [Allocating.result, h_run]
  rfl

/-- With another entry before the two tables, one between them and one behind them. -/
theorem amqp_merge_capabilities_twice_between :
    Table.Distinct [([3], .void), ([1], .table []), ([2], .boolean true)] ∧
      (amqp_merge_capabilities [([2], .boolean false)]
        (some ([([3], .void), ([1], .table []), ([2], .boolean true)] ++
          ([1], .table []) :: [([4], .void)]))).result (fun _ => true) =
        .error (.fault .nullPointer) := by
  have h : Table.Distinct [([3], .void), ([1], .table []), ([2], .boolean true)] := by
    refine ⟨by decide, trivial, ?_, trivial, trivial⟩
    rw [FieldValue.Distinct]
    exact ⟨List.nodup_nil, trivial⟩
  exact ⟨h, amqp_merge_capabilities_twice _ [] [] h rfl rfl rfl⟩

end Amqp
end WateRMQ
