import WateRMQ.Amqp.Wire

/-!
# Tables

The functions of `amqp_table.c` that encode and decode field values, arrays and tables. A table
holds keys and values, a value may be an array or a table again, and each of these has its size in
bytes in front of it. The encoder leaves a gap for the size and fills it in afterwards; the decoder
takes the size as the limit up to which it decodes entries.

`FieldValue.wire` is the encoding as a function of the value. `writes_field_value` says that the
encoder writes it whenever there is room, and `decodes_field_value` that the decoder takes it back,
for values that `Fit` their size fields: the encoder truncates the length of a key to eight bits and
writes the whole key behind it.
-/

namespace WateRMQ
namespace Amqp

open Codec CMem

/-! ### The functions of the source -/

/-- The kinds of `amqp_field_value_kind_t` whose values are one number. -/
inductive NumberKind
  | i8 | u8 | i16 | u16 | i32 | u32 | i64 | u64 | f32 | f64 | timestamp
  deriving DecidableEq, Repr

namespace NumberKind

/-- The character of the kind. -/
def char : NumberKind → Char
  | i8 => 'b'
  | u8 => 'B'
  | i16 => 's'
  | u16 => 'u'
  | i32 => 'I'
  | u32 => 'i'
  | i64 => 'l'
  | u64 => 'L'
  | f32 => 'f'
  | f64 => 'd'
  | timestamp => 'T'

/-- The width of the number. -/
def bits : NumberKind → ℕ
  | i8 | u8 => 8
  | i16 | u16 => 16
  | i32 | u32 | f32 => 32
  | i64 | u64 | f64 | timestamp => 64

/-- Each kind has one of the widths of the base types. -/
theorem width (k : NumberKind) : Width k.bits := by
  cases k <;> simp [Width, bits]

end NumberKind

/-- `amqp_field_value_t`. A floating point number is the number that has its bits. -/
inductive FieldValue
  | boolean (boolean : Bool)
  | number (kind : NumberKind) (value : BitVec kind.bits)
  | decimal (decimals : BitVec 8) (value : BitVec 32)
  | utf8 (bytes : List UInt8)
  | bytes (bytes : List UInt8)
  | array (entries : List FieldValue)
  | table (entries : List (List UInt8 × FieldValue))
  | void

/-- `amqp_array_t`. -/
abbrev Array := List FieldValue

/-- `amqp_table_t`, as the list of its entries `amqp_table_entry_t`. -/
abbrev Table := List (List UInt8 × FieldValue)

/-- The first byte of a field value. -/
def kindByte (c : Char) : BitVec 8 := BitVec.ofNat 8 c.toNat

/-- The size of an array or a table, which is filled in after its entries. -/
def withSize (entries : Encoder Status Unit) : Encoder Status Unit :=
  backpatch 4 .tableTooBig (fun n => BigEndian.bytes 4 (BitVec.ofNat 32 n).toNat) entries

mutual

/-- `amqp_encode_field_value`. -/
def amqp_encode_field_value : FieldValue → Encoder Status Unit
  | .boolean b => do
    amqp_encode .badAmqpData (kindByte 't')
    amqp_encode .tableTooBig (if b then 1#8 else 0#8)
  | .number kind v => do
    amqp_encode .badAmqpData (kindByte kind.char)
    amqp_encode .tableTooBig v
  | .decimal decimals v => do
    amqp_encode .badAmqpData (kindByte 'D')
    amqp_encode .tableTooBig decimals
    amqp_encode .tableTooBig v
  | .utf8 bytes => do
    amqp_encode .badAmqpData (kindByte 'S')
    amqp_encode .tableTooBig (BitVec.ofNat 32 bytes.length)
    amqp_encode_bytes .tableTooBig bytes
  | .bytes bytes => do
    amqp_encode .badAmqpData (kindByte 'x')
    amqp_encode .tableTooBig (BitVec.ofNat 32 bytes.length)
    amqp_encode_bytes .tableTooBig bytes
  | .array entries => do
    amqp_encode .badAmqpData (kindByte 'A')
    withSize (encodeArrayEntries entries)
  | .table entries => do
    amqp_encode .badAmqpData (kindByte 'F')
    withSize (encodeTableEntries entries)
  | .void => amqp_encode .badAmqpData (kindByte 'V')

/-- The loop of `amqp_encode_array`. -/
def encodeArrayEntries : List FieldValue → Encoder Status Unit
  | [] => pure ()
  | v :: entries => do
    amqp_encode_field_value v
    encodeArrayEntries entries

/-- The loop of `amqp_encode_table`. -/
def encodeTableEntries : List (List UInt8 × FieldValue) → Encoder Status Unit
  | [] => pure ()
  | (key, v) :: entries => do
    amqp_encode .tableTooBig (BitVec.ofNat 8 key.length)
    amqp_encode_bytes .tableTooBig key
    amqp_encode_field_value v
    encodeTableEntries entries

end

/-- `amqp_encode_array`. -/
def amqp_encode_array (input : Array) : Encoder Status Unit := withSize (encodeArrayEntries input)

/-- `amqp_encode_table`. -/
def amqp_encode_table (input : Table) : Encoder Status Unit := withSize (encodeTableEntries input)

/-- `INITIAL_ARRAY_SIZE` and `INITIAL_TABLE_SIZE`. -/
def initialSize : ℕ := 16

/-- The `realloc` of the two decoders when all allocated entries are used. -/
def grow (num_entries allocated_entries : ℕ) : Reader Status ℕ :=
  if num_entries ≥ allocated_entries then do
    alloc .noMemory
    return allocated_entries * 2
  else
    return allocated_entries

/-- The common part of `amqp_decode_array` and `amqp_decode_table`; the state of the loop are
`num_entries` and `allocated_entries`. -/
def decodeEntries {α : Type} (entry : ℕ × ℕ → Reader Status (α × ℕ × ℕ)) :
    Reader Status (List α) := do
  let size ← amqp_decode 32 .badAmqpData
  let encoded := (← read).encoded
  let offset := (← get).offset
  if size.toNat + offset > encoded.length then
    fail .badAmqpData
  else
    alloc .noMemory
    let entries ← whileBelow (offset + size.toNat) entry encoded.length (0, initialSize)
    if entries.length = 0 then
      return entries
    else
      alloc .noMemory
      return entries

/-- `amqp_decode_array`, with the decoder of its entries. -/
def amqp_decode_array (field_value : Reader Status FieldValue) : Reader Status Array :=
  decodeEntries fun (num_entries, allocated_entries) => do
    let allocated_entries ← grow num_entries allocated_entries
    let v ← field_value
    return (v, num_entries + 1, allocated_entries)

/-- `amqp_decode_table`, with the decoder of its values. -/
def decodeTable (field_value : Reader Status FieldValue) : Reader Status Table :=
  decodeEntries fun (num_entries, allocated_entries) => do
    let keylen ← amqp_decode 8 .badAmqpData
    let allocated_entries ← grow num_entries allocated_entries
    let key ← amqp_decode_bytes .badAmqpData keylen.toNat
    let v ← field_value
    return ((key, v), num_entries + 1, allocated_entries)

/-- `TRIVIAL_FIELD_DECODER` and `SIMPLE_FIELD_DECODER`. -/
def decodeNumber (kind : NumberKind) : Reader Status FieldValue := do
  let v ← amqp_decode kind.bits .badAmqpData
  return .number kind v

/-- The `switch` of `amqp_decode_field_value`, with the decoder of nested values. -/
def decodeKind (field_value : Reader Status FieldValue) : Char → Reader Status FieldValue
  | 't' => do
    let v ← amqp_decode 8 .badAmqpData
    return .boolean (v ≠ 0)
  | 'b' => decodeNumber .i8
  | 'B' => decodeNumber .u8
  | 's' => decodeNumber .i16
  | 'u' => decodeNumber .u16
  | 'I' => decodeNumber .i32
  | 'i' => decodeNumber .u32
  | 'l' => decodeNumber .i64
  | 'L' => decodeNumber .u64
  | 'f' => decodeNumber .f32
  | 'd' => decodeNumber .f64
  | 'D' => do
    let decimals ← amqp_decode 8 .badAmqpData
    let v ← amqp_decode 32 .badAmqpData
    return .decimal decimals v
  | 'S' => do
    let len ← amqp_decode 32 .badAmqpData
    let bytes ← amqp_decode_bytes .badAmqpData len.toNat
    return .utf8 bytes
  | 'x' => do
    let len ← amqp_decode 32 .badAmqpData
    let bytes ← amqp_decode_bytes .badAmqpData len.toNat
    return .bytes bytes
  | 'A' => do
    let entries ← amqp_decode_array field_value
    return .array entries
  | 'T' => decodeNumber .timestamp
  | 'F' => do
    let entries ← decodeTable field_value
    return .table entries
  | 'V' => return .void
  | _ => fail .badAmqpData

/-- `amqp_decode_field_value`, for values that are nested less than `depth` deep. -/
def amqp_decode_field_value : ℕ → Reader Status FieldValue
  | 0 => fail .badAmqpData
  | depth + 1 => do
    let kind ← amqp_decode 8 .badAmqpData
    decodeKind (amqp_decode_field_value depth) (Char.ofNat kind.toNat)

/-- `amqp_decode_table`. There are fewer levels than bytes. -/
def amqp_decode_table : Reader Status Table := do
  let encoded := (← read).encoded
  decodeTable (amqp_decode_field_value (encoded.length + 1))

/-! ### What the encoder writes -/

mutual

/-- The encoding of a field value. -/
def FieldValue.wire : FieldValue → List UInt8
  | .boolean b => BigEndian.bytes 1 (kindByte 't').toNat ++
      BigEndian.bytes 1 (if b then 1#8 else 0#8).toNat
  | .number kind v => BigEndian.bytes 1 (kindByte kind.char).toNat ++
      BigEndian.bytes (kind.bits / 8) v.toNat
  | .decimal decimals v => BigEndian.bytes 1 (kindByte 'D').toNat ++
      (BigEndian.bytes 1 decimals.toNat ++ BigEndian.bytes 4 v.toNat)
  | .utf8 bytes => BigEndian.bytes 1 (kindByte 'S').toNat ++
      (BigEndian.bytes 4 (BitVec.ofNat 32 bytes.length).toNat ++ bytes)
  | .bytes bytes => BigEndian.bytes 1 (kindByte 'x').toNat ++
      (BigEndian.bytes 4 (BitVec.ofNat 32 bytes.length).toNat ++ bytes)
  | .array entries => BigEndian.bytes 1 (kindByte 'A').toNat ++
      (BigEndian.bytes 4 (BitVec.ofNat 32 (wireArrayEntries entries).length).toNat ++
        wireArrayEntries entries)
  | .table entries => BigEndian.bytes 1 (kindByte 'F').toNat ++
      (BigEndian.bytes 4 (BitVec.ofNat 32 (wireTableEntries entries).length).toNat ++
        wireTableEntries entries)
  | .void => BigEndian.bytes 1 (kindByte 'V').toNat

/-- The encoding of the entries of an array. -/
def wireArrayEntries : List FieldValue → List UInt8
  | [] => []
  | v :: entries => v.wire ++ wireArrayEntries entries

/-- The encoding of the entries of a table. -/
def wireTableEntries : List (List UInt8 × FieldValue) → List UInt8
  | [] => []
  | (key, v) :: entries => BigEndian.bytes 1 (BitVec.ofNat 8 key.length).toNat ++
      (key ++ (v.wire ++ wireTableEntries entries))

end

/-- The encoding of a table. -/
def Table.wire (t : Table) : List UInt8 :=
  BigEndian.bytes 4 (BitVec.ofNat 32 (wireTableEntries t).length).toNat ++ wireTableEntries t

/-- The first byte of a field value. -/
theorem writes_kind (c : Char) :
    Writes (amqp_encode .badAmqpData (kindByte c)) (BigEndian.bytes 1 (kindByte c).toNat) :=
  writes_encode (.inl rfl) _ _

/-- The entries, with their size in front of them. -/
theorem writes_withSize {entries : Encoder Status Unit} {bs : List UInt8} (h : Writes entries bs) :
    Writes (withSize entries)
      (BigEndian.bytes 4 (BitVec.ofNat 32 bs.length).toNat ++ bs) :=
  h.backpatch (fun _ => BigEndian.length_bytes 4 _) (by omega)

mutual

/-- The encoder of a field value writes its encoding. -/
theorem writes_field_value : ∀ v : FieldValue, Writes (amqp_encode_field_value v) v.wire
  | .boolean _ => (writes_kind _).bind (writes_encode (.inl rfl) _ _)
  | .number kind _ => (writes_kind _).bind (writes_encode kind.width _ _)
  | .decimal _ _ => (writes_kind _).bind
      ((writes_encode (.inl rfl) _ _).bind (writes_encode (.inr (.inr (.inl rfl))) _ _))
  | .utf8 _ | .bytes _ => (writes_kind _).bind
      ((writes_encode (.inr (.inr (.inl rfl))) _ _).bind (writes_encode_bytes _ _))
  | .array entries => (writes_kind _).bind (writes_withSize (writes_arrayEntries entries))
  | .table entries => (writes_kind _).bind (writes_withSize (writes_tableEntries entries))
  | .void => writes_kind _

/-- The encoder of the entries of an array writes their encodings. -/
theorem writes_arrayEntries : ∀ l, Writes (encodeArrayEntries l) (wireArrayEntries l)
  | [] => writes_pure
  | v :: entries => (writes_field_value v).bind (writes_arrayEntries entries)

/-- The encoder of the entries of a table writes their encodings. -/
theorem writes_tableEntries : ∀ l, Writes (encodeTableEntries l) (wireTableEntries l)
  | [] => writes_pure
  | (_, v) :: entries => (writes_encode (.inl rfl) _ _).bind ((writes_encode_bytes _ _).bind
      ((writes_field_value v).bind (writes_tableEntries entries)))

end

/-- `amqp_encode_table` writes the encoding, or has no room for it and writes nothing outside. -/
theorem writes_table (t : Table) : Writes (amqp_encode_table t) t.wire :=
  writes_withSize (writes_tableEntries t)

/-! ### Decoding what was written -/

mutual

/-- No key in the value is longer than its length byte can say. -/
def FieldValue.ShortKeys : FieldValue → Prop
  | .array entries => ShortKeysArray entries
  | .table entries => ShortKeysTable entries
  | _ => True

/-- No key in the entries of an array is too long. -/
def ShortKeysArray : List FieldValue → Prop
  | [] => True
  | v :: entries => v.ShortKeys ∧ ShortKeysArray entries

/-- No key in the entries of a table is too long, nor one in their values. -/
def ShortKeysTable : List (List UInt8 × FieldValue) → Prop
  | [] => True
  | (key, v) :: entries => key.length < 256 ∧ v.ShortKeys ∧ ShortKeysTable entries

end

/-- No key in the table is longer than its length byte can say. -/
def Table.ShortKeys (t : Table) : Prop := ShortKeysTable t

/-- The first byte of a field value says which decoder takes the rest. -/
theorem decodes_kind {c : Char} (h : Char.ofNat (kindByte c).toNat = c) {depth : ℕ}
    {bs : List UInt8} {v : FieldValue}
    (h_value : Decodes (decodeKind (amqp_decode_field_value depth) c) bs v) :
    Decodes (amqp_decode_field_value (depth + 1)) (BigEndian.bytes 1 (kindByte c).toNat ++ bs)
      v := by
  refine (decodes_decode (.inl rfl) _ _).bind ?_
  rwa [h]

/-- A number is taken back. -/
theorem decodes_number (kind : NumberKind) (v : BitVec kind.bits) :
    Decodes (decodeNumber kind) (BigEndian.bytes (kind.bits / 8) v.toNat) (.number kind v) :=
  (decodes_decode kind.width _ _).bind_nil (decodes_pure _)

/-- `realloc` takes no bytes. -/
theorem decodes_grow (m n : ℕ) : ∃ k, Decodes (grow m n) [] k := by
  rw [grow]
  split
  · exact ⟨_, (decodes_alloc _).nil_bind (decodes_pure _)⟩
  · exact ⟨_, decodes_pure _⟩

/-- A length that has a place in its field. -/
theorem toNat_length {n : ℕ} {bs : List UInt8} (h : bs.length < 2 ^ n) :
    (BitVec.ofNat n bs.length).toNat = bs.length := by
  rw [BitVec.toNat_ofNat, Nat.mod_eq_of_lt h]

/-- A string of bytes behind its length. -/
theorem decodes_counted {n : ℕ} (hn : Width n) {bs : List UInt8} (h : bs.length < 2 ^ n)
    {α : Type} {f : List UInt8 → α} :
    Decodes (do
        let len ← amqp_decode n .badAmqpData
        let bytes ← amqp_decode_bytes .badAmqpData len.toNat
        return f bytes)
      (BigEndian.bytes (n / 8) (BitVec.ofNat n bs.length).toNat ++ bs) (f bs) :=
  (decodes_decode hn _ _).bind
    ((decodes_decode_bytes _ (toNat_length h).symm).bind_nil (decodes_pure _))

/-- There are not more entries than bytes. -/
theorem length_le_flatMap {α : Type} {enc : α → List UInt8} {l : List α}
    (h : ∀ a ∈ l, enc a ≠ []) : l.length ≤ (l.flatMap enc).length := by
  induction l with
  | nil => exact Nat.le_refl 0
  | cons a l ih =>
    have h_pos := List.length_pos_iff.mpr (h a List.mem_cons_self)
    have h_rest := ih fun b hb => h b (List.mem_cons_of_mem a hb)
    rw [List.flatMap_cons, List.length_append, List.length_cons]
    omega

/-- The entries behind their size. -/
theorem decodes_decodeEntries {α : Type} {entry : ℕ × ℕ → Reader Status (α × ℕ × ℕ)}
    {enc : α → List UInt8} {l : List α} (h_size : (l.flatMap enc).length < 2 ^ 32)
    (h : ∀ a ∈ l, ∀ s, ∃ s', Decodes (entry s) (enc a) (a, s')) (h_ne : ∀ a ∈ l, enc a ≠ []) :
    Decodes (decodeEntries entry)
      (BigEndian.bytes 4 (BitVec.ofNat 32 (l.flatMap enc).length).toNat ++ l.flatMap enc) l := by
  refine (decodes_decode (.inr (.inr (.inl rfl))) _ _).bind ?_
  rw [toNat_length h_size]
  intro src p h_ahead
  have h_le : p.offset + (l.flatMap enc).length ≤ src.encoded.length := h_ahead.le
  -- there are not more entries than bytes, so that the loop takes them all
  have h_fuel : l.length ≤ src.encoded.length := by
    have h_count := length_le_flatMap h_ne
    omega
  obtain ⟨k, h_loop⟩ := decodes_whileBelow (p := ⟨p.offset, p.allocs + 1⟩) (0, initialSize) h h_ne
    h_ahead rfl h_fuel
  -- the size is not larger than what is left of the buffer
  have h_limit : ¬ (l.flatMap enc).length + p.offset > src.unlimited.encoded.length := by
    change ¬ _ > src.encoded.length
    omega
  -- the last `realloc` happens unless there is no entry
  refine ⟨if l.length = 0 then k else k + 1, ?_⟩
  change (if (l.flatMap enc).length + p.offset > src.unlimited.encoded.length then _ else _ :
    Reader Status (List α)) src.unlimited p = _
  rw [if_neg h_limit]
  change (whileBelow (p.offset + (l.flatMap enc).length) entry src.encoded.length
    (0, initialSize) >>= fun entries => if entries.length = 0 then pure entries else
      alloc Status.noMemory >>= fun _ => pure entries) src.unlimited ⟨p.offset, p.allocs + 1⟩ = _
  rw [reader_bind, h_loop]
  change (if l.length = 0 then pure l else alloc Status.noMemory >>= fun _ => pure l :
    Reader Status (List α)) src.unlimited ⟨_, k⟩ = _
  split <;> rfl

/-- The encoding of an entry of a table. -/
def wireEntry (e : List UInt8 × FieldValue) : List UInt8 :=
  BigEndian.bytes 1 (BitVec.ofNat 8 e.1.length).toNat ++ (e.1 ++ e.2.wire)

/-- The encodings of the values, one behind the other. -/
theorem wireArrayEntries_eq (l : Array) : wireArrayEntries l = l.flatMap FieldValue.wire := by
  induction l with
  | nil => rfl
  | cons v l ih => rw [wireArrayEntries, ih, List.flatMap_cons]

/-- The encodings of the entries, one behind the other. -/
theorem wireTableEntries_eq (l : Table) : wireTableEntries l = l.flatMap wireEntry := by
  induction l with
  | nil => rfl
  | cons e l ih =>
    rw [wireTableEntries, ih, List.flatMap_cons, wireEntry]
    simp only [List.append_assoc]

/-- A field value has a first byte. -/
theorem wire_ne_nil (v : FieldValue) : v.wire ≠ [] := by
  intro h
  have h_len := congrArg List.length h
  cases v <;> simp [FieldValue.wire] at h_len

/-- An entry has the length of its key. -/
theorem wireEntry_ne_nil (e : List UInt8 × FieldValue) : wireEntry e ≠ [] := by
  intro h
  have h_len := congrArg List.length h
  simp [wireEntry] at h_len

/-- The length of the entries of an array. -/
theorem length_wire_cons (v : FieldValue) (l : Array) :
    (wireArrayEntries (v :: l)).length = v.wire.length + (wireArrayEntries l).length := by
  rw [wireArrayEntries, List.length_append]

/-- The length of the entries of a table. -/
theorem length_wireTableEntries_cons (e : List UInt8 × FieldValue) (l : Table) :
    (wireTableEntries (e :: l)).length =
      1 + e.1.length + e.2.wire.length + (wireTableEntries l).length := by
  rw [wireTableEntries]
  simp only [List.length_append, BigEndian.length_bytes]
  omega

/-- An array is taken back when its values are. -/
theorem decodes_array {depth : ℕ} {l : Array} (h_size : (wireArrayEntries l).length < 2 ^ 32)
    (h : ∀ v ∈ l, Decodes (amqp_decode_field_value depth) v.wire v) :
    Decodes (amqp_decode_array (amqp_decode_field_value depth))
      (BigEndian.bytes 4 (BitVec.ofNat 32 (wireArrayEntries l).length).toNat ++
        wireArrayEntries l) l := by
  rw [wireArrayEntries_eq] at h_size ⊢
  -- an entry is a value, with the array grown in front of it
  refine decodes_decodeEntries h_size (fun v hv s => ?_) fun v _ => wire_ne_nil v
  obtain ⟨k, h_grow⟩ := decodes_grow s.1 s.2
  exact ⟨_, h_grow.nil_bind ((h v hv).bind_nil (decodes_pure _))⟩

/-- A table is taken back when its values are and its keys are short. -/
theorem decodes_table (depth : ℕ) {l : Table} (h_size : (wireTableEntries l).length < 2 ^ 32)
    (h : ∀ e ∈ l, e.1.length < 256 ∧ Decodes (amqp_decode_field_value depth) e.2.wire e.2) :
    Decodes (decodeTable (amqp_decode_field_value depth))
      (BigEndian.bytes 4 (BitVec.ofNat 32 (wireTableEntries l).length).toNat ++
        wireTableEntries l) l := by
  rw [wireTableEntries_eq] at h_size ⊢
  -- an entry is the length of its key, the key and the value, with the array grown in between
  refine decodes_decodeEntries h_size (fun e he s => ?_) fun e _ => wireEntry_ne_nil e
  obtain ⟨h_key, h_value⟩ := h e he
  obtain ⟨k, h_grow⟩ := decodes_grow s.1 s.2
  have h_keylen : e.1.length = (BitVec.ofNat 8 e.1.length).toNat := (toNat_length h_key).symm
  exact ⟨_, (decodes_decode (.inl rfl) _ _).bind (h_grow.nil_bind
    ((decodes_decode_bytes _ h_keylen).bind (h_value.bind_nil (decodes_pure _))))⟩

mutual

/-- The decoder takes back what the encoder wrote. -/
theorem decodes_field_value : ∀ (v : FieldValue) {depth : ℕ}, v.ShortKeys →
    v.wire.length < 2 ^ 32 → v.wire.length ≤ depth →
      Decodes (amqp_decode_field_value depth) v.wire v
  | v, 0, _, _, h_depth =>
    absurd (List.length_eq_zero_iff.mp (Nat.le_zero.mp h_depth)) (wire_ne_nil v)
  | .boolean b, depth + 1, _, _, _ => by
    refine decodes_kind rfl ((decodes_decode (.inl rfl) _ _).bind_nil ?_)
    cases b <;> exact decodes_pure _
  | .number kind v, depth + 1, _, _, _ => by
    cases kind <;> exact decodes_kind rfl (decodes_number _ v)
  | .decimal decimals v, depth + 1, _, _, _ =>
    decodes_kind rfl ((decodes_decode (.inl rfl) _ _).bind
      ((decodes_decode (.inr (.inr (.inl rfl))) _ _).bind_nil (decodes_pure _)))
  | .utf8 bytes, depth + 1, _, h_size, _ => by
    rw [FieldValue.wire, List.length_append, List.length_append] at h_size
    exact decodes_kind rfl (decodes_counted (.inr (.inr (.inl rfl))) (by omega))
  | .bytes bytes, depth + 1, _, h_size, _ => by
    rw [FieldValue.wire, List.length_append, List.length_append] at h_size
    exact decodes_kind rfl (decodes_counted (.inr (.inr (.inl rfl))) (by omega))
  | .array entries, depth + 1, h_keys, h_size, h_depth => by
    rw [FieldValue.wire, List.length_append, List.length_append, BigEndian.length_bytes]
      at h_size h_depth
    -- the values are one level further down, and there are fewer bytes for them
    refine decodes_kind rfl ((decodes_array (by omega) ?_).bind_nil (decodes_pure _))
    exact decodes_arrayEntries entries h_keys (by omega) (by omega)
  | .table entries, depth + 1, h_keys, h_size, h_depth => by
    rw [FieldValue.wire, List.length_append, List.length_append, BigEndian.length_bytes]
      at h_size h_depth
    refine decodes_kind rfl ((decodes_table depth (by omega) ?_).bind_nil (decodes_pure _))
    exact decodes_tableEntries entries h_keys (by omega) (by omega)
  | .void, depth + 1, _, _, _ => by
    have h := @decodes_kind 'V' rfl depth _ _ (decodes_pure FieldValue.void)
    rwa [List.append_nil] at h

/-- The same for the values of an array. -/
theorem decodes_arrayEntries : ∀ (l : Array) {depth : ℕ}, ShortKeysArray l →
    (wireArrayEntries l).length < 2 ^ 32 → (wireArrayEntries l).length ≤ depth →
    ∀ v ∈ l, Decodes (amqp_decode_field_value depth) v.wire v
  | [], _, _, _, _, v, hv => absurd hv List.not_mem_nil
  | v :: l, depth, h_keys, h_size, h_depth, w, hw => by
    rw [length_wire_cons] at h_size h_depth
    rcases List.mem_cons.mp hw with h_eq | h_mem
    · rw [h_eq]
      exact decodes_field_value v h_keys.1 (by omega) (by omega)
    · exact decodes_arrayEntries l h_keys.2 (by omega) (by omega) w h_mem

/-- The same for the entries of a table. -/
theorem decodes_tableEntries : ∀ (l : Table) {depth : ℕ}, ShortKeysTable l →
    (wireTableEntries l).length < 2 ^ 32 → (wireTableEntries l).length ≤ depth →
    ∀ e ∈ l, e.1.length < 256 ∧ Decodes (amqp_decode_field_value depth) e.2.wire e.2
  | [], _, _, _, _, e, he => absurd he List.not_mem_nil
  | (key, v) :: l, depth, h_keys, h_size, h_depth, e, he => by
    rw [length_wireTableEntries_cons] at h_size h_depth
    dsimp only at h_size h_depth
    rcases List.mem_cons.mp he with h_eq | h_mem
    · rw [h_eq]
      exact ⟨h_keys.1, decodes_field_value v h_keys.2.1 (by omega) (by omega)⟩
    · exact decodes_tableEntries l h_keys.2.2 (by omega) (by omega) e h_mem

end

/-! ### Decoding any bytes -/

/-- What the decoder gives for some bytes: a value whose keys are short, and whose own encoding has
the length of these bytes. -/
def Measured (v : FieldValue) (bs : List UInt8) : Prop :=
  bs.length = v.wire.length ∧ v.ShortKeys

/-- `realloc` takes no bytes. -/
theorem yields_grow (m n : ℕ) : Yields (grow m n) fun _ bs => bs = [] := by
  rw [grow]
  split
  · refine (yields_alloc _).bind fun a bs h => yields_pure _ ?_
    rw [h, List.append_nil]
  · exact yields_pure _ rfl

/-- The size and the entries that were taken for a list. -/
theorem yields_decodeEntries {α : Type} {entry : ℕ × ℕ → Reader Status (α × ℕ × ℕ)}
    {P : α → List UInt8 → Prop} (h : ∀ s, Yields (entry s) fun x bs => P x.1 bs) :
    Yields (decodeEntries entry) fun l bs => ∃ size parts, List.Forall₂ P l parts ∧
      bs = size ++ parts.flatten ∧ size.length = 4 := by
  refine (yields_decode 32 _).bind fun size bs h_size => ?_
  refine yields_read fun src => yields_get fun p => ?_
  dsimp only
  -- a size beyond the end of the buffer is refused
  split
  · exact yields_fail _
  refine (yields_alloc _).bind fun _ none h_none => ?_
  refine (yields_whileBelow h _ _ _).bind fun l cs h_l => ?_
  obtain ⟨parts, h_all, h_cs⟩ := h_l
  -- the last `realloc` takes nothing, whether it happens or not
  have h_result : ∃ size parts, List.Forall₂ P l parts ∧
      bs ++ (none ++ cs) = size ++ parts.flatten ∧ size.length = 4 :=
    ⟨bs, parts, h_all, by rw [h_none, h_cs, List.nil_append], h_size.1⟩
  split
  · refine yields_pure _ ?_
    rwa [List.append_nil]
  · refine (yields_alloc _).bind fun _ none' h_none' => yields_pure _ ?_
    rwa [h_none', List.append_nil, List.append_nil]

/-- The bytes taken for an array are as many as the encodings of its values. -/
theorem measured_entries {l : Array} {parts : List (List UInt8)}
    (h : List.Forall₂ Measured l parts) :
    parts.flatten.length = (wireArrayEntries l).length ∧ ShortKeysArray l := by
  induction h with
  | nil => exact ⟨rfl, trivial⟩
  | cons h_head _ ih =>
    refine ⟨?_, h_head.2, ih.2⟩
    rw [List.flatten_cons, List.length_append, length_wire_cons, h_head.1, ih.1]

/-- The bytes taken for a table are as many as the encodings of its entries. -/
theorem measured_tableEntries {l : Table} {parts : List (List UInt8)}
    (h : List.Forall₂ (fun e bs => bs.length = 1 + e.1.length + e.2.wire.length ∧
      e.1.length < 256 ∧ e.2.ShortKeys) l parts) :
    parts.flatten.length = (wireTableEntries l).length ∧ ShortKeysTable l := by
  induction h with
  | nil => exact ⟨rfl, trivial⟩
  | cons h_head _ ih =>
    refine ⟨?_, h_head.2.1, h_head.2.2, ih.2⟩
    rw [List.flatten_cons, List.length_append, length_wireTableEntries_cons, h_head.1, ih.1]

/-- An array that is decoded from any bytes. -/
theorem yields_array {field_value : Reader Status FieldValue} (h : Yields field_value Measured) :
    Yields (amqp_decode_array field_value) fun l bs =>
      bs.length = 4 + (wireArrayEntries l).length ∧ ShortKeysArray l := by
  refine (yields_decodeEntries (P := Measured) fun s => ?_).mono ?_
  · refine (yields_grow _ _).bind fun _ none h_none => h.bind fun v bs h_v => yields_pure _ ?_
    rwa [h_none, List.append_nil]
  · rintro l bs ⟨size, parts, h_all, rfl, h_size⟩
    obtain ⟨h_len, h_keys⟩ := measured_entries h_all
    refine ⟨?_, h_keys⟩
    rw [List.length_append, h_size, h_len]

/-- A table that is decoded from any bytes has short keys. -/
theorem yields_table {field_value : Reader Status FieldValue} (h : Yields field_value Measured) :
    Yields (decodeTable field_value) fun l bs =>
      bs.length = 4 + (wireTableEntries l).length ∧ ShortKeysTable l := by
  refine (yields_decodeEntries (P := fun e bs => bs.length = 1 + e.1.length + e.2.wire.length ∧
    e.1.length < 256 ∧ e.2.ShortKeys) fun s => ?_).mono ?_
  · refine (yields_decode 8 _).bind fun keylen bs₁ h₁ => (yields_grow _ _).bind fun _ none h_none =>
      (yields_take _ _).bind fun key bs₂ h₂ => h.bind fun v bs₃ h₃ => yields_pure _ ?_
    -- the key is as long as its byte says, which is less than 256
    have h_key : key.length = keylen.toNat := by rw [h₂.1, h₂.2]
    refine ⟨?_, ?_, h₃.2⟩
    · -- the byte of the length, the key, the value
      simp only [h_none, List.length_append, List.length_nil, h₁.1, h₂.2, h₃.1, h_key]
      omega
    · rw [h_key]
      exact keylen.isLt
  · rintro l bs ⟨size, parts, h_all, rfl, h_size⟩
    obtain ⟨h_len, h_keys⟩ := measured_tableEntries h_all
    refine ⟨?_, h_keys⟩
    rw [List.length_append, h_size, h_len]

/-- A number that is decoded from any bytes. -/
theorem yields_number (kind : NumberKind) : Yields (decodeNumber kind) fun v bs =>
    bs.length + 1 = v.wire.length ∧ v.ShortKeys :=
  (yields_decode _ _).bind fun v bs h => yields_pure _ ⟨by
    rw [List.append_nil, FieldValue.wire, List.length_append, BigEndian.length_bytes,
      BigEndian.length_bytes, h.1, Nat.add_comm], trivial⟩

/-- What any of the decoders behind the first byte gives. -/
theorem yields_decodeKind {field_value : Reader Status FieldValue} (h : Yields field_value Measured)
    (c : Char) : Yields (decodeKind field_value c) fun v bs =>
      bs.length + 1 = v.wire.length ∧ v.ShortKeys := by
  -- the two kinds of strings have the same decoder
  have h_string : ∀ f : List UInt8 → FieldValue, (∀ bs, (f bs).wire.length = 5 + bs.length) →
      (∀ bs, (f bs).ShortKeys) → Yields (do
        let len ← amqp_decode 32 .badAmqpData
        let bytes ← amqp_decode_bytes .badAmqpData len.toNat
        return f bytes) fun v bs => bs.length + 1 = v.wire.length ∧ v.ShortKeys := by
    intro f h_wire h_keys
    refine (yields_decode _ _).bind fun len bs₁ h₁ => (yields_take _ _).bind fun bytes bs₂ h₂ =>
      yields_pure _ ⟨?_, h_keys _⟩
    rw [List.append_nil, List.length_append, h_wire, h₁.1, h₂.1]
    omega
  -- one case for each kind of value; the numbers are left to the last line
  unfold decodeKind
  split
  case h_1 =>
    refine (yields_decode _ _).bind fun v bs h_v => yields_pure _ ⟨?_, trivial⟩
    rw [List.append_nil, h_v.1]
    rfl
  case h_12 =>
    refine (yields_decode _ _).bind fun v bs h₁ => (yields_decode _ _).bind fun w cs h₂ =>
      yields_pure _ ⟨?_, trivial⟩
    rw [List.append_nil, List.length_append, h₁.1, h₂.1]
    rfl
  case h_13 => exact h_string .utf8 (fun bs => by simp [FieldValue.wire]; omega) fun _ => trivial
  case h_14 => exact h_string .bytes (fun bs => by simp [FieldValue.wire]; omega) fun _ => trivial
  case h_15 =>
    refine (yields_array h).bind fun l bs h_l => yields_pure _ ⟨?_, h_l.2⟩
    rw [List.append_nil, h_l.1]
    simp [FieldValue.wire]
    omega
  case h_17 =>
    refine (yields_table h).bind fun l bs h_l => yields_pure _ ⟨?_, h_l.2⟩
    rw [List.append_nil, h_l.1]
    simp [FieldValue.wire]
    omega
  case h_18 => exact yields_pure _ ⟨rfl, trivial⟩
  case h_19 => exact yields_fail _
  all_goals exact yields_number _

/-- A field value that is decoded from any bytes is measured, with any number of levels. -/
theorem yields_field_value (depth : ℕ) : Yields (amqp_decode_field_value depth) Measured := by
  -- the induction is on the levels: the values inside have one less
  induction depth with
  | zero => exact yields_fail _
  | succ depth ih =>
    refine (yields_decode 8 _).bind fun kind bs h_kind => (yields_decodeKind ih _).mono ?_
    intro v cs h_v
    refine ⟨?_, h_v.2⟩
    rw [List.length_append, h_kind.1, ← h_v.1]
    omega

/-- A table that `amqp_decode_table` gives is encoded in as many bytes as it was taken from. -/
theorem yields_amqp_decode_table : Yields amqp_decode_table fun t bs =>
    bs.length = t.wire.length ∧ t.ShortKeys := by
  refine yields_read fun src => (yields_table (yields_field_value _)).mono fun t bs h => ⟨?_, h.2⟩
  rw [Table.wire, List.length_append, BigEndian.length_bytes, h.1]

/-! ### Decoding with less memory -/

/-- `realloc` fails with `AMQP_STATUS_NO_MEMORY`. -/
theorem robust_grow (m n : ℕ) : Robust .noMemory (grow m n) := by
  rw [grow]
  split
  · exact (robust_alloc _).bind fun _ => robust_pure _ _
  · exact robust_pure _ _

/-- The entries need the pool, `realloc` and what each of them needs. -/
theorem robust_decodeEntries {α : Type} {entry : ℕ × ℕ → Reader Status (α × ℕ × ℕ)}
    (h : ∀ s, Robust .noMemory (entry s)) : Robust .noMemory (decodeEntries entry) := by
  refine (robust_decode _ _ _).bind fun size => ?_
  intro src p
  change (∃ k, src.memory k = false) ∧ (if size.toNat + p.offset > src.encoded.length then _ else
      _ : Reader Status (List α)) src p = _ ∨
    (if size.toNat + p.offset > src.encoded.length then _ else _ :
      Reader Status (List α)) src p = (if size.toNat + p.offset > src.encoded.length then _ else _ :
      Reader Status (List α)) src.unlimited p
  -- the check of the size does not look at the memory
  split
  · exact robust_fail _ _ src p
  refine ((robust_alloc _).bind fun _ => (robust_whileBelow h _ _ _).bind fun l => ?_) src p
  split
  · exact robust_pure _ _
  · exact (robust_alloc _).bind fun _ => robust_pure _ _

/-- A number needs no memory. -/
theorem robust_number (kind : NumberKind) : Robust .noMemory (decodeNumber kind) :=
  (robust_decode _ _ _).bind fun _ => robust_pure _ _

/-- Only arrays and tables need memory, for themselves and for their values. -/
theorem robust_decodeKind {field_value : Reader Status FieldValue}
    (h : Robust .noMemory field_value) (c : Char) :
    Robust .noMemory (decodeKind field_value c) := by
  -- the kinds that allocate are arrays (`h_15`) and tables (`h_17`)
  unfold decodeKind
  split
  case h_1 => exact (robust_decode _ _ _).bind fun _ => robust_pure _ _
  case h_12 => exact (robust_decode _ _ _).bind fun _ => (robust_decode _ _ _).bind fun _ =>
    robust_pure _ _
  case h_13 =>
    exact (robust_decode _ _ _).bind fun _ => (robust_take _ _ _).bind fun _ => robust_pure _ _
  case h_14 =>
    exact (robust_decode _ _ _).bind fun _ => (robust_take _ _ _).bind fun _ => robust_pure _ _
  case h_15 =>
    refine (robust_decodeEntries fun s => ?_).bind fun _ => robust_pure _ _
    exact (robust_grow _ _).bind fun _ => h.bind fun _ => robust_pure _ _
  case h_17 =>
    refine (robust_decodeEntries fun s => ?_).bind fun _ => robust_pure _ _
    exact (robust_decode _ _ _).bind fun _ => (robust_grow _ _).bind fun _ =>
      (robust_take _ _ _).bind fun _ => h.bind fun _ => robust_pure _ _
  case h_18 => exact robust_pure _ _
  case h_19 => exact robust_fail _ _
  all_goals exact robust_number _

/-- A field value fails for lack of memory, or is decoded as with all memory. -/
theorem robust_field_value (depth : ℕ) : Robust .noMemory (amqp_decode_field_value depth) := by
  induction depth with
  | zero => exact robust_fail _ _
  | succ depth ih => exact (robust_decode _ _ _).bind fun _ => robust_decodeKind ih _

/-- So does a table. -/
theorem robust_amqp_decode_table : Robust .noMemory amqp_decode_table := fun src =>
  (robust_decodeEntries fun _ => (robust_decode _ _ _).bind fun _ => (robust_grow _ _).bind fun _ =>
    (robust_take _ _ _).bind fun _ =>
      (robust_field_value (src.encoded.length + 1)).bind fun _ => robust_pure _ _) src

/-! ### The number of levels -/

/-- The decoders of entries agree when those of one entry do. -/
theorem AgreeFrom.decodeEntries {α : Type} {src : Source} {lo : ℕ}
    {entry entry' : ℕ × ℕ → Reader Status (α × ℕ × ℕ)} {P : α × ℕ × ℕ → List UInt8 → Prop}
    (h : ∀ s, AgreeFrom src lo (entry s) (entry' s)) (h_yields : ∀ s, Yields (entry s) P) :
    AgreeFrom src lo (decodeEntries entry) (decodeEntries entry') := by
  refine (AgreeFrom.refl _ _ _).bind (yields_decode _ _) fun size => ?_
  intro p h_lo h_le
  change (if size.toNat + p.offset > src.encoded.length then _ else _ : Reader Status (List α))
    src p = (if size.toNat + p.offset > src.encoded.length then _ else _ :
      Reader Status (List α)) src p
  split
  · rfl
  · exact (AgreeFrom.refl _ _ _).bind (yields_alloc _) (fun _ => (AgreeFrom.whileBelow h h_yields
      _ _ _).bind (yields_whileBelow (P := fun _ _ => True)
        (fun s => (h_yields s).mono fun _ _ _ => trivial) _ _ _)
      fun _ => AgreeFrom.refl _ _ _) p h_lo h_le

/-- The decoders behind the first byte agree when those of nested values do. -/
theorem AgreeFrom.decodeKind {src : Source} {lo : ℕ} {r r' : Reader Status FieldValue}
    (h : AgreeFrom src lo r r') (h_yields : Yields r Measured) (c : Char) :
    AgreeFrom src lo (decodeKind r c) (decodeKind r' c) := by
  -- only arrays and tables have values inside
  unfold Amqp.decodeKind
  split
  case h_15 =>
    refine AgreeFrom.bind (P := fun _ _ => True) ?_ ((yields_array h_yields).mono fun _ _ _ =>
      trivial) fun _ => AgreeFrom.refl _ _ _
    refine AgreeFrom.decodeEntries (P := fun _ _ => True) (fun s => ?_) fun s => ?_
    · exact (AgreeFrom.refl _ _ _).bind (yields_grow _ _) fun _ =>
        h.bind h_yields fun _ => AgreeFrom.refl _ _ _
    · exact (yields_grow _ _).bind fun _ _ _ => h_yields.bind fun _ _ _ => yields_pure _ trivial
  case h_17 =>
    refine AgreeFrom.bind (P := fun _ _ => True) ?_ ((yields_table h_yields).mono fun _ _ _ =>
      trivial) fun _ => AgreeFrom.refl _ _ _
    refine AgreeFrom.decodeEntries (P := fun _ _ => True) (fun s => ?_) fun s => ?_
    · exact (AgreeFrom.refl _ _ _).bind (yields_decode _ _) fun _ =>
        (AgreeFrom.refl _ _ _).bind (yields_grow _ _) fun _ =>
          (AgreeFrom.refl _ _ _).bind (yields_take _ _) fun _ =>
            h.bind h_yields fun _ => AgreeFrom.refl _ _ _
    · exact (yields_decode _ _).bind fun _ _ _ => (yields_grow _ _).bind fun _ _ _ =>
        (yields_take _ _).bind fun _ _ _ => h_yields.bind fun _ _ _ => yields_pure _ trivial
  all_goals exact AgreeFrom.refl _ _ _

/-- With more levels than bytes, the number of levels does not matter. -/
theorem field_value_depth {src : Source} {n m lo : ℕ} (hn : src.encoded.length < lo + n)
    (hm : src.encoded.length < lo + m) :
    AgreeFrom src lo (amqp_decode_field_value n) (amqp_decode_field_value m) := by
  induction n generalizing m lo with
  | zero =>
    intro p h_lo h_le
    omega
  | succ n ih =>
    cases m with
    | zero =>
      intro p h_lo h_le
      omega
    | succ m =>
      rw [amqp_decode_field_value, amqp_decode_field_value]
      -- the byte of the kind lies behind, so that there is one level less to go
      exact (AgreeFrom.refl _ _ _).bind_of_le (yields_decode 8 _) (fun _ _ h => h.1.ge) fun _ =>
        AgreeFrom.decodeKind (ih (by omega) (by omega)) (yields_field_value n) _

/-- The loop of `amqp_decode_array` and `amqp_decode_table` ends because its limit is reached. -/
theorem entries_fuel {α : Type} {entry : ℕ × ℕ → Reader Status (α × ℕ × ℕ)}
    {P : α × ℕ × ℕ → List UInt8 → Prop} (h_yields : ∀ s, Yields (entry s) P)
    (h_pos : ∀ x bs, P x bs → 0 < bs.length) {src : Source} {p : Position} {limit n : ℕ}
    (h_le : p.offset ≤ src.encoded.length) (h_limit : limit ≤ src.encoded.length)
    (h_n : src.encoded.length ≤ n) (s : ℕ × ℕ) :
    whileBelow limit entry n s src p = whileBelow limit entry src.encoded.length s src p := by
  refine whileBelow_fuel (fun s src p x q h_le h_run => ?_) s h_le (by omega) (by omega)
  obtain ⟨bs, h_ahead, h_off, h_P⟩ := h_yields s src p q x h_le h_run
  have h_bs := h_pos x bs h_P
  have h_end := h_ahead.le
  omega

/-! ### Round trips -/

/-- A table has its size. -/
theorem wire_table_ne_nil (t : Table) : t.wire ≠ [] := by
  intro h
  have h_len := congrArg List.length h
  simp [Table.wire] at h_len

/-- The decoder takes a table back from anywhere in a buffer. -/
theorem decodes_amqp_decode_table {t : Table} (h_keys : t.ShortKeys)
    (h_size : t.wire.length < 2 ^ 32) : Decodes amqp_decode_table t.wire t := by
  intro src p h_ahead
  have h_le := h_ahead.le
  have h_wire : t.wire.length = 4 + (wireTableEntries t).length := by
    rw [Table.wire, List.length_append, BigEndian.length_bytes]
  -- a table has fewer levels than bytes, so the depth is enough
  refine decodes_table (src.encoded.length + 1) (by omega) ?_ src p h_ahead
  exact decodes_tableEntries t h_keys (by omega) (by omega)

/-- **A table is decoded as it was encoded**, wherever it was put, unless an allocation fails. -/
theorem amqp_decode_table_encode {t : Table} (h_keys : t.ShortKeys) {s s' : Sink}
    (h_size : s.len < 2 ^ 32) (h_run : amqp_encode_table t s = .ok () s') (memory : ℕ → Bool)
    (allocs : ℕ) :
    (∃ k, memory k = false) ∧ amqp_decode_table ⟨loadBytes s'.mem 0 s'.len, memory⟩
      ⟨s.offset, allocs⟩ = .error .noMemory ∨
      ∃ k, amqp_decode_table ⟨loadBytes s'.mem 0 s'.len, memory⟩ ⟨s.offset, allocs⟩ =
        .ok (t, ⟨s'.offset, k⟩) := by
  obtain ⟨h_s', h_ahead⟩ := (writes_table t).ahead (wire_table_ne_nil t) h_run memory
  -- what was written lies in the buffer, so its size fits into 32 bits
  have h_wire : t.wire.length < 2 ^ 32 := by
    have h_le : s.offset + t.wire.length ≤ (loadBytes s'.mem 0 s'.len).length := h_ahead.le
    rw [length_loadBytes, h_s'] at h_le
    exact lt_of_le_of_lt (by omega) (lt_of_le_of_lt h_le h_size)
  obtain ⟨k, h_decode⟩ := decodes_amqp_decode_table h_keys h_wire _ ⟨s.offset, allocs⟩ h_ahead
  rcases robust_amqp_decode_table ⟨loadBytes s'.mem 0 s'.len, memory⟩ ⟨s.offset, allocs⟩ with
    h_none | h_same
  · exact .inl h_none
  · -- no allocation makes a difference
    refine .inr ⟨k, h_same.trans ?_⟩
    rw [h_s'] at h_decode ⊢
    exact h_decode

/-- A table in a table: the capabilities of a party among its properties. -/
def nestedTable : Table := [([99], .table [([97], .boolean true), ([98], .number .u16 7)])]

theorem amqp_decode_table_encode_nested :
    ∃ s' k, amqp_encode_table nestedTable ⟨fun _ => 0, 32, 0⟩ = .ok () s' ∧
      amqp_decode_table ⟨loadBytes s'.mem 0 s'.len, fun _ => true⟩ ⟨0, 0⟩ =
        .ok (nestedTable, ⟨s'.offset, k⟩) := by
  obtain ⟨s', h_run⟩ : ∃ s', amqp_encode_table nestedTable ⟨fun _ => 0, 32, 0⟩ = .ok () s' :=
    ⟨_, rfl⟩
  have h_keys : nestedTable.ShortKeys :=
    ⟨by decide, ⟨by decide, trivial, by decide, trivial, trivial⟩, trivial⟩
  rcases amqp_decode_table_encode h_keys (by decide) h_run (fun _ => true) 0 with
    ⟨⟨k, h_memory⟩, -⟩ | ⟨k, h_decode⟩
  · cases h_memory
  · exact ⟨s', k, h_run, h_decode⟩

/-- **A decoded table is encoded again** in as many bytes as it was decoded from, and decoded from
these it is the same table. -/
theorem amqp_encode_table_decode {t : Table} {src : Source} {p q : Position}
    (h_le : p.offset ≤ src.encoded.length) (h_run : amqp_decode_table src p = .ok (t, q)) :
    p.offset < q.offset ∧ q.offset ≤ src.encoded.length ∧
      ∀ s : Sink, s.len < 2 ^ 32 → s.offset + (q.offset - p.offset) ≤ s.len →
        ∃ s', amqp_encode_table t s = .ok () s' ∧
          s'.offset = s.offset + (q.offset - p.offset) ∧
          ∃ k, amqp_decode_table (Source.mk (loadBytes s'.mem 0 s'.len) fun _ => true)
            ⟨s.offset, 0⟩ = .ok (t, ⟨s'.offset, k⟩) := by
  obtain ⟨bs, h_ahead, h_off, h_bs, h_keys⟩ := yields_amqp_decode_table src p q t h_le h_run
  have h_end := h_ahead.le
  have h_pos := List.length_pos_iff.mpr (wire_table_ne_nil t)
  -- the encoding has the length of the bytes that were taken
  have h_wire : t.wire.length = q.offset - p.offset := by omega
  refine ⟨by omega, by omega, fun s h_len h_room => ?_⟩
  have h_encode := (writes_table t).fits s (.inr (by omega))
  refine ⟨s.written t.wire, h_encode, ?_, ?_⟩
  · change s.offset + t.wire.length = _
    rw [h_wire]
  obtain ⟨-, h_ahead'⟩ := (writes_table t).ahead (wire_table_ne_nil t) h_encode fun _ => true
  obtain ⟨src', h_src'⟩ : ∃ src', Source.mk (loadBytes (s.written t.wire).mem 0
    (s.written t.wire).len) (fun _ => true) = src' := ⟨_, rfl⟩
  have h_size : t.wire.length < 2 ^ 32 := by omega
  -- here all memory is there, so there is no other case
  have h_unlimited : src'.unlimited = src' := by
    rw [← h_src']
    rfl
  rw [h_src'] at h_ahead' ⊢
  obtain ⟨k, h_decode⟩ := decodes_amqp_decode_table h_keys h_size src' ⟨s.offset, 0⟩ h_ahead'
  rw [h_unlimited] at h_decode
  exact ⟨k, h_decode⟩

theorem amqp_encode_table_decode_nested :
    ∃ t q s' k, amqp_decode_table
        ⟨[0, 0, 0, 11, 1, 99, 70, 0, 0, 0, 4, 1, 97, 116, 9], fun _ => true⟩ ⟨0, 0⟩ = .ok (t, q) ∧
      t = [([99], .table [([97], .boolean true)])] ∧
      amqp_encode_table t ⟨fun _ => 0, 15, 0⟩ = .ok () s' ∧ s'.offset = 15 ∧
      amqp_decode_table ⟨loadBytes s'.mem 0 s'.len, fun _ => true⟩ ⟨0, 0⟩ =
        .ok (t, ⟨s'.offset, k⟩) := by
  obtain ⟨q, h_run, h_q⟩ : ∃ q, amqp_decode_table
      ⟨[0, 0, 0, 11, 1, 99, 70, 0, 0, 0, 4, 1, 97, 116, 9], fun _ => true⟩ ⟨0, 0⟩ =
        .ok ([([99], .table [([97], .boolean true)])], q) ∧ q.offset = 15 := ⟨_, rfl, rfl⟩
  obtain ⟨-, -, h_encode⟩ := amqp_encode_table_decode (Nat.zero_le _) h_run
  obtain ⟨s', h_s', h_offset, k, h_decode⟩ :=
    h_encode ⟨fun _ => 0, 15, 0⟩ (by decide) (by rw [h_q]; exact Nat.le_refl 15)
  refine ⟨_, q, s', k, h_run, rfl, h_s', ?_, h_decode⟩
  rw [h_offset, h_q]
  rfl

end Amqp
end WateRMQ
