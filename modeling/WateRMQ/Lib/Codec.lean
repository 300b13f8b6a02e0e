import WateRMQ.Lib.Memory

/-!
# Encoders and decoders over buffers

An encoder fills a buffer of fixed length from an offset on, and a decoder reads a buffer from an
offset on. Both may fail, and both check the room that is left before they touch it.

* `Writes w bs` — the encoder `w` puts exactly `bs` behind what is there, when there is room for it;
  when there is not, it fails and has written nothing outside the room that there is;
* `Decodes r bs a` — where `bs` lies ahead, the decoder `r` takes exactly these bytes and gives `a`;
* `Spans r width` — every value that `r` gives accounts for exactly the bytes that it took;
* `Robust e r` — when an allocation fails, `r` fails with `e` or does the same.

Each of them comes with the rules for sequences and loops. `backpatch` is an encoder that leaves a
gap in front of a body and fills in the size of the body afterwards; `counted` makes the number of
bytes the result of an encoder; `whileBelow` is the loop that decodes entries until a limit is
reached.
-/

namespace CMem

/-- Two stores, one behind the other. -/
theorem storeBytes_storeBytes (m : Bytes) (a : ℕ) (u v : List UInt8) :
    storeBytes (storeBytes m a u) (a + u.length) v = storeBytes m a (u ++ v) := by
  funext i
  -- the byte lies in front of both, in `u`, in `v`, or behind both
  rcases Nat.lt_or_ge i a with h_below | h_above
  · rw [storeBytes_of_outside _ (by omega), storeBytes_of_outside _ (by omega),
      storeBytes_of_outside _ (by omega)]
  obtain ⟨j, rfl⟩ := Nat.exists_eq_add_of_le h_above
  by_cases h_u : j < u.length
  · have h_uv : j < (u ++ v).length := by
      rw [List.length_append]
      omega
    rw [storeBytes_of_outside _ (by omega), storeBytes_of_inside m a h_u,
      storeBytes_of_inside m a h_uv, List.getElem_append_left h_u]
  obtain ⟨k, rfl⟩ := Nat.exists_eq_add_of_le (Nat.ge_of_not_lt h_u)
  by_cases h_v : k < v.length
  · have h_uv : u.length + k < (u ++ v).length := by
      rw [List.length_append]
      omega
    rw [← Nat.add_assoc, storeBytes_of_inside _ _ h_v, Nat.add_assoc,
      storeBytes_of_inside m a h_uv, List.getElem_append_right (by omega)]
    simp only [Nat.add_sub_cancel_left]
  · rw [storeBytes_of_outside _ (by omega), storeBytes_of_outside _ (by omega),
      storeBytes_of_outside _ (by rw [List.length_append]; omega)]

/-- A gap that is filled after what comes behind it. -/
theorem storeBytes_gap (m : Bytes) (a : ℕ) (u v : List UInt8) :
    storeBytes (storeBytes m (a + u.length) v) a u = storeBytes m a (u ++ v) := by
  rw [← storeBytes_storeBytes]
  funext i
  -- outside of the gap both sides are what `v` left
  by_cases h_u : a ≤ i ∧ i < a + u.length
  · obtain ⟨j, rfl⟩ := Nat.exists_eq_add_of_le h_u.1
    have h_j : j < u.length := by omega
    rw [storeBytes_of_inside _ _ h_j, storeBytes_of_outside _ (by omega),
      storeBytes_of_inside m a h_j]
  · have h_out : i < a ∨ a + u.length ≤ i := by omega
    rw [storeBytes_of_outside _ h_out, storeBytes, storeBytes, storeBytes_of_outside m h_out]

/-- The bytes of two neighbouring ranges. -/
theorem loadBytes_add (m : Bytes) (a n k : ℕ) :
    loadBytes m a (n + k) = loadBytes m a n ++ loadBytes m (a + n) k := by
  rw [loadBytes, List.range_add, List.map_append, List.map_map]
  refine congrArg _ (List.map_congr_left fun i _ => ?_)
  rw [Function.comp_apply, Nat.add_assoc]

end CMem

namespace Codec

open CMem

variable {ε α β σ : Type}

/-! ### Encoders -/

/-- A buffer of `len` bytes, with the offset of the next byte to write. -/
@[ext] structure Sink where
  mem : Bytes
  len : ℕ
  offset : ℕ

/-- An encoder. What it wrote before it failed stays in the buffer. -/
abbrev Encoder (ε : Type) := EStateM ε Sink

/-- The buffer with `bs` behind what was written. -/
def Sink.written (s : Sink) (bs : List UInt8) : Sink where
  mem := storeBytes s.mem s.offset bs
  len := s.len
  offset := s.offset + bs.length

/-- Write `bs` when there is room, and move on in any case. -/
def put (e : ε) (bs : List UInt8) : Encoder ε Unit := fun s =>
  if s.offset + bs.length ≤ s.len then .ok () (s.written bs)
  else .error e { s with offset := s.offset + bs.length }

/-- Leave a gap of `n` bytes, write the body, and put the size of the body into the gap. -/
def backpatch (n : ℕ) (e : ε) (size : ℕ → List UInt8) (body : Encoder ε Unit) : Encoder ε Unit := do
  let start := (← get).offset
  modify fun s => { s with offset := start + n }
  body
  let stop := (← get).offset
  modify fun s => { s with offset := start }
  put e (size (stop - start - n))
  modify fun s => { s with offset := stop }

/-- The encoder with the number of bytes that it wrote, in the type of the result, as its result. -/
def counted (result : ℕ → α) (w : Encoder ε Unit) : Encoder ε α := do
  let start := (← get).offset
  w
  let stop := (← get).offset
  return result (stop - start)

/-- The encoder puts exactly `bs` behind what is there, or fails for lack of room. -/
structure Writes (w : Encoder ε Unit) (bs : List UInt8) : Prop where
  fits : ∀ s : Sink, bs = [] ∨ s.offset + bs.length ≤ s.len → w s = .ok () (s.written bs)
  fails : ∀ s : Sink, bs ≠ [] → s.len < s.offset + bs.length →
    ∃ e t, w s = .error e t ∧ t.len = s.len ∧
      ∀ i, i < s.offset ∨ s.len ≤ i → t.mem i = s.mem i

/-- Nothing written leaves the buffer as it is. -/
@[simp] theorem Sink.written_nil (s : Sink) : s.written [] = s := by
  refine Sink.ext ?_ rfl rfl
  funext i
  exact storeBytes_of_outside s.mem (by rw [List.length_nil]; omega)

/-- Two pieces written one after the other. -/
theorem Sink.written_written (s : Sink) (u v : List UInt8) :
    (s.written u).written v = s.written (u ++ v) := by
  refine Sink.ext (storeBytes_storeBytes _ _ _ _) rfl ?_
  change s.offset + u.length + v.length = s.offset + (u ++ v).length
  rw [List.length_append, Nat.add_assoc]

/-- `put` writes its bytes, of which there must be one: `put` of none fails behind the end. -/
theorem writes_put (e : ε) (bs : List UInt8) (h : bs ≠ []) : Writes (put e bs) bs where
  fits s h_room := by
    obtain h_nil | h_le := h_room
    · exact absurd h_nil h
    · exact if_pos h_le
  fails s _ h_lt :=
    ⟨e, _, if_neg (Nat.not_le.mpr h_lt), rfl, fun _ _ => rfl⟩

/-- Doing nothing writes nothing. -/
theorem writes_pure : Writes (pure () : Encoder ε Unit) [] where
  fits s _ := by rw [s.written_nil]; rfl
  fails _ h_ne _ := absurd rfl h_ne

/-- Encoders in sequence write their bytes in sequence. -/
theorem Writes.bind {w w' : Encoder ε Unit} {u v : List UInt8} (h : Writes w u) (h' : Writes w' v) :
    Writes (w >>= fun _ => w') (u ++ v) where
  fits s h_room := by
    -- room for both is room for each where its turn comes
    have h_u : u = [] ∨ s.offset + u.length ≤ s.len := by
      rw [List.append_eq_nil_iff, List.length_append] at h_room
      rcases h_room with h_room | h_room
      · exact .inl h_room.1
      · exact .inr (by omega)
    have h_v : v = [] ∨ (s.written u).offset + v.length ≤ (s.written u).len := by
      change v = [] ∨ s.offset + u.length + v.length ≤ s.len
      rw [List.append_eq_nil_iff, List.length_append] at h_room
      rcases h_room with h_room | h_room
      · exact .inl h_room.2
      · exact .inr (by omega)
    change EStateM.bind w (fun _ => w') s = _
    rw [EStateM.bind, h.fits s h_u]
    change w' (s.written u) = _
    rw [h'.fits _ h_v, s.written_written]
  fails s h_ne h_lt := by
    rw [List.length_append] at h_lt
    change ∃ e t, EStateM.bind w (fun _ => w') s = .error e t ∧ _
    rw [EStateM.bind]
    by_cases h_u : u = [] ∨ s.offset + u.length ≤ s.len
    · -- the first one fits, so the second one does not
      have h_v : v ≠ [] := by
        rintro rfl
        rw [List.append_nil] at h_ne
        rw [List.length_nil] at h_lt
        rcases h_u with h_u | h_u
        · exact h_ne h_u
        · omega
      have h_lt' : (s.written u).len < (s.written u).offset + v.length := by
        change s.len < s.offset + u.length + v.length
        omega
      obtain ⟨e, t, h_run, h_len, h_mem⟩ := h'.fails (s.written u) h_v h_lt'
      refine ⟨e, t, ?_, h_len, ?_⟩
      · rw [h.fits s h_u]
        exact h_run
      · intro i hi
        have h_i : i < (s.written u).offset ∨ (s.written u).len ≤ i := by
          change i < s.offset + u.length ∨ s.len ≤ i
          omega
        -- outside of the room the first one has changed nothing
        rw [h_mem i h_i]
        refine storeBytes_of_outside _ ?_
        rcases h_u with rfl | h_u
        · rw [List.length_nil]
          omega
        · omega
    · -- the first one does not fit, and the second one is not reached
      push Not at h_u
      obtain ⟨e, t, h_run, h_rest⟩ := h.fails s h_u.1 h_u.2
      exact ⟨e, t, by rw [h_run], h_rest⟩

/-- The result of an encoder that succeeded. -/
theorem counted_of_ok {result : ℕ → α} {w : Encoder ε Unit} {s t : Sink} (h : w s = .ok () t) :
    counted result w s = .ok (result (t.offset - s.offset)) t := by
  change EStateM.bind w _ s = _
  rw [EStateM.bind, h]
  rfl

/-- An encoder that failed has no result. -/
theorem counted_of_error {result : ℕ → α} {w : Encoder ε Unit} {e : ε} {s t : Sink}
    (h : w s = .error e t) : counted result w s = .error e t := by
  change EStateM.bind w _ s = _
  rw [EStateM.bind, h]

/-- The body is written, and its size fits into the gap. -/
theorem backpatch_of_ok {n : ℕ} {e : ε} {size : ℕ → List UInt8} {body : Encoder ε Unit}
    {s t : Sink} (h : body { s with offset := s.offset + n } = .ok () t)
    (h_put : s.offset + (size (t.offset - s.offset - n)).length ≤ t.len) :
    backpatch n e size body s =
      .ok () { t with mem := storeBytes t.mem s.offset (size (t.offset - s.offset - n)) } := by
  change EStateM.bind body _ { s with offset := s.offset + n } = _
  rw [EStateM.bind, h]
  change EStateM.bind (put e (size (t.offset - s.offset - n))) _ { t with offset := s.offset } = _
  rw [EStateM.bind, put, if_pos h_put]
  rfl

/-- The body fails, and the gap stays. -/
theorem backpatch_of_error {n : ℕ} {e e' : ε} {size : ℕ → List UInt8} {body : Encoder ε Unit}
    {s t : Sink} (h : body { s with offset := s.offset + n } = .error e' t) :
    backpatch n e size body s = .error e' t := by
  change EStateM.bind body _ { s with offset := s.offset + n } = _
  rw [EStateM.bind, h]

/-- The body is written, but there is no room for its size. -/
theorem backpatch_of_full {n : ℕ} {e : ε} {size : ℕ → List UInt8} {body : Encoder ε Unit}
    {s t : Sink} (h : body { s with offset := s.offset + n } = .ok () t)
    (h_put : t.len < s.offset + (size (t.offset - s.offset - n)).length) :
    ∃ u, backpatch n e size body s = .error e u ∧ u.mem = t.mem ∧ u.len = t.len := by
  refine ⟨{ t with offset := s.offset + (size (t.offset - s.offset - n)).length }, ?_, rfl, rfl⟩
  change EStateM.bind body _ { s with offset := s.offset + n } = _
  rw [EStateM.bind, h]
  change EStateM.bind (put e (size (t.offset - s.offset - n))) _ { t with offset := s.offset } = _
  rw [EStateM.bind, put, if_neg (Nat.not_le.mpr h_put)]

/-- A body with its size in front of it. -/
theorem Writes.backpatch {n : ℕ} {e : ε} {size : ℕ → List UInt8} {body : Encoder ε Unit}
    {bs : List UInt8} (h : Writes body bs) (h_size : ∀ k, (size k).length = n) (h_pos : 0 < n) :
    Writes (backpatch n e size body) (size bs.length ++ bs) where
  fits s h_room := by
    -- the size is never empty, so there is room for all of it
    have h_ne : size bs.length ++ bs ≠ [] := by
      intro h_nil
      have h_len := congrArg List.length h_nil
      rw [List.length_append, h_size, List.length_nil] at h_len
      omega
    have h_le : s.offset + n + bs.length ≤ s.len := by
      have h_le := h_room.resolve_left h_ne
      rw [List.length_append, h_size] at h_le
      omega
    have h_body := h.fits { s with offset := s.offset + n } (.inr h_le)
    -- the bytes of the body are counted from behind the gap
    have h_gap : s.offset + n + bs.length - s.offset - n = bs.length := by omega
    have h_put : s.offset + (size (s.offset + n + bs.length - s.offset - n)).length ≤ s.len := by
      rw [h_size]
      omega
    rw [backpatch_of_ok h_body h_put]
    refine congrArg _ (Sink.ext ?_ rfl ?_)
    · -- the size goes into the gap in front of the body
      change storeBytes (storeBytes s.mem (s.offset + n) bs) s.offset _ =
        storeBytes s.mem s.offset (size bs.length ++ bs)
      change storeBytes _ s.offset (size (s.offset + n + bs.length - s.offset - n)) = _
      have h_fill := storeBytes_gap s.mem s.offset (size bs.length) bs
      rw [h_size] at h_fill
      rw [h_gap, h_fill]
    · change s.offset + n + bs.length = s.offset + (size bs.length ++ bs).length
      rw [List.length_append, h_size, Nat.add_assoc]
  fails s h_ne h_lt := by
    rw [List.length_append, h_size] at h_lt
    by_cases h_bs : bs = []
    · -- an empty body succeeds anywhere, but there is no room for its size
      subst h_bs
      have h_body := h.fits { s with offset := s.offset + n } (.inl rfl)
      rw [Sink.written_nil] at h_body
      have h_put : s.len < s.offset + (size (s.offset + n - s.offset - n)).length := by
        rw [h_size]
        rw [List.length_nil] at h_lt
        omega
      obtain ⟨u, h_run, h_mem, h_len⟩ := backpatch_of_full (e := e) h_body h_put
      exact ⟨e, u, h_run, h_len, fun i _ => congrFun h_mem i⟩
    · -- the body itself does not fit behind the gap
      have h_lt' : s.len < s.offset + n + bs.length := by omega
      obtain ⟨e', t, h_run, h_len, h_mem⟩ := h.fails { s with offset := s.offset + n } h_bs h_lt'
      refine ⟨e', t, backpatch_of_error h_run, h_len, fun i hi => h_mem i ?_⟩
      change i < s.offset + n ∨ s.len ≤ i
      omega

/-! ### Decoders -/

/-- What a decoder works with: the bytes to decode, and which of its allocations succeed. -/
structure Source where
  encoded : List UInt8
  memory : ℕ → Bool

/-- Where a decoder is: the offset of the next byte, and how often it has allocated. -/
structure Position where
  offset : ℕ
  allocs : ℕ

abbrev Reader (ε : Type) := ReaderT Source (StateT Position (Except ε))

/-- The error `e`. -/
def fail (e : ε) : Reader ε α := fun _ _ => .error e

/-- The next `n` bytes, when they are there. -/
def take (e : ε) (n : ℕ) : Reader ε (List UInt8) := fun src p =>
  if p.offset + n ≤ src.encoded.length then
    .ok ((src.encoded.drop p.offset).take n, { p with offset := p.offset + n })
  else .error e

/-- An allocation. -/
def alloc (e : ε) : Reader ε Unit := fun src p =>
  if src.memory p.allocs then .ok ((), { p with allocs := p.allocs + 1 }) else .error e

/-- Decode entries until the offset reaches a limit. `n` bounds the number of entries. -/
def whileBelow (limit : ℕ) (body : σ → Reader ε (α × σ)) : ℕ → σ → Reader ε (List α)
  | 0, _ => pure []
  | n + 1, s => do
    if limit ≤ (← get).offset then
      return []
    let (a, s) ← body s
    let l ← whileBelow limit body n s
    return a :: l

/-- The bytes `bs` lie from the offset `o` on. -/
def Source.Ahead (src : Source) (o : ℕ) (bs : List UInt8) : Prop :=
  ∃ before after, src.encoded = before ++ (bs ++ after) ∧ before.length = o

/-- The source with as much memory as anyone asks for. -/
def Source.unlimited (src : Source) : Source := { src with memory := fun _ => true }

/-- Where the bytes `bs` lie ahead, the decoder takes them and gives `a`. -/
def Decodes (r : Reader ε α) (bs : List UInt8) (a : α) : Prop :=
  ∀ (src : Source) (p : Position), src.Ahead p.offset bs →
    ∃ k, r src.unlimited p = .ok (a, ⟨p.offset + bs.length, k⟩)

/-- What the decoder gives, and the bytes that it takes for it, satisfy `P`. -/
def Yields (r : Reader ε α) (P : α → List UInt8 → Prop) : Prop :=
  ∀ (src : Source) (p q : Position) (a : α), p.offset ≤ src.encoded.length →
    r src p = .ok (a, q) →
      ∃ bs, src.Ahead p.offset bs ∧ q.offset = p.offset + bs.length ∧ P a bs

/-- The decoder fails with `e` because an allocation fails, or it does what it does with as much
memory as it asks for. -/
def Robust (e : ε) (r : Reader ε α) : Prop :=
  ∀ (src : Source) (p : Position),
    (∃ k, src.memory k = false) ∧ r src p = .error e ∨ r src p = r src.unlimited p

/-- A sequence of decoders at a position. -/
theorem reader_bind (r : Reader ε α) (f : α → Reader ε β) (src : Source) (p : Position) :
    (r >>= f) src p = r src p >>= fun x => f x.1 src x.2 := rfl

/-- The first part of what lies ahead lies ahead. -/
theorem Source.Ahead.left {src : Source} {o : ℕ} {u v : List UInt8} (h : src.Ahead o (u ++ v)) :
    src.Ahead o u := by
  obtain ⟨before, after, h_eq, h_len⟩ := h
  exact ⟨before, v ++ after, by rw [h_eq, List.append_assoc], h_len⟩

/-- The second part of what lies ahead lies ahead behind the first one. -/
theorem Source.Ahead.right {src : Source} {o : ℕ} {u v : List UInt8} (h : src.Ahead o (u ++ v)) :
    src.Ahead (o + u.length) v := by
  obtain ⟨before, after, h_eq, h_len⟩ := h
  refine ⟨before ++ u, after, ?_, ?_⟩
  · rw [h_eq]
    simp only [List.append_assoc]
  · rw [List.length_append, h_len]

/-- Two parts that lie one behind the other. -/
theorem Source.Ahead.append {src : Source} {o : ℕ} {u v : List UInt8} (h : src.Ahead o u)
    (h' : src.Ahead (o + u.length) v) : src.Ahead o (u ++ v) := by
  obtain ⟨before, after, h_eq, h_len⟩ := h
  obtain ⟨before', after', h_eq', h_len'⟩ := h'
  refine ⟨before, after', ?_, h_len⟩
  -- both decompositions of the source agree up to the end of `u`
  have h_before : before ++ u = before' := by
    refine List.append_inj_left (?_ : (before ++ u) ++ after = _ ++ (v ++ after')) ?_
    · rw [List.append_assoc, ← h_eq, h_eq']
    · rw [List.length_append, h_len, h_len']
  rw [h_eq', ← h_before, List.append_assoc, List.append_assoc]

/-- What lies ahead ends where the source ends, or before. -/
theorem Source.Ahead.le {src : Source} {o : ℕ} {bs : List UInt8} (h : src.Ahead o bs) :
    o + bs.length ≤ src.encoded.length := by
  obtain ⟨before, after, h_eq, h_len⟩ := h
  rw [h_eq, List.length_append, List.length_append, h_len]
  omega

/-! ### Encoders that may refuse a value -/

/-- Whatever the encoder does, it writes nothing outside the room that there is. -/
def Confined (w : Encoder ε Unit) : Prop :=
  ∀ s : Sink, ∃ t, (w s = .ok () t ∧ s.offset ≤ t.offset ∨ ∃ e, w s = .error e t) ∧
    t.len = s.len ∧ ∀ i, i < s.offset ∨ s.len ≤ i → t.mem i = s.mem i

/-- The encoder never succeeds. -/
def Refuses (w : Encoder ε Unit) : Prop := ∀ s t, w s ≠ .ok () t

/-- An encoder that writes exactly `bs` is confined. -/
theorem Writes.confined {w : Encoder ε Unit} {bs : List UInt8} (h : Writes w bs) : Confined w := by
  intro s
  by_cases h_room : bs = [] ∨ s.offset + bs.length ≤ s.len
  · refine ⟨s.written bs, .inl ⟨h.fits s h_room, Nat.le_add_right _ _⟩, rfl, fun i hi => ?_⟩
    refine storeBytes_of_outside _ ?_
    rcases h_room with rfl | h_room
    · rw [List.length_nil]
      omega
    · omega
  · -- without room the encoder fails, and by `fails` it keeps to the room then, too
    push Not at h_room
    obtain ⟨e, t, h_run, h_len, h_mem⟩ := h.fails s h_room.1 h_room.2
    exact ⟨t, .inr ⟨e, h_run⟩, h_len, h_mem⟩

/-- A refusal writes nothing. -/
theorem confined_throw (e : ε) : Confined (throw e : Encoder ε Unit) :=
  fun s => ⟨s, .inr ⟨e, rfl⟩, rfl, fun _ _ => rfl⟩

/-- Confined encoders in sequence are confined. -/
theorem Confined.bind {w w' : Encoder ε Unit} (h : Confined w) (h' : Confined w') :
    Confined (w >>= fun _ => w') := by
  intro s
  -- the second one starts where the first one has come to, which is not further back
  obtain ⟨t, h_run, h_len, h_mem⟩ := h s
  rcases h_run with ⟨h_run, h_off⟩ | ⟨e, h_run⟩
  · obtain ⟨u, h_run', h_len', h_mem'⟩ := h' t
    have h_bind : (w >>= fun _ => w') s = w' t := by
      change EStateM.bind w (fun _ => w') s = _
      rw [EStateM.bind, h_run]
    refine ⟨u, ?_, h_len'.trans h_len, fun i hi => ?_⟩
    · rw [h_bind]
      exact h_run'.imp_left fun h_ok => ⟨h_ok.1, h_off.trans h_ok.2⟩
    · rw [h_mem' i (by omega), h_mem i hi]
  · refine ⟨t, .inr ⟨e, ?_⟩, h_len, h_mem⟩
    change EStateM.bind w (fun _ => w') s = _
    rw [EStateM.bind, h_run]

/-- A refusal is one. -/
theorem refuses_throw (e : ε) : Refuses (throw e : Encoder ε Unit) := fun _ _ h => by cases h

/-- A sequence of which one part refuses refuses. -/
theorem Refuses.bind {w w' : Encoder ε Unit} (h : Refuses w ∨ Refuses w') :
    Refuses (w >>= fun _ => w') := by
  intro s t h_run
  change EStateM.bind w (fun _ => w') s = _ at h_run
  rw [EStateM.bind] at h_run
  cases h_w : w s with
  | error e u =>
    rw [h_w] at h_run
    cases h_run
  | ok _ u =>
    rw [h_w] at h_run
    rcases h with h | h
    · exact h s u h_w
    · exact h u t h_run

/-- An encoder that succeeded had room, and has written its bytes. -/
theorem Writes.of_ok {w : Encoder ε Unit} {bs : List UInt8} (h : Writes w bs) {s t : Sink}
    (h_run : w s = .ok () t) : t = s.written bs ∧ (bs = [] ∨ s.offset + bs.length ≤ s.len) := by
  have h_room : bs = [] ∨ s.offset + bs.length ≤ s.len := by
    -- without room it would have failed
    by_contra h_not
    push Not at h_not
    obtain ⟨e, u, h_error, -⟩ := h.fails s h_not.1 h_not.2
    rw [h_run] at h_error
    cases h_error
  have h_ok := h.fits s h_room
  rw [h_run] at h_ok
  cases h_ok
  exact ⟨rfl, h_room⟩

/-- What an encoder wrote lies ahead in its buffer. -/
theorem Writes.ahead {w : Encoder ε Unit} {bs : List UInt8} (h : Writes w bs) (h_ne : bs ≠ [])
    {s t : Sink} (h_run : w s = .ok () t) (memory : ℕ → Bool) :
    t = s.written bs ∧ (Source.mk (loadBytes t.mem 0 t.len) memory).Ahead s.offset bs := by
  obtain ⟨h_t, h_fits⟩ := h.of_ok h_run
  have h_room : s.offset + bs.length ≤ s.len := h_fits.resolve_left h_ne
  refine ⟨h_t, loadBytes t.mem 0 s.offset, loadBytes t.mem (s.offset + bs.length)
    (s.len - (s.offset + bs.length)), ?_, length_loadBytes _ _ _⟩
  -- what is behind the bytes is what was there before
  have h_bytes : loadBytes t.mem s.offset (s.len - s.offset) =
      bs ++ loadBytes s.mem (s.offset + bs.length) (s.len - s.offset - bs.length) := by
    rw [h_t]
    exact loadBytes_storeBytes_same _ _ (by omega)
  have h_behind : loadBytes s.mem (s.offset + bs.length) (s.len - s.offset - bs.length) =
      loadBytes t.mem (s.offset + bs.length) (s.len - (s.offset + bs.length)) := by
    rw [h_t, Nat.sub_sub]
    exact (loadBytes_storeBytes_disjoint _ (.inr (Nat.le_refl _))).symm
  have h_len : t.len = s.offset + (s.len - s.offset) := by
    rw [h_t]
    change s.len = _
    omega
  rw [h_len, loadBytes_add, Nat.zero_add, h_bytes, h_behind]

/-! ### Decoders that read what was written -/

/-- A constant takes nothing. -/
theorem decodes_pure (a : α) : Decodes (pure a : Reader ε α) [] a :=
  fun _ p _ => ⟨p.allocs, rfl⟩

/-- `take` takes the bytes that lie ahead. -/
theorem decodes_take (e : ε) {n : ℕ} {bs : List UInt8} (h : bs.length = n) :
    Decodes (take e n) bs bs := by
  subst h
  intro src p h_ahead
  refine ⟨p.allocs, ?_⟩
  have h_le : p.offset + bs.length ≤ src.unlimited.encoded.length := h_ahead.le
  rw [take, if_pos h_le]
  obtain ⟨before, after, h_eq, h_len⟩ := h_ahead
  change Except.ok ((src.encoded.drop p.offset).take bs.length, _) = _
  rw [h_eq, ← h_len, List.drop_left, List.take_left]

/-- An allocation takes no bytes. -/
theorem decodes_alloc (e : ε) : Decodes (alloc e) [] () :=
  fun _ p _ => ⟨p.allocs + 1, rfl⟩

/-- Decoders in sequence take their bytes in sequence. -/
theorem Decodes.bind {r : Reader ε α} {f : α → Reader ε β} {u v : List UInt8} {a : α} {b : β}
    (h : Decodes r u a) (h' : Decodes (f a) v b) : Decodes (r >>= f) (u ++ v) b := by
  intro src p h_ahead
  obtain ⟨k, h_run⟩ := h src p h_ahead.left
  obtain ⟨k', h_run'⟩ := h' src ⟨p.offset + u.length, k⟩ h_ahead.right
  refine ⟨k', ?_⟩
  rw [reader_bind, h_run]
  change f a src.unlimited ⟨p.offset + u.length, k⟩ = _
  rw [h_run', List.length_append, Nat.add_assoc]

/-- A decoder followed by one that takes nothing. -/
theorem Decodes.bind_nil {r : Reader ε α} {f : α → Reader ε β} {u : List UInt8} {a : α} {b : β}
    (h : Decodes r u a) (h' : Decodes (f a) [] b) : Decodes (r >>= f) u b := by
  have h_bind := h.bind h'
  rwa [List.append_nil] at h_bind

/-- A decoder after one that takes nothing. -/
theorem Decodes.nil_bind {r : Reader ε α} {f : α → Reader ε β} {u : List UInt8} {a : α} {b : β}
    (h : Decodes r [] a) (h' : Decodes (f a) u b) : Decodes (r >>= f) u b :=
  h.bind h'

/-- The loop reads the entries that lie between the offset and the limit. -/
theorem decodes_whileBelow {body : σ → Reader ε (α × σ)} {enc : α → List UInt8} {l : List α}
    {limit n : ℕ} {src : Source} {p : Position} (s : σ)
    (h : ∀ a ∈ l, ∀ s, ∃ s', Decodes (body s) (enc a) (a, s')) (h_ne : ∀ a ∈ l, enc a ≠ [])
    (h_ahead : src.Ahead p.offset (l.flatMap enc))
    (h_limit : limit = p.offset + (l.flatMap enc).length) (h_fuel : l.length ≤ n) :
    ∃ k, whileBelow limit body n s src.unlimited p = .ok (l, ⟨limit, k⟩) := by
  induction l generalizing n p s with
  | nil =>
    have h_end : limit = p.offset := h_limit
    refine ⟨p.allocs, ?_⟩
    cases n with
    | zero => rw [h_end]; rfl
    | succ n =>
      change (if limit ≤ p.offset then _ else _ : Reader ε (List α)) src.unlimited p = _
      rw [if_pos h_end.le, h_end]
      rfl
  | cons a l ih =>
    cases n with
    | zero => cases h_fuel
    | succ n =>
      rw [List.flatMap_cons] at h_ahead h_limit
      -- an entry has at least one byte, so the limit is not reached yet
      have h_pos : 0 < (enc a).length :=
        List.length_pos_iff.mpr (h_ne a List.mem_cons_self)
      have h_lt : ¬ limit ≤ p.offset := by
        rw [h_limit, List.length_append]
        omega
      -- the first entry is read, and the loop goes on behind it
      obtain ⟨s', h_reads⟩ := h a List.mem_cons_self s
      obtain ⟨k, h_run⟩ := h_reads src p h_ahead.left
      obtain ⟨k', h_rest⟩ := ih (n := n) (p := ⟨p.offset + (enc a).length, k⟩) s'
        (fun b hb => h b (List.mem_cons_of_mem a hb))
        (fun b hb => h_ne b (List.mem_cons_of_mem a hb)) h_ahead.right
        (by rw [h_limit, List.length_append, Nat.add_assoc]) (Nat.le_of_succ_le_succ h_fuel)
      refine ⟨k', ?_⟩
      change (if limit ≤ p.offset then _ else _ : Reader ε (List α)) src.unlimited p = _
      rw [if_neg h_lt, reader_bind, h_run]
      change (whileBelow limit body n s' >>= fun l => pure (a :: l)) src.unlimited
        ⟨p.offset + (enc a).length, k⟩ = _
      rw [reader_bind, h_rest]
      rfl

/-! ### What a decoder gives for any bytes -/

/-- What a sequence gives comes from its second part, behind what the first part gave. -/
theorem bind_ok {r : Reader ε α} {f : α → Reader ε β} {src : Source} {p q : Position} {b : β}
    (h : (r >>= f) src p = .ok (b, q)) : ∃ a t, r src p = .ok (a, t) ∧ f a src t = .ok (b, q) := by
  rw [reader_bind] at h
  obtain ⟨⟨a, t⟩, h_r, h_f⟩ := bind_eq_ok.mp h
  exact ⟨a, t, h_r, h_f⟩

/-- A constant is given for no bytes. -/
theorem yields_pure (a : α) {P : α → List UInt8 → Prop} (h : P a []) :
    Yields (pure a : Reader ε α) P := by
  intro src p q b h_le h_run
  cases h_run
  refine ⟨[], ⟨src.encoded.take p.offset, src.encoded.drop p.offset, ?_, ?_⟩, rfl, h⟩
  · exact (List.take_append_drop _ _).symm
  · rw [List.length_take, Nat.min_eq_left h_le]

/-- A failure gives nothing. -/
theorem yields_fail (e : ε) {P : α → List UInt8 → Prop} : Yields (fail e : Reader ε α) P := by
  intro src p q a _ h_run
  cases h_run

/-- `take` gives the bytes that it takes. -/
theorem yields_take (e : ε) (n : ℕ) : Yields (take e n) fun a bs => a = bs ∧ bs.length = n := by
  intro src p q a _ h_run
  rw [take] at h_run
  split at h_run
  case isTrue h_le =>
    cases h_run
    -- the bytes that are taken are all there
    have h_len : ((src.encoded.drop p.offset).take n).length = n := by
      rw [List.length_take, List.length_drop]
      omega
    refine ⟨_, ⟨src.encoded.take p.offset, (src.encoded.drop p.offset).drop n, ?_, ?_⟩, ?_, rfl,
      h_len⟩
    · rw [List.take_append_drop, List.take_append_drop]
    · rw [List.length_take]
      omega
    · rw [h_len]
  case isFalse => cases h_run

/-- An allocation takes no bytes. -/
theorem yields_alloc (e : ε) : Yields (alloc e) fun _ bs => bs = [] := by
  intro src p q a h_le h_run
  rw [alloc] at h_run
  split at h_run
  case isTrue =>
    cases h_run
    refine ⟨[], ⟨src.encoded.take p.offset, src.encoded.drop p.offset, ?_, ?_⟩, rfl, rfl⟩
    · exact (List.take_append_drop _ _).symm
    · rw [List.length_take, Nat.min_eq_left h_le]
  case isFalse => cases h_run

/-- What is given and taken satisfies every weaker condition. -/
theorem Yields.mono {r : Reader ε α} {P Q : α → List UInt8 → Prop} (h : Yields r P)
    (h_imp : ∀ a bs, P a bs → Q a bs) : Yields r Q := by
  intro src p q a h_le h_run
  obtain ⟨bs, h_ahead, h_off, h_P⟩ := h src p q a h_le h_run
  exact ⟨bs, h_ahead, h_off, h_imp a bs h_P⟩

/-- A sequence takes what its parts take, one behind the other. -/
theorem Yields.bind {r : Reader ε α} {f : α → Reader ε β} {P : α → List UInt8 → Prop}
    {Q : β → List UInt8 → Prop} (h : Yields r P)
    (h' : ∀ a bs, P a bs → Yields (f a) fun b cs => Q b (bs ++ cs)) : Yields (r >>= f) Q := by
  intro src p q b h_le h_run
  obtain ⟨a, t, h_r, h_f⟩ := bind_ok h_run
  obtain ⟨bs, h_ahead, h_off, h_P⟩ := h src p t a h_le h_r
  -- the second decoder starts behind the bytes of the first one, inside of the buffer
  have h_le' : t.offset ≤ src.encoded.length := h_off ▸ h_ahead.le
  obtain ⟨cs, h_ahead', h_off', h_Q⟩ := h' a bs h_P src t q b h_le' h_f
  rw [h_off] at h_ahead' h_off'
  refine ⟨bs ++ cs, h_ahead.append h_ahead', ?_, h_Q⟩
  rw [h_off', List.length_append, Nat.add_assoc]

/-- The part of a decoder that looks at its position. -/
theorem yields_get {f : Position → Reader ε β} {Q : β → List UInt8 → Prop}
    (h : ∀ t, Yields (f t) Q) : Yields (get >>= f) Q :=
  fun src p q b h_le h_run => h p src p q b h_le h_run

/-- The part of a decoder that looks at the bytes. -/
theorem yields_read {f : Source → Reader ε β} {Q : β → List UInt8 → Prop}
    (h : ∀ t, Yields (f t) Q) : Yields (read >>= f) Q :=
  fun src p q b h_le h_run => h src src p q b h_le h_run

/-- The loop gives its entries in order, each for the bytes that it took. -/
theorem yields_whileBelow {body : σ → Reader ε (α × σ)} {P : α → List UInt8 → Prop}
    (h : ∀ s, Yields (body s) fun x bs => P x.1 bs) (limit n : ℕ) (s : σ) :
    Yields (whileBelow limit body n s) fun l bs => ∃ parts, List.Forall₂ P l parts ∧
      bs = parts.flatten := by
  induction n generalizing s with
  | zero => exact yields_pure [] ⟨[], List.Forall₂.nil, rfl⟩
  | succ n ih =>
    refine yields_get fun t => ?_
    split
    · exact yields_pure [] ⟨[], List.Forall₂.nil, rfl⟩
    -- the first entry, and by induction those behind it
    refine (h s).bind fun x bs h_P => ?_
    refine (ih x.2).bind fun l cs h_l => ?_
    obtain ⟨parts, h_all, h_cs⟩ := h_l
    refine yields_pure _ ⟨bs :: parts, h_all.cons h_P, ?_⟩
    rw [List.append_nil, h_cs, List.flatten_cons]

/-- With enough fuel the loop ends because the limit is reached. -/
theorem whileBelow_fuel {body : σ → Reader ε (α × σ)}
    (h : ∀ s src p x q, p.offset ≤ src.encoded.length → body s src p = .ok (x, q) →
      p.offset < q.offset ∧ q.offset ≤ src.encoded.length)
    {limit n m : ℕ} (s : σ) {src : Source} {p : Position} (h_le : p.offset ≤ src.encoded.length)
    (hn : limit ≤ p.offset + n) (hm : limit ≤ p.offset + m) :
    whileBelow limit body n s src p = whileBelow limit body m s src p := by
  -- the induction is on the fuel of one side, with the offset general
  induction n generalizing m s p with
  | zero =>
    cases m with
    | zero => rfl
    | succ m =>
      change _ = (if limit ≤ p.offset then _ else _ : Reader ε (List α)) src p
      have h_end : limit ≤ p.offset := hn
      rw [if_pos h_end]
      rfl
  | succ n ih =>
    cases m with
    | zero =>
      change (if limit ≤ p.offset then _ else _ : Reader ε (List α)) src p = _
      have h_end : limit ≤ p.offset := hm
      rw [if_pos h_end]
      rfl
    | succ m =>
      change (if limit ≤ p.offset then _ else _ : Reader ε (List α)) src p =
        (if limit ≤ p.offset then _ else _ : Reader ε (List α)) src p
      split
      · rfl
      rw [reader_bind, reader_bind]
      cases h_run : body s src p with
      | error e => rfl
      | ok x =>
        obtain ⟨⟨a, s'⟩, q⟩ := x
        -- the entry has taken bytes, so that less fuel is enough behind it
        obtain ⟨h_lt, h_le'⟩ := h s src p (a, s') q h_le h_run
        change (whileBelow limit body n s' >>= fun l => pure (a :: l)) src q =
          (whileBelow limit body m s' >>= fun l => pure (a :: l)) src q
        rw [reader_bind, reader_bind, ih (m := m) s' h_le' (by omega) (by omega)]

/-- Two decoders do the same on some bytes from an offset on. -/
def AgreeFrom (src : Source) (lo : ℕ) (r r' : Reader ε α) : Prop :=
  ∀ p : Position, lo ≤ p.offset → p.offset ≤ src.encoded.length → r src p = r' src p

/-- A decoder does the same as itself. -/
theorem AgreeFrom.refl (src : Source) (lo : ℕ) (r : Reader ε α) : AgreeFrom src lo r r :=
  fun _ _ _ => rfl

/-- Behind a decoder that takes `k` bytes, the offset is `k` further. -/
theorem AgreeFrom.bind_of_le {src : Source} {lo k : ℕ} {r r' : Reader ε α}
    {f f' : α → Reader ε β} {P : α → List UInt8 → Prop} (h : AgreeFrom src lo r r')
    (h_yields : Yields r P) (hk : ∀ a bs, P a bs → k ≤ bs.length)
    (h' : ∀ a, AgreeFrom src (lo + k) (f a) (f' a)) :
    AgreeFrom src lo (r >>= f) (r' >>= f') := by
  intro p h_lo h_le
  rw [reader_bind, reader_bind, ← h p h_lo h_le]
  cases h_run : r src p with
  | error e => rfl
  | ok x =>
    obtain ⟨bs, h_ahead, h_off, h_P⟩ := h_yields src p x.2 x.1 h_le h_run
    -- the first decoder has taken `k` bytes, so the second one is asked from there on
    have h_k := hk x.1 bs h_P
    have h_le' : x.2.offset ≤ src.encoded.length := h_off ▸ h_ahead.le
    exact h' x.1 x.2 (by omega) h_le'

/-- Sequences of decoders that do the same. -/
theorem AgreeFrom.bind {src : Source} {lo : ℕ} {r r' : Reader ε α} {f f' : α → Reader ε β}
    {P : α → List UInt8 → Prop} (h : AgreeFrom src lo r r') (h_yields : Yields r P)
    (h' : ∀ a, AgreeFrom src lo (f a) (f' a)) : AgreeFrom src lo (r >>= f) (r' >>= f') :=
  h.bind_of_le h_yields (fun _ bs _ => Nat.zero_le bs.length) h'

/-- Loops over decoders that do the same. -/
theorem AgreeFrom.whileBelow {src : Source} {lo : ℕ} {body body' : σ → Reader ε (α × σ)}
    {P : α × σ → List UInt8 → Prop} (h : ∀ s, AgreeFrom src lo (body s) (body' s))
    (h_yields : ∀ s, Yields (body s) P) (limit n : ℕ) (s : σ) :
    AgreeFrom src lo (whileBelow limit body n s) (whileBelow limit body' n s) := by
  induction n generalizing s with
  | zero => exact AgreeFrom.refl _ _ _
  | succ n ih =>
    intro p h_lo h_le
    change (if limit ≤ p.offset then _ else _ : Reader ε (List α)) src p =
      (if limit ≤ p.offset then _ else _ : Reader ε (List α)) src p
    split
    · rfl
    · exact (h s).bind (h_yields s) (fun x => (ih x.2).bind
        (yields_whileBelow (P := fun _ _ => True) (fun s => (h_yields s).mono fun _ _ _ => trivial)
          limit n x.2) fun _ => AgreeFrom.refl _ _ _) p h_lo h_le

/-! ### Decoders that run out of memory -/

/-- A constant needs no memory. -/
theorem robust_pure (e : ε) (a : α) : Robust e (pure a) := fun _ _ => .inr rfl

/-- Nor does a failure. -/
theorem robust_fail (e e' : ε) : Robust e (fail e' : Reader ε α) := fun _ _ => .inr rfl

/-- Nor do the bytes that lie ahead. -/
theorem robust_take (e e' : ε) (n : ℕ) : Robust e (take e' n) := fun _ _ => .inr rfl

/-- An allocation succeeds as with all memory, or it is the one that fails. -/
theorem robust_alloc (e : ε) : Robust e (alloc e) := by
  intro src p
  cases h : src.memory p.allocs with
  | false =>
    refine .inl ⟨⟨p.allocs, h⟩, ?_⟩
    rw [alloc, h]
    rfl
  | true =>
    refine .inr ?_
    rw [alloc, h]
    rfl

/-- In a sequence the allocation that fails belongs to the first part or to the second one. -/
theorem Robust.bind {e : ε} {r : Reader ε α} {f : α → Reader ε β} (h : Robust e r)
    (h' : ∀ a, Robust e (f a)) : Robust e (r >>= f) := by
  intro src p
  rw [reader_bind, reader_bind]
  -- when the first part finds its memory, it gives what it gives with all of it
  rcases h src p with ⟨h_memory, h_none⟩ | h_same
  · rw [h_none]
    exact .inl ⟨h_memory, rfl⟩
  rw [← h_same]
  cases r src p with
  | error e => exact .inr rfl
  | ok x => exact h' x.1 src x.2

/-- The part of a decoder that looks at its position. -/
theorem robust_get {e : ε} {f : Position → Reader ε β} (h : ∀ p, Robust e (f p)) :
    Robust e (get >>= f) := fun src p => h p src p

/-- A loop over a body that fails for lack of memory only. -/
theorem robust_whileBelow {e : ε} {body : σ → Reader ε (α × σ)} (h : ∀ s, Robust e (body s))
    (limit n : ℕ) (s : σ) : Robust e (whileBelow limit body n s) := by
  induction n generalizing s with
  | zero => exact robust_pure e []
  | succ n ih =>
    refine robust_get fun p => ?_
    split
    · exact robust_pure e []
    · exact (h s).bind fun x => (ih x.2).bind fun _ => robust_pure e _

end Codec
