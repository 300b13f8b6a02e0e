import Mathlib.Data.List.Basic

/-!
# Decoders of streams

A stream of tokens arrives in pieces whose ends have nothing to do with the ends of the tokens.

A `Scanner` looks at what has arrived and says whether a token is complete, whether it can never
become one, or whether more is needed. `Decoder.run` is what a decoder makes of a whole stream: it
cuts off one token after the other. A program sees the pieces instead: `feed` calls a function that
takes some of what has arrived and keeps the rest in its own state. `Implements` says what one such
call has to do, and `feed_eq` that the program then gives what `run` gives on the whole stream,
whatever the pieces are.

A program may also ask for one value at a time. `collect_eq` says that it then gets those values of
the whole stream that are wanted, in their order.
-/

namespace Stream

variable {α β ε σ : Type}

/-- What a scanner says about the beginning of a stream. -/
inductive Verdict
  | more
  | bad
  | token (n : ℕ)
  deriving DecidableEq

/-- A scanner does not change its mind when more arrives. -/
structure Scanner (α : Type) where
  scan : List α → Verdict
  scan_nil : scan [] = .more
  token_pos {xs n} : scan xs = .token n → 0 < n
  token_le {xs n} : scan xs = .token n → n ≤ xs.length
  token_take {xs n} : scan xs = .token n → scan (xs.take n) = .token n
  token_append {xs n} (ys) : scan xs = .token n → scan (xs ++ ys) = .token n
  bad_append {xs} (ys) : scan xs = .bad → scan (xs ++ ys) = .bad

/-- A scanner, with what becomes of a token and the error for a stream that cannot be cut. Not every
token has a value. -/
structure Decoder (α β ε : Type) extends Scanner α where
  decode : List α → Except ε (Option β)
  corrupt : ε

/-- What the decoder makes of a stream: the values of its tokens up to the first error, and the
error or the unfinished token at the end. -/
def Decoder.run (D : Decoder α β ε) (xs : List α) : List β × Except ε (List α) :=
  match _h : D.scan xs with
  | .more => ([], .ok xs)
  | .bad => ([], .error D.corrupt)
  | .token n =>
    match D.decode (xs.take n) with
    | .error e => ([], .error e)
    | .ok b =>
      let r := D.run (xs.drop n)
      (b.toList ++ r.1, r.2)
termination_by xs.length
decreasing_by
  have h_pos := D.token_pos _h
  have h_le := D.token_le _h
  rw [List.length_drop]
  omega

variable {D : Decoder α β ε} {xs : List α}

/-- A beginning of a token is held back. -/
theorem Decoder.run_of_more (h : D.scan xs = .more) : D.run xs = ([], .ok xs) := by
  rw [run]
  split <;> simp_all

/-- What cannot become a token is the end. -/
theorem Decoder.run_of_bad (h : D.scan xs = .bad) : D.run xs = ([], .error D.corrupt) := by
  rw [run]
  split <;> simp_all

/-- A token that is not decoded is the end. -/
theorem Decoder.run_of_error {n : ℕ} {e : ε} (h : D.scan xs = .token n)
    (h_decode : D.decode (xs.take n) = .error e) : D.run xs = ([], .error e) := by
  rw [run]
  split <;> simp_all

/-- A token that is decoded comes out in front of what the rest gives. -/
theorem Decoder.run_of_ok {n : ℕ} {b : Option β} (h : D.scan xs = .token n)
    (h_decode : D.decode (xs.take n) = .ok b) :
    D.run xs = (b.toList ++ (D.run (xs.drop n)).1, (D.run (xs.drop n)).2) := by
  rw [run]
  split <;> simp_all

/-- `run'` is `run` with `ys` behind it: what arrives behind an error changes nothing, and what
arrives behind an unfinished token is decoded together with it. -/
def Extends (D : Decoder α β ε) (ys : List α) (run run' : List β × Except ε (List α)) : Prop :=
  (∀ e, run.2 = .error e → run' = run) ∧ ∀ r, run.2 = .ok r → D.scan r = .more ∧
    run' = (run.1 ++ (D.run (r ++ ys)).1, (D.run (r ++ ys)).2)

/-- More of the stream changes nothing of what has come out. -/
theorem Decoder.run_append (xs ys : List α) : Extends D ys (D.run xs) (D.run (xs ++ ys)) := by
  -- by induction on what is left of the first part
  induction h_len : xs.length using Nat.strongRecOn generalizing xs with
  | _ len ih =>
    cases h_scan : D.scan xs with
    | more =>
      rw [run_of_more h_scan]
      refine ⟨fun e h => (by cases h), ?_⟩
      rintro r ⟨⟩
      exact ⟨h_scan, rfl⟩
    | bad =>
      rw [run_of_bad h_scan, run_of_bad (D.bad_append ys h_scan)]
      exact ⟨fun _ _ => rfl, fun r h => (by cases h)⟩
    | token n =>
      have h_le := D.token_le h_scan
      have h_pos := D.token_pos h_scan
      have h_take : (xs ++ ys).take n = xs.take n := List.take_append_of_le_length h_le
      have h_drop : (xs ++ ys).drop n = xs.drop n ++ ys := List.drop_append_of_le_length h_le
      have h_append := D.token_append ys h_scan
      cases h_decode : D.decode (xs.take n) with
      | error e =>
        rw [run_of_error h_scan h_decode, run_of_error h_append (h_take ▸ h_decode)]
        exact ⟨fun _ _ => rfl, fun r h => (by cases h)⟩
      | ok b =>
        -- the first token is the same, and the rest is shorter
        have h_lt : (xs.drop n).length < len := by
          rw [List.length_drop]
          omega
        obtain ⟨ih_error, ih_ok⟩ := ih _ h_lt (xs.drop n) rfl
        rw [run_of_ok h_scan h_decode, run_of_ok h_append (h_take ▸ h_decode), h_drop]
        refine ⟨fun e h => ?_, fun r h => ?_⟩
        · rw [ih_error e h]
        · obtain ⟨h_more, h_run⟩ := ih_ok r h
          refine ⟨h_more, ?_⟩
          rw [h_run, List.append_assoc]

/-- A stream of encoded values is decoded into these values. -/
theorem Decoder.run_flatMap {wire : β → List α} {bs : List β}
    (h_scan : ∀ b ∈ bs, D.scan (wire b) = .token (wire b).length)
    (h_decode : ∀ b ∈ bs, D.decode (wire b) = .ok (some b)) :
    D.run (bs.flatMap wire) = (bs, .ok []) := by
  induction bs with
  | nil => exact run_of_more D.scan_nil
  | cons b bs ih =>
    rw [List.flatMap_cons]
    have h_token := D.token_append (bs.flatMap wire) (h_scan b List.mem_cons_self)
    have h_b := h_decode b List.mem_cons_self
    rw [← @List.take_left _ (wire b) (bs.flatMap wire)] at h_b
    rw [run_of_ok h_token h_b, List.drop_left,
      ih (fun c hc => h_scan c (List.mem_cons_of_mem b hc))
        fun c hc => h_decode c (List.mem_cons_of_mem b hc)]
    rfl

/-! ### Programs that see the stream in pieces -/

/-- Call a function until all of a piece is taken. One call takes at least one element. -/
def drain (call : σ → List α → Except ε (ℕ × Option β × σ)) : ℕ → σ → List α →
    List β × Except ε σ
  | 0, s, _ => ([], .ok s)
  | n + 1, s, xs =>
    if xs.length = 0 then ([], .ok s)
    else
      match call s xs with
      | .error e => ([], .error e)
      | .ok (k, b, s) =>
        let r := drain call n s (xs.drop k)
        (b.toList ++ r.1, r.2)

/-- One piece after the other. -/
def feed (call : σ → List α → Except ε (ℕ × Option β × σ)) : σ → List (List α) →
    List β × Except ε σ
  | s, [] => ([], .ok s)
  | s, c :: cs =>
    match drain call c.length s c with
    | (l, .error e) => (l, .error e)
    | (l, .ok s) =>
      let r := feed call s cs
      (l ++ r.1, r.2)

/-- What one call on `d` does, when the decoder sees `xs` and `m` elements of it have been taken
already. -/
structure Answers (D : Decoder α β ε) (call : σ → List α → Except ε (ℕ × Option β × σ))
    (Holds : σ → List α → Prop) (s : σ) (m : ℕ) (d xs : List α) : Prop where
  more : D.scan xs = .more → ∃ s', call s d = .ok (d.length, none, s') ∧ Holds s' xs
  bad : D.scan xs = .bad → call s d = .error D.corrupt
  error {n e} : D.scan xs = .token n → D.decode (xs.take n) = .error e → call s d = .error e
  token {n b} : D.scan xs = .token n → D.decode (xs.take n) = .ok b →
    ∃ s', call s d = .ok (n - m, b, s') ∧ Holds s' []

/-- In a state that holds the beginning `pre` of a token, a call does what the decoder says. -/
def Implements (D : Decoder α β ε) (call : σ → List α → Except ε (ℕ × Option β × σ))
    (Holds : σ → List α → Prop) : Prop :=
  ∀ s pre d, Holds s pre → d ≠ [] → Answers D call Holds s pre.length d (pre ++ d)

variable {call : σ → List α → Except ε (ℕ × Option β × σ)} {Holds : σ → List α → Prop}

/-- The result `r` of a program is that of the decoder on the stream. -/
def Agrees (Holds : σ → List α → Prop) (run : List β × Except ε (List α))
    (r : List β × Except ε σ) : Prop :=
  r.1 = run.1 ∧ match run.2 with
    | .error e => r.2 = .error e
    | .ok rest => ∃ s, r.2 = .ok s ∧ Holds s rest

/-- The same outputs in front of both sides. -/
theorem Agrees.append {run : List β × Except ε (List α)} {r : List β × Except ε σ}
    (h : Agrees Holds run r) (l : List β) : Agrees Holds (l ++ run.1, run.2) (l ++ r.1, r.2) :=
  ⟨by rw [h.1], h.2⟩

/-- Behind the first token of `xs` is what the call left of `d`. -/
structure Follows (D : Decoder α β ε) (call : σ → List α → Except ε (ℕ × Option β × σ))
    (Holds : σ → List α → Prop) (s : σ) (m : ℕ) (d xs : List α) : Prop
    extends Answers D call Holds s m d xs where
  lt_token {n} : D.scan xs = .token n → m < n
  drop_eq {n} : D.scan xs = .token n → xs.drop n = d.drop (n - m)

/-- A token that ends within the beginning would have been cut off before. -/
theorem Scanner.lt_of_more (S : Scanner α) {pre d : List α} {n : ℕ} (h_more : S.scan pre = .more)
    (h_scan : S.scan (pre ++ d) = .token n) : pre.length < n := by
  by_contra h_ge
  have h_pre : (pre ++ d).take n = pre.take n := List.take_append_of_le_length (by omega)
  have h_token := S.token_take h_scan
  rw [h_pre] at h_token
  -- the token would be one of the beginning alone, which is none
  have h_append := S.token_append (pre.drop n) h_token
  rw [List.take_append_drop, h_more] at h_append
  cases h_append

/-- A call that is given something makes progress. -/
theorem Implements.follows (h : Implements D call Holds) {s : σ} {pre d : List α}
    (h_holds : Holds s pre) (h_more : D.scan pre = .more) (h_d : d ≠ []) :
    Follows D call Holds s pre.length d (pre ++ d) where
  toAnswers := h s pre d h_holds h_d
  lt_token {n} := D.lt_of_more h_more
  drop_eq {n} h_scan := by
    rw [List.drop_append, List.drop_eq_nil_of_le (Nat.le_of_lt (D.lt_of_more h_more h_scan)),
      List.nil_append]

/-- The calls that follow take what the first one left. -/
theorem drain_of_follows {n : ℕ} {s : σ} {m : ℕ} {d xs : List α}
    (h : Follows D call Holds s m d xs) (h_d : d ≠ []) (h_fuel : d.length ≤ n + 1)
    (h_rest : ∀ s' ys, Holds s' [] → ys.length ≤ n → Agrees Holds (D.run ys) (drain call n s' ys))
    (h_done : ∀ s' ys, Holds s' ys → D.scan ys = .more →
      Agrees Holds (D.run ys) (drain call n s' [])) :
    Agrees Holds (D.run xs) (drain call (n + 1) s d) := by
  rw [drain, if_neg fun h_zero => h_d (List.length_eq_zero_iff.mp h_zero)]
  cases h_scan : D.scan xs with
  | more =>
    obtain ⟨s', h_call, h_holds⟩ := h.more h_scan
    rw [h_call]
    dsimp only
    rw [List.drop_length]
    exact h_done s' xs h_holds h_scan
  | bad =>
    rw [h.bad h_scan, Decoder.run_of_bad h_scan]
    exact ⟨rfl, rfl⟩
  | token k =>
    cases h_decode : D.decode (xs.take k) with
    | error e =>
      rw [h.error h_scan h_decode, Decoder.run_of_error h_scan h_decode]
      exact ⟨rfl, rfl⟩
    | ok b =>
      -- the token ends within the piece, and the calls that follow take the rest
      have h_lt := h.lt_token h_scan
      obtain ⟨s', h_call, h_holds⟩ := h.token h_scan h_decode
      have h_len : (d.drop (k - m)).length ≤ n := by
        rw [List.length_drop]
        omega
      rw [h_call, Decoder.run_of_ok h_scan h_decode, h.drop_eq h_scan]
      exact (h_rest s' _ h_holds h_len).append b.toList

/-- Nothing is left to hand over. -/
theorem drain_nil (n : ℕ) (s : σ) : drain call n s [] = ([], .ok s) := by
  cases n <;> rfl

theorem agrees_drain_nil {s : σ} {ys : List α} (h_holds : Holds s ys) (h_more : D.scan ys = .more)
    (n : ℕ) : Agrees Holds (D.run ys) (drain call n s []) := by
  rw [drain_nil, Decoder.run_of_more h_more]
  exact ⟨rfl, s, rfl, h_holds⟩

/-- The calls on one piece do what the decoder does on the bytes that were held back and the piece.
-/
theorem drain_eq (h : Implements D call Holds) {n : ℕ} {s : σ} {pre xs : List α}
    (h_holds : Holds s pre) (h_more : D.scan pre = .more) (h_fuel : xs.length ≤ n) :
    Agrees Holds (D.run (pre ++ xs)) (drain call n s xs) := by
  induction n generalizing s pre xs with
  | zero =>
    rw [List.length_eq_zero_iff.mp (Nat.le_zero.mp h_fuel), List.append_nil]
    exact agrees_drain_nil h_holds h_more 0
  | succ n ih =>
    -- on an empty piece there is no call
    by_cases h_nil : xs = []
    · rw [h_nil, List.append_nil]
      exact agrees_drain_nil h_holds h_more (n + 1)
    · exact drain_of_follows (h.follows h_holds h_more h_nil) h_nil h_fuel
        (fun s' ys h_s' h_le => ih h_s' D.scan_nil h_le)
        fun s' ys h_s' h_ys => agrees_drain_nil h_s' h_ys n

/-- The pieces that follow one of which the program gave what the decoder gives. -/
theorem Agrees.feed_cons {s : σ} {c : List α} {cs : List (List α)}
    {run run' : List β × Except ε (List α)} (h : Agrees Holds run (drain call c.length s c))
    (h_extends : Extends D cs.flatten run run')
    (h_rest : ∀ s' ys, Holds s' ys → D.scan ys = .more →
      Agrees Holds (D.run (ys ++ cs.flatten)) (feed call s' cs)) :
    Agrees Holds run' (feed call s (c :: cs)) := by
  obtain ⟨h_out, h_end⟩ := h
  obtain ⟨h_error, h_ok⟩ := h_extends
  rw [feed]
  cases h_drain : drain call c.length s c with
  | mk l r =>
    rw [h_drain] at h_out h_end
    cases h_run : run.2 with
    | error e =>
      rw [h_run] at h_end
      have h_r : r = .error e := h_end
      rw [h_r, h_error e h_run]
      refine ⟨h_out, ?_⟩
      rw [h_run]
    | ok rest =>
      rw [h_run] at h_end
      obtain ⟨s', h_r, h_holds'⟩ := h_end
      obtain ⟨h_more, h_append⟩ := h_ok rest h_run
      have h_r' : r = .ok s' := h_r
      rw [h_r', h_append, ← h_out]
      exact (h_rest s' rest h_holds' h_more).append l

/-- A program gives the values of the whole stream, however it is cut into pieces. -/
theorem feed_eq (h : Implements D call Holds) {s : σ} {pre : List α} (h_holds : Holds s pre)
    (h_more : D.scan pre = .more) (cs : List (List α)) :
    Agrees Holds (D.run (pre ++ cs.flatten)) (feed call s cs) := by
  induction cs generalizing s pre with
  | nil =>
    rw [List.flatten_nil, List.append_nil, Decoder.run_of_more h_more]
    exact ⟨rfl, s, rfl, h_holds⟩
  | cons c cs ih =>
    rw [List.flatten_cons, ← List.append_assoc]
    exact (drain_eq h h_holds h_more (Nat.le_refl c.length)).feed_cons
      (Decoder.run_append (pre ++ c) cs.flatten) fun s' ys => ih

/-- A program that begins in another way: it collects `n` elements in states that satisfy `Opens`,
and what it makes of a stream with that many elements is `run`. -/
theorem feed_of_opening (h : Implements D call Holds) (Opens : σ → List α → Prop) {n : ℕ}
    {run : List α → List β × Except ε (List α)}
    (h_run : ∀ xs ys, n ≤ xs.length → Extends D ys (run xs) (run (xs ++ ys)))
    (h_collect : ∀ s pre d, Opens s pre → d ≠ [] → (pre ++ d).length < n →
      ∃ s', call s d = .ok (d.length, none, s') ∧ Opens s' (pre ++ d))
    (h_first : ∀ s pre d, Opens s pre → pre.length < n → n ≤ (pre ++ d).length →
      Agrees Holds (run (pre ++ d)) (drain call d.length s d))
    {s : σ} {pre : List α} (h_opens : Opens s pre) (h_lt : pre.length < n) {cs : List (List α)}
    (h_le : n ≤ (pre ++ cs.flatten).length) :
    Agrees Holds (run (pre ++ cs.flatten)) (feed call s cs) := by
  induction cs generalizing s pre with
  | nil =>
    rw [List.flatten_nil, List.append_nil] at h_le
    omega
  | cons c cs ih =>
    rw [List.flatten_cons, ← List.append_assoc] at h_le ⊢
    by_cases h_short : (pre ++ c).length < n
    · -- the piece is collected
      by_cases h_c : c = []
      · rw [h_c, List.append_nil] at h_le ⊢
        rw [feed, drain_nil]
        exact ih h_opens h_lt h_le
      · obtain ⟨s', h_call, h_opens'⟩ := h_collect s pre c h_opens h_c h_short
        have h_drain : drain call c.length s c = ([], .ok s') := by
          obtain ⟨k, h_k⟩ : ∃ k, c.length = k + 1 :=
            Nat.exists_eq_succ_of_ne_zero fun h_zero => h_c (List.length_eq_zero_iff.mp h_zero)
          rw [h_k, drain, if_neg fun h_zero => h_c (List.length_eq_zero_iff.mp h_zero), h_call]
          dsimp only
          rw [List.drop_length, drain_nil]
          rfl
        rw [feed, h_drain]
        exact ih h_opens' h_short h_le
    · have h_long : n ≤ (pre ++ c).length := Nat.le_of_not_lt h_short
      exact (h_first s pre c h_opens h_lt h_long).feed_cons (h_run _ _ h_long)
        fun s' ys h_s' h_ys => feed_eq h h_s' h_ys cs

/-! ### Programs that read on demand -/

/-- A program between two calls: its state, what is left of the piece that it reads, and the pieces
that follow. -/
structure Source (σ α : Type) where
  state : σ
  piece : List α
  pieces : List (List α)

/-- What is not taken yet. -/
def Source.rest (src : Source σ α) : List α := src.piece ++ src.pieces.flatten

/-- Call a function until it gives a value that is wanted, or all of a piece is taken. -/
def seekIn (call : σ → List α → Except ε (ℕ × Option β × σ)) (wanted : β → Bool) :
    ℕ → σ → List α → Except ε (Option β × σ × List α)
  | 0, s, xs => .ok (none, s, xs)
  | n + 1, s, xs =>
    if xs.length = 0 then .ok (none, s, xs)
    else
      match call s xs with
      | .error e => .error e
      | .ok (k, b, s) =>
        match b.filter wanted with
        | some b => .ok (some b, s, xs.drop k)
        | none => seekIn call wanted n s (xs.drop k)

/-- Read one piece after the other, until there is a value that is wanted. -/
def seek (call : σ → List α → Except ε (ℕ × Option β × σ)) (wanted : β → Bool) :
    σ → List α → List (List α) → Except ε (Option β × Source σ α)
  | s, xs, cs =>
    match seekIn call wanted xs.length s xs with
    | .error e => .error e
    | .ok (some b, s, ys) => .ok (some b, ⟨s, ys, cs⟩)
    | .ok (none, s, ys) =>
      match cs with
      | [] => .ok (none, ⟨s, ys, []⟩)
      | c :: cs => seek call wanted s c cs

/-- Ask for one value after the other. -/
def collect (call : σ → List α → Except ε (ℕ × Option β × σ)) (wanted : β → Bool) :
    ℕ → Source σ α → List β × Except ε σ
  | 0, src => ([], .ok src.state)
  | n + 1, src =>
    match seek call wanted src.state src.piece src.pieces with
    | .error e => ([], .error e)
    | .ok (none, src) => ([], .ok src.state)
    | .ok (some b, src) =>
      let r := collect call wanted n src
      (b :: r.1, r.2)

/-- What the decoder makes of what a program holds and of `ys` behind it. -/
def Ahead (D : Decoder α β ε) (Holds : σ → List α → Prop) (s : σ) (ys : List α)
    (run : List β × Except ε (List α)) : Prop :=
  ∃ pre, Holds s pre ∧ D.scan pre = .more ∧ D.run (pre ++ ys) = run

variable {wanted : β → Bool}

/-- What a search in a piece comes to, when the decoder makes `run` of the whole stream and `tail`
is behind the piece. -/
inductive Finds (D : Decoder α β ε) (Holds : σ → List α → Prop) (wanted : β → Bool)
    (run : List β × Except ε (List α)) (tail : List α) (len : ℕ) :
    Except ε (Option β × σ × List α) → Prop
  | failed {e} (h_none : run.1.filter wanted = []) (h_end : run.2 = .error e) :
      Finds D Holds wanted run tail len (.error e)
  | nothing {s run'} (h : Ahead D Holds s tail run')
      (h_eq : run.1.filter wanted = run'.1.filter wanted) (h_end : run.2 = run'.2) :
      Finds D Holds wanted run tail len (.ok (none, s, []))
  | found {b s ys run'} (h_lt : ys.length < len) (h : Ahead D Holds s (ys ++ tail) run')
      (h_wanted : wanted b = true) (h_eq : run.1.filter wanted = b :: run'.1.filter wanted)
      (h_end : run.2 = run'.2) : Finds D Holds wanted run tail len (.ok (some b, s, ys))

/-- A search that goes on behind a value that is not wanted. -/
theorem Finds.skip {run run' : List β × Except ε (List α)} {tail : List α} {len len' : ℕ}
    {r : Except ε (Option β × σ × List α)} (h : Finds D Holds wanted run' tail len' r)
    (h_eq : run.1.filter wanted = run'.1.filter wanted) (h_end : run.2 = run'.2)
    (h_le : len' ≤ len) : Finds D Holds wanted run tail len r := by
  cases h with
  | failed h_none h_end' => exact .failed (h_eq.trans h_none) (h_end.trans h_end')
  | nothing h h_eq' h_end' => exact .nothing h (h_eq.trans h_eq') (h_end.trans h_end')
  | found h_lt h h_wanted h_eq' h_end' =>
    exact .found (Nat.lt_of_lt_of_le h_lt h_le) h h_wanted (h_eq.trans h_eq')
      (h_end.trans h_end')

/-- There is nothing to find in an empty piece. -/
theorem seekIn_nil (n : ℕ) (s : σ) : seekIn call wanted n s [] = .ok (none, s, []) := by
  cases n <;> rfl

/-- An output that is wanted. -/
theorem filter_toList_some {b : Option β} {a : β} (h : b.filter wanted = some a) :
    wanted a = true ∧ b.toList.filter wanted = [a] := by
  obtain ⟨rfl, h_a⟩ := Option.filter_eq_some_iff.mp h
  exact ⟨h_a, List.filter_cons_of_pos h_a⟩

/-- No output, or one that is not wanted. -/
theorem filter_toList_none {b : Option β} (h : b.filter wanted = none) :
    b.toList.filter wanted = [] := by
  rw [List.filter_eq_nil_iff]
  intro a h_a
  exact Option.filter_eq_none_iff.mp h a (Option.mem_toList.mp h_a)

/-- The search in one piece. -/
theorem finds_seekIn (wanted : β → Bool) (h : Implements D call Holds) {n : ℕ} {s : σ}
    {xs tail : List α}
    {run : List β × Except ε (List α)} (h_ahead : Ahead D Holds s (xs ++ tail) run)
    (h_fuel : xs.length ≤ n) :
    Finds D Holds wanted run tail xs.length (seekIn call wanted n s xs) := by
  induction n generalizing s xs run with
  | zero =>
    cases List.length_eq_zero_iff.mp (Nat.le_zero.mp h_fuel)
    exact .nothing h_ahead rfl rfl
  | succ n ih =>
    by_cases h_nil : xs = []
    · subst h_nil
      rw [seekIn_nil]
      exact .nothing h_ahead rfl rfl
    obtain ⟨pre, h_holds, h_more, h_run⟩ := h_ahead
    rw [← List.append_assoc] at h_run
    have h_follows := h.follows h_holds h_more h_nil
    rw [seekIn, if_neg fun h_zero => h_nil (List.length_eq_zero_iff.mp h_zero)]
    cases h_scan : D.scan (pre ++ xs) with
    | more =>
      obtain ⟨s', h_call, h_holds'⟩ := h_follows.more h_scan
      rw [h_call]
      dsimp only
      rw [List.drop_length, Option.filter_none, seekIn_nil]
      exact .nothing ⟨pre ++ xs, h_holds', h_scan, h_run⟩ rfl rfl
    | bad =>
      rw [Decoder.run_of_bad (D.bad_append tail h_scan)] at h_run
      rw [h_follows.bad h_scan, ← h_run]
      exact .failed rfl rfl
    | token k =>
      have h_le := D.token_le h_scan
      have h_take : (pre ++ xs ++ tail).take k = (pre ++ xs).take k :=
        List.take_append_of_le_length h_le
      have h_token := D.token_append tail h_scan
      cases h_decode : D.decode ((pre ++ xs).take k) with
      | error e =>
        rw [Decoder.run_of_error h_token (h_take ▸ h_decode)] at h_run
        rw [h_follows.error h_scan h_decode, ← h_run]
        exact .failed rfl rfl
      | ok b =>
        have h_lt := h_follows.lt_token h_scan
        have h_pos := List.length_pos_iff.mpr h_nil
        obtain ⟨s', h_call, h_holds'⟩ := h_follows.token h_scan h_decode
        rw [Decoder.run_of_ok h_token (h_take ▸ h_decode), List.drop_append_of_le_length h_le,
          h_follows.drop_eq h_scan] at h_run
        -- each call takes something, so the search in the piece ends
        have h_len : (xs.drop (k - pre.length)).length < xs.length := by
          rw [List.length_drop]
          omega
        have h_ahead : Ahead D Holds s' (xs.drop (k - pre.length) ++ tail)
            (D.run (xs.drop (k - pre.length) ++ tail)) := ⟨[], h_holds', D.scan_nil, rfl⟩
        rw [h_call, ← h_run]
        dsimp only
        cases h_b : b.filter wanted with
        | some a =>
          obtain ⟨h_wanted, h_one⟩ := filter_toList_some h_b
          refine .found h_len h_ahead h_wanted ?_ rfl
          rw [List.filter_append, h_one]
          rfl
        | none =>
          -- the value is not wanted, and the search goes on behind it
          refine (ih h_ahead (by omega)).skip ?_ rfl (Nat.le_of_lt h_len)
          rw [List.filter_append, filter_toList_none h_b, List.nil_append]

/-- What a search in all pieces comes to. -/
inductive Seeks (D : Decoder α β ε) (Holds : σ → List α → Prop) (wanted : β → Bool)
    (run : List β × Except ε (List α)) (len : ℕ) : Except ε (Option β × Source σ α) → Prop
  | failed {e} (h_none : run.1.filter wanted = []) (h_end : run.2 = .error e) :
      Seeks D Holds wanted run len (.error e)
  | nothing {src rest} (h_none : run.1.filter wanted = []) (h_end : run.2 = .ok rest)
      (h : Holds src.state rest) : Seeks D Holds wanted run len (.ok (none, src))
  | found {b src run'} (h_lt : src.rest.length < len) (h : Ahead D Holds src.state src.rest run')
      (h_wanted : wanted b = true) (h_eq : run.1.filter wanted = b :: run'.1.filter wanted)
      (h_end : run.2 = run'.2) : Seeks D Holds wanted run len (.ok (some b, src))

/-- Outputs that are not wanted are passed over. -/
theorem Seeks.skip {run run' : List β × Except ε (List α)} {len len' : ℕ}
    {r : Except ε (Option β × Source σ α)} (h : Seeks D Holds wanted run' len' r)
    (h_eq : run.1.filter wanted = run'.1.filter wanted) (h_end : run.2 = run'.2)
    (h_le : len' ≤ len) : Seeks D Holds wanted run len r := by
  cases h with
  | failed h_none h_end' => exact .failed (h_eq.trans h_none) (h_end.trans h_end')
  | nothing h_none h_end' h => exact .nothing (h_eq.trans h_none) (h_end.trans h_end') h
  | found h_lt h h_wanted h_eq' h_end' =>
    exact .found (Nat.lt_of_lt_of_le h_lt h_le) h h_wanted (h_eq.trans h_eq')
      (h_end.trans h_end')

/-- When nothing is ahead, the state holds all that there is. -/
theorem Ahead.of_nil {s : σ} {run : List β × Except ε (List α)} (h : Ahead D Holds s [] run) :
    ∃ rest, run = ([], .ok rest) ∧ Holds s rest := by
  obtain ⟨pre, h_holds, h_more, h_run⟩ := h
  rw [List.append_nil, Decoder.run_of_more h_more] at h_run
  exact ⟨pre, h_run.symm, h_holds⟩

/-- The search over the pieces finds what the decoder of the stream gives first. -/
theorem seeks_seek (wanted : β → Bool) (h : Implements D call Holds) {s : σ}
    {xs : List α} {cs : List (List α)}
    {run : List β × Except ε (List α)} (h_ahead : Ahead D Holds s (xs ++ cs.flatten) run) :
    Seeks D Holds wanted run (xs ++ cs.flatten).length (seek call wanted s xs cs) := by
  induction cs generalizing s xs run with
  | nil =>
    have h_finds := finds_seekIn wanted h h_ahead (Nat.le_refl _)
    rw [seek]
    generalize seekIn call wanted xs.length s xs = r at h_finds
    cases h_finds with
    | failed h_none h_end => exact .failed h_none h_end
    | nothing h_rest h_eq h_end =>
      obtain ⟨rest, rfl, h_holds⟩ := h_rest.of_nil
      exact .nothing h_eq h_end h_holds
    | found h_lt h_rest h_wanted h_eq h_end =>
      refine .found ?_ h_rest h_wanted h_eq h_end
      rw [Source.rest, List.length_append, List.length_append]
      exact Nat.add_lt_add_right h_lt _
  | cons c cs ih =>
    have h_finds := finds_seekIn wanted h h_ahead (Nat.le_refl _)
    rw [seek]
    generalize seekIn call wanted xs.length s xs = r at h_finds
    cases h_finds with
    | failed h_none h_end => exact .failed h_none h_end
    | nothing h_rest h_eq h_end =>
      -- nothing is found in this piece, and the search goes on in the next one
      refine (ih h_rest).skip h_eq h_end ?_
      rw [List.flatten_cons, List.length_append, List.length_append, List.length_append]
      exact Nat.le_add_left _ _
    | found h_lt h_rest h_wanted h_eq h_end =>
      refine .found ?_ h_rest h_wanted h_eq h_end
      rw [Source.rest, List.length_append, List.length_append]
      exact Nat.add_lt_add_right h_lt _

/-- A program that asks for one value after the other gets the values of the whole stream that are
wanted. -/
theorem collect_eq (wanted : β → Bool) (h : Implements D call Holds) {n : ℕ} {src : Source σ α}
    {run : List β × Except ε (List α)} (h_ahead : Ahead D Holds src.state src.rest run)
    (h_fuel : src.rest.length < n) :
    Agrees Holds (run.1.filter wanted, run.2) (collect call wanted n src) := by
  induction n generalizing src run with
  | zero => exact absurd h_fuel (Nat.not_lt_zero _)
  | succ n ih =>
    have h_seeks := seeks_seek wanted h h_ahead
    rw [collect]
    generalize seek call wanted src.state src.piece src.pieces = r at h_seeks
    cases h_seeks with
    | failed h_none h_end =>
      rw [h_none, h_end]
      exact ⟨rfl, rfl⟩
    | nothing h_none h_end h_holds =>
      rw [h_none, h_end]
      exact ⟨rfl, _, rfl, h_holds⟩
    | found h_lt h_rest h_wanted h_eq h_end =>
      rw [h_eq, h_end]
      exact (ih h_rest (Nat.lt_of_lt_of_le h_lt (Nat.le_of_lt_succ h_fuel))).append [_]

end Stream
