import WateRMQ.Lib.Heap
import WateRMQ.Backend.Configuration

/-!
# The constructors of the configuration

The four `create_..._private` functions of `BackLibWaterRMQ.c` that allocate a `struct` and the
strings that it points to. A constructor returns `NULL` at the first `malloc` that finds no memory,
and nothing that was allocated before it is freed.

They share the allocation of the strings, `createStruct`. What it comes to is said once, for any
list of strings (`createStruct_eq`): there is no memory for the `struct`, or all calls find memory
(`Granted`), or some blocks are left behind.

`ConfigurationConnection` has one member more that decides: `socket` is compared with `NULL` and was
never written, so what was in the memory is looked at.
-/

namespace WateRMQ
namespace Backend

open CMem

/-- The members of the four structs, of which each has its own. -/
structure Members where
  strings : Field → Pointer
  socket : Pointer
  conn : Pointer
  numbers : Numbers

/-- What a block holds: characters, or the members of a struct. -/
inductive Content
  | chars (bytes : List UInt8)
  | struct (members : Members)

/-- Where a `char *` member lies in its struct. -/
def Field.offset : Field → ℕ
  | .exchange => 0
  | .bindingKey => 8
  | .queue => 16
  | .hostname => 8
  | .host => 8
  | .username => 32
  | .password => 40
  | .loginExceptionMessage => 0
  | .openingChannelExceptionMessage => 8
  | .queueExceptionMessage => 16
  | .bindingExceptionMessage => 24
  | .consumingExceptionMessage => 32
  | .closingChannelExceptionMessage => 40
  | .closingConnectionExceptionMessage => 48
  | .endingConnectionExceptionMessage => 56

/-- The pointer in fresh memory. -/
def pointerAt (bytes : Bytes) (a : ℕ) : Pointer :=
  if loadWord bytes a = 0 then none else some (loadWord bytes a).toNat

/-- The `amqp_sasl_method_enum` in fresh memory. -/
def saslMethodAt (bytes : Bytes) (a : ℕ) : AmqpSaslMethod :=
  if loadInt bytes a = 0 then .plain else if loadInt bytes a = 1 then .external else .undefined

/-- A struct in fresh memory. -/
def Members.fresh (bytes : Bytes) : Members where
  strings f := pointerAt bytes f.offset
  socket := pointerAt bytes 0
  conn := pointerAt bytes 0
  numbers := ⟨loadInt bytes 16, loadInt bytes 16, loadInt bytes 20, loadInt bytes 24,
    saslMethodAt bytes 28⟩

namespace Content

/-- A write to a member. -/
def setMembers (f : Members → Members) : Content → Except Fault Content
  | .struct members => .ok (.struct (f members))
  | .chars _ => .error .outOfBounds

/-- A write to the characters. -/
def setChars (f : List UInt8 → Except Fault (List UInt8)) : Content → Except Fault Content
  | .chars bytes => (f bytes).map .chars
  | .struct _ => .error .outOfBounds

end Content

/-! ### The functions of the source -/

section Functions

variable (supply : Supply)

/-- `p->f = (char *) malloc(strlen(s) + 1); if(p->f == NULL) return NULL;`, and then `memset` and
`memcpy`: whether the constructor goes on. -/
def createString (p : Pointer) (f : Field) (s : CStr) (h : Heap Content) :
    Except Fault (Bool × Heap Content) := do
  let (q, h) := h.malloc supply fun bytes => .chars (loadBytes bytes 0 (s.length + 1))
  let h ← h.modify p (Content.setMembers fun members =>
    { members with strings := Function.update members.strings f q })
  if q = none then return (false, h)
  let h ← h.modify q (Content.setChars fun block => memset block 0 (s.length + 1))
  let h ← h.modify q (Content.setChars fun block => memcpy block s.chars)
  return (true, h)

/-- One string after the other. -/
def createStrings (p : Pointer) :
    List (Field × CStr) → Heap Content → Except Fault (Bool × Heap Content)
  | [], h => return (true, h)
  | (f, s) :: strings, h => do
    let (ok, h) ← createString supply p f s h
    if ok then createStrings p strings h else return (false, h)

/-- The struct and its strings. -/
def createStruct (strings : List (Field × CStr)) (h : Heap Content) :
    Except Fault (Pointer × Heap Content) := do
  let (p, h) := h.malloc supply fun bytes => .struct (.fresh bytes)
  if p = none then return (none, h)
  let (ok, h) ← createStrings supply p strings h
  return (if ok then p else none, h)

def createWateRMQConfigurationExchangePrivate (exchange_name bindingKey queuename : CStr)
    (h : Heap Content) : Except Fault (Pointer × Heap Content) :=
  createStruct supply [(.exchange, exchange_name), (.bindingKey, bindingKey), (.queue, queuename)] h

def createWateRMQConfigurationConnectionPrivate (hostname : CStr) (port : ℤ)
    (h : Heap Content) : Except Fault (Pointer × Heap Content) := do
  let (cc, h) ← createStruct supply [(.hostname, hostname)] h
  if cc = none then return (none, h)
  let h ← h.modify cc (Content.setMembers fun members =>
    { members with numbers := { members.numbers with port := port } })
  match ← h.load cc with
  | .struct members => return (if members.socket = none then none else cc, h)
  | .chars _ => .error .outOfBounds

def createWateRMQConfigurationLoginPrivate (v_host : CStr) (channel_max frame_max heartbeat : ℤ)
    (sasl_method : AmqpSaslMethod) (username password : CStr) (h : Heap Content) :
    Except Fault (Pointer × Heap Content) := do
  let (cl, h) ← createStruct supply
    [(.host, v_host), (.username, username), (.password, password)] h
  if cl = none then return (none, h)
  let h ← h.modify cl (Content.setMembers fun members =>
    { members with numbers := { members.numbers with
        channel_max := channel_max
        frame_max := frame_max
        heartbeat := heartbeat
        sasl_method := sasl_method } })
  return (cl, h)

def createWateRMQExceptionHandlingPrivate
    (loginExceptionMessage openingChannelExceptionMessage queueExceptionMessage
      bindingExceptionMessage consumingExceptionMessage closingChannelExceptionMessage
      closingConnectionExceptionMessage endingConnectionExceptionMessage : CStr)
    (h : Heap Content) : Except Fault (Pointer × Heap Content) :=
  createStruct supply
    [(.loginExceptionMessage, loginExceptionMessage),
      (.openingChannelExceptionMessage, openingChannelExceptionMessage),
      (.queueExceptionMessage, queueExceptionMessage),
      (.bindingExceptionMessage, bindingExceptionMessage),
      (.consumingExceptionMessage, consumingExceptionMessage),
      (.closingChannelExceptionMessage, closingChannelExceptionMessage),
      (.closingConnectionExceptionMessage, closingConnectionExceptionMessage),
      (.endingConnectionExceptionMessage, endingConnectionExceptionMessage)] h

end Functions

/-- The field `f` of the struct behind `p` is a terminated copy of `s`. -/
def IsCopy (h : Heap Content) (p : Pointer) (f : Field) (s : CStr) : Prop :=
  ∃ members, h.load p = .ok (.struct members) ∧ h.load (members.strings f) = .ok (.chars s.bytes)

/-- **A constructor fails cleanly**: it returns `NULL` when, and only when, one of its calls of
`malloc` found no memory; then the live blocks are those of before, and otherwise every field is a
terminated copy of its string. -/
def FailsCleanly (supply : Supply) (h : Heap Content) (strings : List (Field × CStr))
    (r : Except Fault (Pointer × Heap Content)) : Prop :=
  ∃ p h', r = .ok (p, h') ∧
    (p = none ↔ ∃ k, h.mallocs ≤ k ∧ k < h'.mallocs ∧ supply k = none) ∧
    (p = none → h'.live = h.live) ∧
    (p ≠ none → ∀ f s, (f, s) ∈ strings → IsCopy h' p f s)

/-- The first `n` calls of `malloc` find memory. -/
def Granted (supply : Supply) (h : Heap Content) (n : ℕ) : Prop :=
  ∀ i < n, supply (h.mallocs + i) ≠ none

/-! ### The strings of a struct -/

variable {supply : Supply} {h : Heap Content} {strings : List (Field × CStr)} {members : Members}
  {new : List Content} {n : ℕ} {f : Field} {s : CStr} {bytes : Bytes}

/-- The blocks of some strings. -/
def copies (strings : List (Field × CStr)) : List Content :=
  strings.map fun p => .chars p.2.bytes

/-- A write to the members of the struct that was allocated first. -/
theorem modify_struct (g : Members → Members) :
    (h.grown (.struct members :: new) n).modify (some h.blocks.length) (Content.setMembers g) =
      .ok (h.grown (.struct (g members) :: new) n) :=
  Heap.modify_grown (i := 0) rfl rfl

/-- A write to the block that was allocated last. -/
theorem modify_last {c c' : Content} (members : Members) (new : List Content)
    {g : Content → Except Fault Content} (h_g : g c = .ok c') :
    (h.grown (.struct members :: (new ++ [c])) n).modify
        (some (h.blocks.length + (new.length + 1))) g =
      .ok (h.grown (.struct members :: (new ++ [c'])) n) := by
  have h_at : (Content.struct members :: (new ++ [c]))[new.length + 1]? = some c := by simp
  have h_set : (Content.struct members :: (new ++ [c])).set (new.length + 1) c' =
      .struct members :: (new ++ [c']) := by simp
  rw [Heap.modify_grown h_at h_g, h_set]

theorem createString_of_none (h_supply : supply (h.mallocs + n) = none) :
    createString supply (some h.blocks.length) f s (h.grown (.struct members :: new) n) =
      .ok (false, h.grown (.struct
        { members with strings := Function.update members.strings f none } :: new) (n + 1)) := by
  rw [createString, Heap.malloc_grown_of_none h_supply]
  refine bind_eq_ok.mpr ⟨_, modify_struct _, ?_⟩
  rfl

theorem createString_of_some (f : Field) (s : CStr) (members : Members) (new : List Content)
    (h_supply : supply (h.mallocs + n) = some bytes) :
    createString supply (some h.blocks.length) f s (h.grown (.struct members :: new) n) =
      .ok (true, h.grown (.struct { members with
          strings :=
            Function.update members.strings f (some (h.blocks.length + (new.length + 1))) } ::
        (new ++ [.chars s.bytes])) (n + 1)) := by
  have h_length : (loadBytes bytes 0 (s.length + 1)).length = s.length + 1 :=
    length_loadBytes bytes 0 _
  obtain ⟨zeros, h_memset, h_memcpy⟩ := bind_eq_ok.mp (memset_memcpy (s := s) h_length rfl)
  rw [createString, Heap.malloc_grown_of_some h_supply]
  refine bind_eq_ok.mpr ⟨_, modify_struct _, ?_⟩
  -- the block of the string is the last one, zeroed and then written
  refine bind_eq_ok.mpr ⟨_, modify_last _ _ (by rw [Content.setChars, h_memset]; rfl), ?_⟩
  refine bind_eq_ok.mpr ⟨_, modify_last _ _ (by rw [Content.setChars, h_memcpy]; rfl), ?_⟩
  rfl

/-- The members for some strings point to the blocks from number `a` on. -/
def PointsTo (members : Members) (strings : List (Field × CStr)) (a : ℕ) : Prop :=
  ∀ i p, strings[i]? = some p → members.strings p.1 = some (a + i)

/-- The strings of a struct: all of them, or those in front of a `malloc` that found no memory. -/
theorem createStrings_cases (h : Heap Content) (members : Members) (new : List Content)
    (h_nodup : (strings.map Prod.fst).Nodup) :
    ((∀ i < strings.length, supply (h.mallocs + (n + i)) ≠ none) ∧ ∃ members',
      createStrings supply (some h.blocks.length) strings (h.grown (.struct members :: new) n) =
        .ok (true, h.grown (.struct members' :: (new ++ copies strings)) (n + strings.length)) ∧
      members'.socket = members.socket ∧
      (∀ f, f ∉ strings.map Prod.fst → members'.strings f = members.strings f) ∧
      PointsTo members' strings (h.blocks.length + (new.length + 1))) ∨
    ∃ i < strings.length, supply (h.mallocs + (n + i)) = none ∧ ∃ c new',
      createStrings supply (some h.blocks.length) strings (h.grown (.struct members :: new) n) =
        .ok (false, h.grown (c :: new') (n + i + 1)) := by
  induction strings generalizing members new n with
  | nil =>
    left
    refine ⟨by simp, members, ?_, rfl, fun _ _ => rfl, by simp [PointsTo]⟩
    simp [createStrings, copies, pure, Except.pure]
  | cons p strings ih =>
    obtain ⟨f, s⟩ := p
    obtain ⟨h_notMem, h_nodup⟩ := List.nodup_cons.mp h_nodup
    cases h_supply : supply (h.mallocs + n) with
    | none =>
      -- the first string finds no memory
      right
      refine ⟨0, Nat.succ_pos _, h_supply, .struct
        { members with strings := Function.update members.strings f none }, new, ?_⟩
      rw [createStrings, createString_of_none h_supply]
      rfl
    | some bytes =>
      have h_first := createString_of_some f s members new h_supply
      -- with this string behind them, the blocks are as the rest finds them
      rcases ih { members with
          strings := Function.update members.strings f (some (h.blocks.length + (new.length + 1))) }
          (new ++ [.chars s.bytes]) (n := n + 1) h_nodup with
        ⟨h_granted, members', h_rest, h_socket, h_frame, h_points⟩ |
        ⟨i, h_i, h_none, c, new', h_rest⟩
      · left
        refine ⟨?_, members', ?_, h_socket, ?_, ?_⟩
        · intro i h_i
          cases i with
          | zero => simp [h_supply]
          | succ i =>
            rw [Nat.add_comm i 1, ← Nat.add_assoc n]
            exact h_granted i (Nat.lt_of_succ_lt_succ h_i)
        · rw [createStrings, h_first]
          refine h_rest.trans ?_
          simp [copies, Nat.add_assoc, Nat.add_comm 1]
        · intro g h_g
          rw [List.map_cons, List.mem_cons, not_or] at h_g
          rw [h_frame g h_g.2]
          exact Function.update_of_ne h_g.1 _ _
        · intro i q h_q
          cases i with
          | zero =>
            obtain rfl := Option.some.inj h_q
            rw [h_frame f h_notMem]
            exact Function.update_self f _ _
          | succ i =>
            rw [h_points i q h_q, List.length_append, List.length_singleton]
            simp only [Nat.add_assoc, Nat.add_comm 1]
      · right
        refine ⟨i + 1, Nat.succ_lt_succ h_i, ?_, c, new', ?_⟩
        · rw [← Nat.add_assoc n, Nat.add_right_comm n i 1]
          exact h_none
        · rw [createStrings, h_first]
          refine h_rest.trans ?_
          rw [Nat.add_right_comm n 1 i]
          rfl

/-- **What an allocation of a struct and its strings comes to**: no memory for the struct, all
blocks, or some blocks that are left behind. -/
theorem createStruct_cases (supply : Supply) (h : Heap Content)
    (h_nodup : (strings.map Prod.fst).Nodup) :
    (supply h.mallocs = none ∧ createStruct supply strings h = .ok (none, h.grown [] 1)) ∨
    (Granted supply h (strings.length + 1) ∧ ∃ bytes members, supply h.mallocs = some bytes ∧
      createStruct supply strings h = .ok (some h.blocks.length,
        h.grown (.struct members :: copies strings) (strings.length + 1)) ∧
      members.socket = pointerAt bytes 0 ∧ PointsTo members strings (h.blocks.length + 1)) ∨
    (supply h.mallocs ≠ none ∧ ∃ i < strings.length, supply (h.mallocs + (i + 1)) = none ∧
      ∃ c new, createStruct supply strings h = .ok (none, h.grown (c :: new) (i + 2))) := by
  cases h_supply : supply h.mallocs with
  | none =>
    left
    refine ⟨rfl, ?_⟩
    rw [createStruct, Heap.malloc_of_none h_supply]
    rfl
  | some bytes =>
    right
    -- the struct is the first new block, and its strings come behind it
    rcases createStrings_cases (n := 1) h (.fresh bytes) [] h_nodup with
      ⟨h_granted, members, h_strings, h_socket, -, h_points⟩ | ⟨i, h_i, h_none, c, new, h_strings⟩
    · left
      refine ⟨?_, bytes, members, rfl, ?_, h_socket, h_points⟩
      · intro i h_i
        cases i with
        | zero => simp [h_supply]
        | succ i =>
          rw [Nat.add_comm i 1]
          exact h_granted i (Nat.lt_of_succ_lt_succ h_i)
      · rw [createStruct, Heap.malloc_of_some h_supply]
        refine bind_eq_ok.mpr ⟨_, h_strings, ?_⟩
        rw [Nat.add_comm 1]
        rfl
    · right
      refine ⟨by simp, i, h_i, ?_, c, new, ?_⟩
      · rw [Nat.add_comm i 1]
        exact h_none
      · rw [createStruct, Heap.malloc_of_some h_supply]
        refine bind_eq_ok.mpr ⟨_, h_strings, ?_⟩
        rw [Nat.add_comm 1 i]
        rfl

/-! ### Failures -/

/-- With no memory for the struct, nothing has happened. -/
theorem failsCleanly_of_none (h_supply : supply h.mallocs = none) :
    FailsCleanly supply h strings (.ok (none, h.grown [] 1)) := by
  refine ⟨none, _, rfl, iff_of_true rfl ?_, fun _ => ?_, fun h_ne => absurd rfl h_ne⟩
  · exact ⟨h.mallocs, le_rfl, Nat.lt_succ_self _, h_supply⟩
  · exact Heap.live_grown_eq_iff.mpr rfl

/-- The struct is there, and every string behind its member. -/
theorem failsCleanly_of_points (h_granted : Granted supply h (strings.length + 1))
    (h_points : PointsTo members strings (h.blocks.length + 1)) :
    FailsCleanly supply h strings (.ok (some h.blocks.length,
      h.grown (.struct members :: copies strings) (strings.length + 1))) := by
  refine ⟨_, _, rfl, iff_of_false (by simp) ?_, (fun h_eq => nomatch h_eq), ?_⟩
  -- none of its calls of `malloc` has failed
  · rintro ⟨k, h_le, h_lt, h_none⟩
    obtain ⟨i, rfl⟩ := Nat.exists_eq_add_of_le h_le
    exact h_granted i (Nat.lt_of_add_lt_add_left h_lt) h_none
  -- the string number `i` is in the block number `i` behind the struct
  · intro _ f s h_mem
    obtain ⟨i, h_i⟩ := List.mem_iff_getElem?.mp h_mem
    refine ⟨members, Heap.load_grown (i := 0) rfl, ?_⟩
    rw [h_points i _ h_i, Nat.add_assoc]
    refine Heap.load_grown ?_
    rw [Nat.add_comm 1, List.getElem?_cons_succ, copies, List.getElem?_map, h_i]
    rfl

/-- A `NULL` that leaves blocks behind. -/
theorem not_failsCleanly {c : Content} :
    ¬ FailsCleanly supply h strings (.ok (none, h.grown (c :: new) n)) := by
  rintro ⟨p, h', h_eq, -, h_live, -⟩
  obtain ⟨rfl, rfl⟩ := Prod.mk.inj (Except.ok.inj h_eq)
  cases Heap.live_grown_eq_iff.mp (h_live rfl)

/-- **When a constructor fails cleanly** that goes on from its struct and strings, to return them
or, unless `P` holds, to return `NULL`. -/
theorem failsCleanly_iff_of_createStruct {r : Except Fault (Pointer × Heap Content)} {P : Prop}
    (h_nodup : (strings.map Prod.fst).Nodup)
    (h_null : ∀ h', createStruct supply strings h = .ok (none, h') → r = .ok (none, h'))
    (h_struct : ∀ bytes members, supply h.mallocs = some bytes →
      members.socket = pointerAt bytes 0 →
      createStruct supply strings h = .ok (some h.blocks.length,
        h.grown (.struct members :: copies strings) (strings.length + 1)) →
      ∃ p members', members'.strings = members.strings ∧
        r = .ok (p, h.grown (.struct members' :: copies strings) (strings.length + 1)) ∧
        (P ∧ p = some h.blocks.length ∨ ¬ P ∧ p = none)) :
    FailsCleanly supply h strings r ↔
      supply h.mallocs = none ∨ (Granted supply h (strings.length + 1) ∧ P) := by
  rcases createStruct_cases supply h h_nodup with ⟨h_none, h_create⟩ |
    ⟨h_granted, bytes, members, h_supply, h_create, h_socket, h_points⟩ |
    ⟨h_some, i, h_i, h_none, c, new, h_create⟩
  · -- no memory for the struct: nothing was allocated
    rw [h_null _ h_create]
    exact iff_of_true (failsCleanly_of_none h_none) (Or.inl h_none)
  · -- all memory was found: `NULL` would leave it behind
    obtain ⟨p, members', h_strings, h_r, ⟨h_P, rfl⟩ | ⟨h_P, rfl⟩⟩ :=
      h_struct bytes members h_supply h_socket h_create
    · rw [h_r]
      refine iff_of_true (failsCleanly_of_points h_granted ?_) (Or.inr ⟨h_granted, h_P⟩)
      intro i q h_q
      rw [h_strings]
      exact h_points i q h_q
    · rw [h_r]
      refine iff_of_false not_failsCleanly ?_
      rintro (h_first | ⟨-, h_holds⟩)
      · cases h_supply.symm.trans h_first
      · exact h_P h_holds
  · -- a string found no memory, and the struct is left behind
    rw [h_null _ h_create]
    refine iff_of_false not_failsCleanly ?_
    rintro (h_first | ⟨h_granted, -⟩)
    · exact h_some h_first
    · exact h_granted (i + 1) (Nat.succ_lt_succ h_i) h_none

theorem createStruct_failsCleanly_iff (h_nodup : (strings.map Prod.fst).Nodup) :
    FailsCleanly supply h strings (createStruct supply strings h) ↔
      supply h.mallocs = none ∨ Granted supply h (strings.length + 1) := by
  rw [← and_true (Granted supply h _)]
  refine failsCleanly_iff_of_createStruct h_nodup (fun _ h_create => h_create) ?_
  intro bytes members _ _ h_create
  exact ⟨_, members, rfl, h_create, Or.inl ⟨trivial, rfl⟩⟩

theorem createLogin_failsCleanly_iff (v_host : CStr) (channel_max frame_max heartbeat : ℤ)
    (sasl_method : AmqpSaslMethod) (username password : CStr) :
    FailsCleanly supply h [(.host, v_host), (.username, username), (.password, password)]
      (createWateRMQConfigurationLoginPrivate supply v_host channel_max frame_max heartbeat
        sasl_method username password h) ↔
      supply h.mallocs = none ∨ Granted supply h 4 := by
  rw [← and_true (Granted supply h 4)]
  refine failsCleanly_iff_of_createStruct (by simp) ?_ ?_
  · intro h' h_create
    exact bind_eq_ok.mpr ⟨_, h_create, rfl⟩
  · -- the numbers are written to the struct, which keeps its pointers
    intro bytes members _ _ h_create
    refine ⟨_, _, ?_, bind_eq_ok.mpr ⟨_, h_create, bind_eq_ok.mpr ⟨_, modify_struct _, rfl⟩⟩,
      Or.inl ⟨trivial, rfl⟩⟩
    rfl

/-- The fresh memory of the struct has something other than a null pointer where `socket` is. -/
def SocketSet (supply : Supply) (h : Heap Content) : Prop :=
  ∀ bytes, supply h.mallocs = some bytes → loadWord bytes 0 ≠ 0

theorem socketSet_iff (h_supply : supply h.mallocs = some bytes) :
    SocketSet supply h ↔ pointerAt bytes 0 ≠ none := by
  rw [pointerAt]
  simp [SocketSet, h_supply]

theorem createConnection_failsCleanly_iff (hostname : CStr) (port : ℤ) :
    FailsCleanly supply h [(.hostname, hostname)]
      (createWateRMQConfigurationConnectionPrivate supply hostname port h) ↔
      supply h.mallocs = none ∨ (Granted supply h 2 ∧ SocketSet supply h) := by
  refine failsCleanly_iff_of_createStruct (by simp) ?_ ?_
  · intro h' h_create
    exact bind_eq_ok.mpr ⟨_, h_create, rfl⟩
  · intro bytes members h_supply h_socket h_create
    rw [socketSet_iff h_supply, ← h_socket]
    -- the port is written to the struct, and `socket` is as it was found
    refine ⟨if members.socket = none then none else some h.blocks.length, _, ?_,
      bind_eq_ok.mpr ⟨_, h_create, bind_eq_ok.mpr ⟨_, modify_struct _,
        bind_eq_ok.mpr ⟨_, Heap.load_grown (i := 0) rfl, rfl⟩⟩⟩, ?_⟩
    · rfl
    · by_cases h_null : members.socket = none
      · exact Or.inr ⟨fun h_ne => h_ne h_null, if_pos h_null⟩
      · exact Or.inl ⟨h_null, if_neg h_null⟩

/-- **When the constructors fail cleanly**: when the first call of `malloc` finds no memory, or all
of them do, and for the connection what is in its memory is not taken for a `socket` of `NULL`. -/
theorem constructors_failCleanly_iff (supply : Supply) (h : Heap Content)
    (exchange_name bindingKey queuename hostname v_host username password : CStr)
    (port channel_max frame_max heartbeat : ℤ) (sasl_method : AmqpSaslMethod)
    (m₁ m₂ m₃ m₄ m₅ m₆ m₇ m₈ : CStr) :
    (FailsCleanly supply h
      [(.exchange, exchange_name), (.bindingKey, bindingKey), (.queue, queuename)]
      (createWateRMQConfigurationExchangePrivate supply exchange_name bindingKey queuename h) ↔
        supply h.mallocs = none ∨ Granted supply h 4) ∧
    (FailsCleanly supply h [(.hostname, hostname)]
      (createWateRMQConfigurationConnectionPrivate supply hostname port h) ↔
        supply h.mallocs = none ∨ (Granted supply h 2 ∧ SocketSet supply h)) ∧
    (FailsCleanly supply h [(.host, v_host), (.username, username), (.password, password)]
      (createWateRMQConfigurationLoginPrivate supply v_host channel_max frame_max heartbeat
        sasl_method username password h) ↔
        supply h.mallocs = none ∨ Granted supply h 4) ∧
    (FailsCleanly supply h
      [(.loginExceptionMessage, m₁), (.openingChannelExceptionMessage, m₂),
        (.queueExceptionMessage, m₃), (.bindingExceptionMessage, m₄),
        (.consumingExceptionMessage, m₅), (.closingChannelExceptionMessage, m₆),
        (.closingConnectionExceptionMessage, m₇), (.endingConnectionExceptionMessage, m₈)]
      (createWateRMQExceptionHandlingPrivate supply m₁ m₂ m₃ m₄ m₅ m₆ m₇ m₈ h) ↔
        supply h.mallocs = none ∨ Granted supply h 9) :=
  ⟨createStruct_failsCleanly_iff (by simp), createConnection_failsCleanly_iff hostname port,
    createLogin_failsCleanly_iff v_host channel_max frame_max heartbeat sasl_method username
      password,
    createStruct_failsCleanly_iff (by simp)⟩

/-- Memory of zeros, for the first call only. -/
def firstOnly : Supply := fun k => if k = 0 then some fun _ => 0 else none

/-- With memory for the struct alone the struct is left behind; and with memory for all, zeros in it
make the constructor of the connection return `NULL`. -/
theorem struct_left_behind :
    (∃ h', createWateRMQConfigurationExchangePrivate firstOnly strAbc strAbc strAbc ⟨[], 0⟩ =
        .ok (none, h') ∧ 0 ∈ h'.live ∧ 0 ∉ (⟨[], 0⟩ : Heap Content).live) ∧
    ¬ FailsCleanly firstOnly ⟨[], 0⟩
      [(.exchange, strAbc), (.bindingKey, strAbc), (.queue, strAbc)]
      (createWateRMQConfigurationExchangePrivate firstOnly strAbc strAbc strAbc ⟨[], 0⟩) ∧
    ¬ FailsCleanly (fun _ => some fun _ => 0) ⟨[], 0⟩ [(.hostname, strAbc)]
      (createWateRMQConfigurationConnectionPrivate (fun _ => some fun _ => 0) strAbc 5672
        ⟨[], 0⟩) := by
  refine ⟨⟨_, rfl, ⟨_, rfl⟩, ?_⟩, ?_, ?_⟩
  · rintro ⟨c, h_c⟩
    cases h_c
  -- the first call finds memory and the second does not
  · intro h_clean
    rcases (createStruct_failsCleanly_iff (by simp)).mp h_clean with h_none | h_granted
    · cases h_none
    · exact h_granted 1 (by decide) rfl
  -- all calls find memory, and the word of `socket` is zero in it
  · rw [createConnection_failsCleanly_iff]
    rintro (h_none | ⟨-, h_set⟩)
    · cases h_none
    · refine h_set _ rfl ?_
      unfold loadWord
      rw [loadNat_zero fun _ _ _ => rfl]
      rfl

end Backend
end WateRMQ
