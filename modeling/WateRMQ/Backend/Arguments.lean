import WateRMQ.Lib.Struct
import WateRMQ.Lib.While

/-!
# The command line of the backend

`processArgv` reads the configuration of the backend from its command line. It walks over the
arguments with a cursor `cpt`: an option name is followed by the values of a group of members of
`Informations`, each behind a prefix of which a fixed number of characters is skipped.

The cursor does not go on from where a group ends. After three of the groups it is set to a fixed
position, after the fourth the loop is left, and an argument that is no option name is passed over.
So what the loop does from a position `t` depends on the first option name at or after `t`
(`NextOption`), and it can be run from option to option (`stride`, `coarsens_stride`).

The values are copied into the block that `malloc(sizeof(Informations))` gives: 19 arrays of
characters, one after the other (`Block`). A `strcpy` writes as many bytes as its string has, and
only the end of the block stops it, so a long value spills into the next array and the loop goes
on. The loop itself needs to know of its memory only how long a string may be at a member
(`Memory.room`); it is written once, for any memory.

An argument vector is the list of its strings: `argc` is its length, and the entry `argc` is the
null pointer. What C leaves undefined ends the model in a `Fault`: an entry that is no string handed
to `strcmp` or `strcpy`, a prefix skipped in a string that is shorter, a copy beyond the memory.
-/

namespace WateRMQ
namespace ProcessArgv

open CMem While

/-! ### Options and members -/

/-- A string literal of the source. -/
def literal (s : String) : CStr where
  chars := (s.toList.map fun c => c.toNat.toUInt8).filter (· ≠ 0)
  noNul := by simp

inductive OptionObligatoireHaHa
  | invalid
  | connection
  | exchange_bind_queue
  | login_system
  | except_message
  deriving DecidableEq

namespace OptionObligatoireHaHa

/-- The name of an option on the command line. There is none for `invalid`. -/
def name : OptionObligatoireHaHa → CStr
  | .invalid => literal ""
  | .connection => literal "--connection"
  | .exchange_bind_queue => literal "--exchange_bind_queue"
  | .login_system => literal "--login_system"
  | .except_message => literal "--except_message"

end OptionObligatoireHaHa

def getOptionObligatoireHaHaByOpt (opt : CStr) : OptionObligatoireHaHa :=
  if opt = OptionObligatoireHaHa.connection.name then .connection
  else if opt = OptionObligatoireHaHa.exchange_bind_queue.name then .exchange_bind_queue
  else if opt = OptionObligatoireHaHa.login_system.name then .login_system
  else if opt = OptionObligatoireHaHa.except_message.name then .except_message
  else .invalid

/-- The members of `Informations`. -/
inductive Member
  | hostname
  | port
  | exchange_name
  | bindingKey
  | queuename
  | v_host
  | channel_max
  | frame_max
  | heartbeat
  | username
  | password
  | loginExceptionMessage
  | openingChannelExceptionMessage
  | queueExceptionMessage
  | bindingExceptionMessage
  | consumingExceptionMessage
  | closingChannelExceptionMessage
  | closingConnectionExceptionMessage
  | endingConnectionExceptionMessage
  deriving DecidableEq

/-- The sizes of the arrays in `Informations`. -/
def Member.size : Member → ℕ
  | .hostname => 50
  | .port => 10
  | .exchange_name | .bindingKey | .queuename => 500
  | .v_host => 500
  | .channel_max | .frame_max | .heartbeat => 32
  | .username => 500
  | .password => 556
  | .loginExceptionMessage | .openingChannelExceptionMessage | .queueExceptionMessage
  | .bindingExceptionMessage | .consumingExceptionMessage | .closingChannelExceptionMessage
  | .closingConnectionExceptionMessage | .endingConnectionExceptionMessage => 800

/-- The `int`s of the four cases: the distance of the value of a member from its option name. -/
def Member.offset : Member → ℕ
  | .hostname => 1
  | .port => 2
  | .exchange_name => 1
  | .bindingKey => 2
  | .queuename => 3
  | .v_host => 1
  | .channel_max => 2
  | .frame_max => 3
  | .heartbeat => 4
  | .username => 5
  | .password => 6
  | .loginExceptionMessage => 1
  | .openingChannelExceptionMessage => 2
  | .queueExceptionMessage => 3
  | .bindingExceptionMessage => 4
  | .consumingExceptionMessage => 5
  | .closingChannelExceptionMessage => 6
  | .closingConnectionExceptionMessage => 7
  | .endingConnectionExceptionMessage => 8

namespace OptionObligatoireHaHa

/-- The number of characters skipped in the values of a group: `padding_connection`,
`padding_exchange_bq`, `padding_login` and `padding_except`. -/
def padding : OptionObligatoireHaHa → ℕ
  | .invalid => 0
  | .connection => 6
  | .exchange_bind_queue => 6
  | .login_system => 5
  | .except_message => 5

/-- The members that a case copies, in the order of its `strcpy`s. -/
def members : OptionObligatoireHaHa → List Member
  | .invalid => []
  | .connection => [.hostname, .port]
  | .exchange_bind_queue => [.exchange_name, .bindingKey, .queuename]
  | .login_system => [.v_host, .channel_max, .frame_max, .heartbeat, .username, .password]
  | .except_message =>
    [.loginExceptionMessage, .openingChannelExceptionMessage, .queueExceptionMessage,
      .bindingExceptionMessage, .consumingExceptionMessage, .closingChannelExceptionMessage,
      .closingConnectionExceptionMessage, .endingConnectionExceptionMessage]

/-- What a case sets `cpt` to. The last one leaves the loop. -/
def jump : OptionObligatoireHaHa → Option ℕ
  | .invalid => none
  | .connection => some 4
  | .exchange_bind_queue => some 8
  | .login_system => some 15
  | .except_message => none

end OptionObligatoireHaHa

/-! ### The memory -/

/-- What ends the program in the loop. -/
inductive Fault
  /-- The entry at this index is the null pointer, or beyond it. -/
  | entry (index : ℕ)
  /-- More characters are skipped than the string at this index has. -/
  | shortString (index : ℕ)
  /-- The string does not fit into the memory from this member on. -/
  | overflow (m : Member)
  deriving DecidableEq

/-- The fault is a read outside the arguments. -/
def Fault.IsRead : Fault → Prop
  | .entry _ | .shortString _ => True
  | .overflow _ => False

/-- A memory of the members. From the beginning of a member on there is room for a number of
bytes. -/
class Memory (σ : Type) where
  room : Member → ℕ
  write : σ → (m : Member) → (s : CStr) → s.length < room m → σ

/-- `strcpy(info->m, s)`: the string and its terminator have to fit. -/
def strcpy {σ : Type} [Memory σ] (info : σ) (m : Member) (s : CStr) : Except Fault σ :=
  if h : s.length < Memory.room σ m then .ok (Memory.write info m s h) else .error (.overflow m)

/-- The members in the order of their declaration. -/
def declared : List Member :=
  [.hostname, .port, .exchange_name, .bindingKey, .queuename, .v_host, .channel_max, .frame_max,
    .heartbeat, .username, .password, .loginExceptionMessage, .openingChannelExceptionMessage,
    .queueExceptionMessage, .bindingExceptionMessage, .consumingExceptionMessage,
    .closingChannelExceptionMessage, .closingConnectionExceptionMessage,
    .endingConnectionExceptionMessage]

/-- Every member is declared. -/
theorem mem_declared (m : Member) : m ∈ declared := by
  cases m <;> decide

/-- Where a member begins. -/
def Member.address (m : Member) : ℕ := Struct.address Member.size declared m

/-- `sizeof(Informations)`. -/
def sizeofInformations : ℕ := Struct.total Member.size declared

example : sizeofInformations = 9612 := rfl

/-- What a `strcpy` into a member has written: the first address, and the number of bytes. -/
structure Write where
  member : Member
  first : ℕ
  count : ℕ

/-- The `strcpy` wrote only inside its own array. -/
def Write.Inside (w : Write) : Prop :=
  w.member.address ≤ w.first ∧ w.first + w.count ≤ w.member.address + w.member.size

/-- The block of `info`, and the `strcpy`s into it so far. -/
structure Block where
  bytes : Bytes
  writes : List Write

/-- A string has room up to the end of the block, over the members that follow its own. -/
instance : Memory Block where
  room m := sizeofInformations - m.address
  write block m s _ :=
    ⟨Struct.copyTo Member.size declared block.bytes m s.bytes,
      block.writes ++ [⟨m, m.address, s.length + 1⟩]⟩

/-- The array of a member. -/
def Block.field (block : Block) (m : Member) : List UInt8 :=
  Struct.field Member.size declared block.bytes m

/-! ### The loop -/

section Loop

variable {σ : Type} [Memory σ]

/-- How `processArgv` ends. -/
inductive Outcome (σ : Type)
  | exits
  | returns (info : σ)
  | faults (fault : Fault)

/-- The variables of the loop. -/
structure State (σ : Type) where
  cpt : ℕ
  info : σ

/-- `strcpy(info->m, padding + argv[cpt + m])`. -/
def copy (argv : List CStr) (padding cpt : ℕ) (info : σ) (m : Member) : Except Fault σ :=
  match argv[cpt + m.offset]? with
  | none => .error (.entry (cpt + m.offset))
  | some s =>
    if s.length < padding then .error (.shortString (cpt + m.offset))
    else strcpy info m (s.drop padding)

/-- The `strcpy`s of a case. -/
def copies (argv : List CStr) (padding cpt : ℕ) (members : List Member) (info : σ) :
    Except Fault σ :=
  members.foldlM (copy argv padding cpt) info

/-- `while(argv[cpt++]);` over the entries from `cpt` on: the null pointer ends it. -/
def scan : List CStr → ℕ → ℕ
  | [], cpt => cpt + 1
  | _ :: rest, cpt => scan rest (cpt + 1)

/-- The scan after the last group. It must not begin behind the null pointer. -/
def consumeRest (argv : List CStr) (cpt : ℕ) : Except Fault ℕ :=
  if cpt ≤ argv.length then .ok (scan (argv.drop cpt) cpt) else .error (.entry cpt)

/-- A case of the switch, with its option name at `cpt`. -/
def caseOf (argv : List CStr) (opt : OptionObligatoireHaHa) (u : State σ) :
    Round (State σ) (Outcome σ) :=
  match copies argv opt.padding u.cpt opt.members u.info with
  | .error fault => .leave (.faults fault)
  | .ok info =>
    match opt.jump with
    | some cpt => .goOn ⟨cpt, info⟩
    | none =>
      match consumeRest argv (u.cpt + 7) with
      | .error fault => .leave (.faults fault)
      | .ok _ => .leave (.returns info)

/-- A round of `while(!ok)`. The default case prints the argument and passes over it; which of the
two uses of `cpt` in its `printf` comes first matters for the text only. -/
def round (argv : List CStr) (u : State σ) : Round (State σ) (Outcome σ) :=
  match argv[u.cpt]? with
  | none => .leave (.faults (.entry u.cpt))
  | some opt =>
    match getOptionObligatoireHaHaByOpt opt with
    | .invalid => .goOn { u with cpt := u.cpt + 1 }
    | opt => caseOf argv opt u

/-- The variables at the start of the loop. -/
def start (info : σ) : State σ := ⟨1, info⟩

/-- `processArgv(argc, argv)` with the memory `info`, and with the `malloc` that finds it or not,
when the loop ends within `n` rounds. -/
def processArgvOn (info : σ) (mallocOk : Bool) (argv : List CStr) (n : ℕ) : Option (Outcome σ) :=
  if !mallocOk then some .exits
  else if argv.length < 24 then some .exits
  else result (round argv) n (start info)

end Loop

/-- `processArgv(argc, argv)`, with the `malloc` that finds memory or not and the bytes that it
finds there, when the loop ends within `n` rounds. -/
def Block.processArgv (mallocOk : Bool) (argv : List CStr) (bytes : Bytes) (n : ℕ) :
    Option (Outcome Block) :=
  processArgvOn ⟨bytes, []⟩ mallocOk argv n

variable {σ : Type} [Memory σ] {argv : List CStr} {padding i t : ℕ} {m : Member}
  {info info' info₁ info₂ : σ} {opt : OptionObligatoireHaHa}

/-- After the two checks there is the loop. -/
theorem processArgvOn_eq (h_argc : 24 ≤ argv.length) (info : σ) (n : ℕ) :
    processArgvOn info true argv n = result (round argv) n (start info) := by
  rw [processArgvOn, if_neg (by decide), if_neg (Nat.not_lt.mpr h_argc)]

/-- The scan reads up to the null pointer, at the index `argc`. -/
theorem scan_eq (rest : List CStr) (cpt : ℕ) : scan rest cpt = cpt + rest.length + 1 := by
  induction rest generalizing cpt with
  | nil => rfl
  | cons s rest ih =>
    rw [scan, ih, List.length_cons]
    omega

/-- The loop of the last group walks to the end. -/
theorem consumeRest_eq {cpt : ℕ} (h : cpt ≤ argv.length) :
    consumeRest argv cpt = .ok (argv.length + 1) := by
  rw [consumeRest, if_pos h, scan_eq, List.length_drop, Nat.add_sub_cancel' h]

/-! ### The values of a group -/

/-- The value of `m` in a group whose option name is at `i` can be read: it is there, and at least
as long as what is skipped of it. -/
def Readable (argv : List CStr) (padding i : ℕ) (m : Member) : Prop :=
  ∃ s, argv[i + m.offset]? = some s ∧ padding ≤ s.length

variable (σ) in
/-- The value can be copied: the memory also has room for it. -/
def Copyable (argv : List CStr) (padding i : ℕ) (m : Member) : Prop :=
  ∃ s, argv[i + m.offset]? = some s ∧ padding ≤ s.length ∧ s.length < padding + Memory.room σ m

instance (argv : List CStr) (padding i : ℕ) (m : Member) :
    Decidable (Copyable σ argv padding i m) :=
  decidable_of_iff (argv[i + m.offset]?.any fun s =>
      decide (padding ≤ s.length ∧ s.length < padding + Memory.room σ m)) (by
    simp [Copyable, Option.any_eq_true])

/-- What is copied was read. -/
theorem Copyable.readable (h : Copyable σ argv padding i m) : Readable argv padding i m := by
  obtain ⟨s, h_entry, h_length, -⟩ := h
  exact ⟨s, h_entry, h_length⟩

/-- What a `strcpy` does, or why it does not. -/
theorem copy_cases (argv : List CStr) (padding i : ℕ) (info : σ) (m : Member) :
    (∃ s, argv[i + m.offset]? = some s ∧ padding ≤ s.length ∧
      ∃ h : (s.drop padding).length < Memory.room σ m,
        copy argv padding i info m = .ok (Memory.write info m (s.drop padding) h)) ∨
    (Readable argv padding i m ∧ ¬ Copyable σ argv padding i m ∧
      copy argv padding i info m = .error (.overflow m)) ∨
    (¬ Readable argv padding i m ∧ ∃ fault, fault.IsRead ∧
      copy argv padding i info m = .error fault) := by
  cases h_entry : argv[i + m.offset]? with
  | none =>
    -- there is no such entry
    right; right
    refine ⟨?_, .entry (i + m.offset), trivial, ?_⟩
    · rintro ⟨s, h, -⟩
      simp [h_entry] at h
    · rw [copy, h_entry]
  | some s =>
    by_cases h_short : s.length < padding
    · -- the pointer would be behind the terminator
      right; right
      refine ⟨?_, .shortString (i + m.offset), trivial, ?_⟩
      · rintro ⟨s', h, h_length⟩
        obtain rfl : s = s' := Option.some.inj (h_entry.symm.trans h)
        omega
      · rw [copy, h_entry]
        exact if_pos h_short
    · by_cases h_fits : (s.drop padding).length < Memory.room σ m
      · left
        refine ⟨s, rfl, by omega, h_fits, ?_⟩
        rw [copy, h_entry]
        simp only [strcpy, if_neg h_short, dif_pos h_fits]
      · -- the rest can be read, and there is no room for it
        right; left
        refine ⟨⟨s, h_entry, by omega⟩, ?_, ?_⟩
        · rintro ⟨s', h, h_length, h_room⟩
          obtain rfl : s = s' := Option.some.inj (h_entry.symm.trans h)
          rw [CStr.length_drop] at h_fits
          omega
        · rw [copy, h_entry]
          simp only [strcpy, if_neg h_short, dif_neg h_fits]

/-- A `strcpy` goes through exactly when its value can be copied. -/
theorem copyable_of_copy (h : copy argv padding i info m = .ok info') :
    Copyable σ argv padding i m := by
  obtain ⟨s, h_entry, h_length, h_fits, -⟩ | ⟨-, -, h_copy⟩ | ⟨-, fault, -, h_copy⟩ :=
    copy_cases argv padding i info m
  · rw [CStr.length_drop] at h_fits
    exact ⟨s, h_entry, h_length, by omega⟩
  · cases h_copy.symm.trans h
  · cases h_copy.symm.trans h

/-- What can be copied is copied. -/
theorem Copyable.exists_copy (h : Copyable σ argv padding i m) (info : σ) :
    ∃ info', copy argv padding i info m = .ok info' := by
  obtain ⟨s, -, -, h_fits, h_copy⟩ | ⟨-, h_not, -⟩ | ⟨h_not, -⟩ :=
    copy_cases argv padding i info m
  · exact ⟨_, h_copy⟩
  · exact absurd h h_not
  · exact absurd h.readable h_not

variable (σ) in
/-- The `strcpy`s read nothing outside the arguments: each value can be read when those before it
could be copied. -/
def Safe (argv : List CStr) (padding i : ℕ) (members : List Member) : Prop :=
  ∀ pre m, pre ++ [m] <+: members → (∀ k ∈ pre, Copyable σ argv padding i k) →
    Readable argv padding i m

theorem safe_nil : Safe σ argv padding i [] := by
  intro pre m h_pre
  exact absurd (List.prefix_nil.mp h_pre) (by simp)

/-- A group is read inside `argv` when its first value is, and, if that can be copied, the others
are. -/
theorem safe_cons {members : List Member} :
    Safe σ argv padding i (m :: members) ↔
      Readable argv padding i m ∧
        (Copyable σ argv padding i m → Safe σ argv padding i members) := by
  constructor
  · -- the values before a later one are `m` and those before it in the rest
    intro h
    refine ⟨h [] m (List.prefix_append [m] members) (by simp), ?_⟩
    intro h_m pre k h_pre h_copyable
    apply h (m :: pre) k (List.cons_prefix_cons.mpr ⟨rfl, h_pre⟩)
    exact List.forall_mem_cons.mpr ⟨h_m, h_copyable⟩
  -- the first of the values before it is `m`, or there is none and it is `m` itself
  · rintro ⟨h_readable, h_rest⟩ pre k h_pre h_copyable
    cases pre with
    | nil =>
      obtain ⟨rfl, -⟩ := List.cons_prefix_cons.mp h_pre
      exact h_readable
    | cons l pre =>
      obtain ⟨rfl, h_pre'⟩ := List.cons_prefix_cons.mp h_pre
      obtain ⟨h_l, h_copyable⟩ := List.forall_mem_cons.mp h_copyable
      exact h_rest h_l pre k h_pre' h_copyable

/-- **The `strcpy`s of a case go through exactly when all values can be copied**, whatever is in
the memory. -/
theorem exists_copies_iff {members : List Member} (info : σ) :
    (∃ info', copies argv padding i members info = .ok info') ↔
      ∀ m ∈ members, Copyable σ argv padding i m := by
  induction members generalizing info with
  | nil => exact iff_of_true ⟨info, rfl⟩ (by simp)
  | cons m members ih =>
    rw [List.forall_mem_cons]
    constructor
    · rintro ⟨info', h⟩
      obtain ⟨info₁, h_first, h_rest⟩ := bind_eq_ok.mp h
      exact ⟨copyable_of_copy h_first, (ih info₁).mp ⟨info', h_rest⟩⟩
    · rintro ⟨h_m, h_members⟩
      obtain ⟨info₁, h_first⟩ := h_m.exists_copy info
      obtain ⟨info', h_rest⟩ := (ih info₁).mpr h_members
      exact ⟨info', bind_eq_ok.mpr ⟨info₁, h_first, h_rest⟩⟩

/-- A group ends at a bad read exactly when it is not safe. -/
theorem copies_isRead_iff (members : List Member) (info : σ) :
    (∃ fault, copies argv padding i members info = .error fault ∧ fault.IsRead) ↔
      ¬ Safe σ argv padding i members := by
  induction members generalizing info with
  | nil =>
    constructor
    · rintro ⟨fault, h, -⟩
      cases h
    · exact fun h => absurd safe_nil h
  | cons m members ih =>
    rw [safe_cons]
    cases h_copy : copy argv padding i info m with
    | ok info₁ =>
      -- the first value is copied, so the rest decides
      have h_m := copyable_of_copy h_copy
      have h_eq : copies argv padding i (m :: members) info =
          copies argv padding i members info₁ := by
        rw [copies, List.foldlM_cons, h_copy]
        rfl
      rw [h_eq, ih]
      simp [h_m, h_m.readable]
    | error fault =>
      have h_eq : copies argv padding i (m :: members) info = .error fault := by
        rw [copies, List.foldlM_cons, h_copy]
        rfl
      obtain ⟨s, -, -, h_fits, h_copy'⟩ | ⟨h_readable, h_not, h_copy'⟩ |
          ⟨h_not, fault', h_fault, h_copy'⟩ := copy_cases argv padding i info m
      · cases h_copy'.symm.trans h_copy
      · -- the copy overflows: a fault, and nothing was read outside the arguments
        obtain rfl := Except.error.inj (h_copy'.symm.trans h_copy)
        simp [h_eq, h_readable, h_not, Fault.IsRead]
      · -- the first value cannot be read, and the fault is that read
        obtain rfl := Except.error.inj (h_copy'.symm.trans h_copy)
        simp [h_eq, h_not, h_fault]

/-! ### A round at an option name -/

namespace OptionObligatoireHaHa

/-- The group of `opt` with its name at `i` is copied. -/
def Copies (argv : List CStr) (opt : OptionObligatoireHaHa) (i : ℕ) (info info' : σ) : Prop :=
  copies argv opt.padding i opt.members info = .ok info'

variable (σ) in
/-- All values of the group can be copied. -/
def Accepts (argv : List CStr) (opt : OptionObligatoireHaHa) (i : ℕ) : Prop :=
  ∀ m ∈ opt.members, Copyable σ argv opt.padding i m

variable (σ) in
/-- The group is read without a step outside the arguments. -/
def Safe (argv : List CStr) (opt : OptionObligatoireHaHa) (i : ℕ) : Prop :=
  ProcessArgv.Safe σ argv opt.padding i opt.members

instance (argv : List CStr) (opt : OptionObligatoireHaHa) (i : ℕ) :
    Decidable (opt.Accepts σ argv i) :=
  inferInstanceAs (Decidable (∀ m ∈ opt.members, Copyable σ argv opt.padding i m))

/-- A group has one result. -/
theorem Copies.unique (h : opt.Copies argv i info info₁) (h' : opt.Copies argv i info info₂) :
    info₁ = info₂ :=
  Except.ok.inj (h.symm.trans h')

/-- A group that was copied could be. -/
theorem Copies.accepts (h : opt.Copies argv i info info') : opt.Accepts σ argv i :=
  (exists_copies_iff info).mp ⟨info', h⟩

/-- One that can be is. -/
theorem Accepts.exists_copies (h : opt.Accepts σ argv i) (info : σ) :
    ∃ info', opt.Copies argv i info info' :=
  (exists_copies_iff info).mpr h

/-- One that can be copied is read inside `argv`. -/
theorem Accepts.safe (h : opt.Accepts σ argv i) : opt.Safe σ argv i := by
  intro pre m h_pre _
  exact (h m (h_pre.subset (by simp))).readable

/-- A group that is copied cannot fault. -/
theorem Copies.ne_error {fault : Fault} (h : opt.Copies argv i info info') :
    copies argv opt.padding i opt.members info ≠ .error fault :=
  fun h_error => nomatch h.symm.trans h_error

end OptionObligatoireHaHa

/-- The scan after the last group begins inside the arguments. -/
theorem add_seven_le (h : OptionObligatoireHaHa.except_message.Accepts σ argv i) :
    i + 7 ≤ argv.length := by
  obtain ⟨s, h_entry, -⟩ := h .endingConnectionExceptionMessage (by decide)
  have h_lt := (List.getElem?_eq_some_iff.mp h_entry).1
  simp only [Member.offset] at h_lt
  omega

/-- **A case**: it copies its group and jumps or returns, or it ends in a fault of a `strcpy`. -/
theorem caseOf_cases (argv : List CStr) (h_opt : opt ≠ .invalid) (i : ℕ) (info : σ) :
    (∃ info', opt.Copies argv i info info' ∧ caseOf argv opt ⟨i, info⟩ =
      match opt.jump with
      | some cpt => .goOn ⟨cpt, info'⟩
      | none => .leave (.returns info')) ∨
    ∃ fault, copies argv opt.padding i opt.members info = .error fault ∧
      caseOf argv opt ⟨i, info⟩ = .leave (.faults fault) := by
  cases h_copies : copies argv opt.padding i opt.members info with
  | error fault =>
    right
    refine ⟨fault, rfl, ?_⟩
    rw [caseOf, h_copies]
  | ok info' =>
    have h_group : opt.Copies argv i info info' := h_copies
    refine Or.inl ⟨info', h_group, ?_⟩
    rw [caseOf, h_copies]
    cases opt with
    | invalid => exact absurd rfl h_opt
    | except_message =>
      -- the last value was an entry, so the scan begins inside the arguments
      simp only [OptionObligatoireHaHa.jump, consumeRest_eq (add_seven_le h_group.accepts)]
    | _ => rfl

/-- A case goes on after a group with a jump. -/
theorem caseOf_goOn_iff {v : State σ} (h_opt : opt ≠ .invalid) :
    caseOf argv opt ⟨i, info⟩ = .goOn v ↔
      opt.jump = some v.cpt ∧ opt.Copies argv i info v.info := by
  obtain ⟨cpt, info₁⟩ := v
  rcases caseOf_cases argv h_opt i info with ⟨info', h_group, h_case⟩ | ⟨fault, h_copies, h_case⟩
  · rw [h_case]
    cases h_jump : opt.jump with
    | none => simp
    -- the position is the one of the case, and the memory is determined by the arguments
    | some cpt' =>
      simp only [Round.goOn.injEq, State.mk.injEq, Option.some.injEq]
      refine and_congr_right fun _ => ⟨?_, fun h => h_group.unique h⟩
      rintro rfl
      exact h_group
  -- a fault leaves the loop, and then the group was not copied
  · rw [h_case]
    simp only [reduceCtorEq, false_iff]
    exact fun h => h.2.ne_error h_copies

/-- The last case returns. -/
theorem caseOf_returns_iff (h_opt : opt ≠ .invalid) :
    caseOf argv opt ⟨i, info⟩ = .leave (.returns info') ↔
      opt = .except_message ∧ opt.Copies argv i info info' := by
  rcases caseOf_cases argv h_opt i info with ⟨info₁, h_group, h_case⟩ | ⟨fault, h_copies, h_case⟩
  · rw [h_case]
    cases opt with
    | invalid => exact absurd rfl h_opt
    | except_message =>
      simp only [OptionObligatoireHaHa.jump, Round.leave.injEq, Outcome.returns.injEq, true_and]
      refine ⟨?_, fun h => h_group.unique h⟩
      rintro rfl
      exact h_group
    -- the other cases go on
    | _ => simp [OptionObligatoireHaHa.jump]
  · rw [h_case]
    simp only [Round.leave.injEq, reduceCtorEq, false_iff]
    exact fun h => h.2.ne_error h_copies

/-- A case reads outside the arguments exactly when its group is not safe. -/
theorem caseOf_isRead_iff (h_opt : opt ≠ .invalid) (i : ℕ) (info : σ) :
    (∃ fault, caseOf argv opt ⟨i, info⟩ = .leave (.faults fault) ∧ fault.IsRead) ↔
      ¬ opt.Safe σ argv i := by
  rw [OptionObligatoireHaHa.Safe, ← copies_isRead_iff opt.members info]
  rcases caseOf_cases argv h_opt i info with ⟨info', h_group, h_case⟩ | ⟨fault, h_copies, h_case⟩
  · have h_not : ¬ ∃ fault, copies argv opt.padding i opt.members info = .error fault ∧
        fault.IsRead := fun ⟨_, h, _⟩ => h_group.ne_error h
    rw [h_case, iff_false_right h_not]
    cases opt.jump <;> simp
  · simp [h_case, h_copies]

/-- A group does not leave the program. -/
theorem caseOf_ne_exits (h_opt : opt ≠ .invalid) (i : ℕ) (info : σ) :
    caseOf argv opt ⟨i, info⟩ ≠ .leave .exits := by
  rcases caseOf_cases argv h_opt i info with ⟨info', -, h_case⟩ | ⟨fault, -, h_case⟩
  · rw [h_case]
    cases opt.jump <;> simp
  · simp [h_case]

/-! ### From option to option -/

/-- The option whose name is the entry `i`. -/
def optionAt (argv : List CStr) (i : ℕ) : Option OptionObligatoireHaHa :=
  argv[i]?.map getOptionObligatoireHaHaByOpt

/-- A round behind the end of `argv` hands a null pointer to `strcmp`. -/
theorem round_of_none {u : State σ} (h : optionAt argv u.cpt = none) :
    round argv u = .leave (.faults (.entry u.cpt)) := by
  rw [optionAt, Option.map_eq_none_iff] at h
  rw [round, h]

/-- An argument that is no option is passed over. -/
theorem round_of_invalid {u : State σ} (h : optionAt argv u.cpt = some .invalid) :
    round argv u = .goOn { u with cpt := u.cpt + 1 } := by
  obtain ⟨s, h_entry, h_opt⟩ := Option.map_eq_some_iff.mp h
  simp only [round, h_entry, h_opt]

/-- An option has its group copied. -/
theorem round_of_option {u : State σ} (h : optionAt argv u.cpt = some opt)
    (h_opt : opt ≠ .invalid) : round argv u = caseOf argv opt u := by
  obtain ⟨s, h_entry, h_eq⟩ := Option.map_eq_some_iff.mp h
  cases opt with
  | invalid => exact absurd rfl h_opt
  | _ => simp only [round, h_entry, h_eq]

/-- The first option name at or after the entry `t` is that of `opt`, and it is the entry `i`. -/
structure NextOption (argv : List CStr) (t i : ℕ) (opt : OptionObligatoireHaHa) : Prop where
  le : t ≤ i
  between : ∀ j < i, t ≤ j → optionAt argv j = some .invalid
  here : optionAt argv i = some opt
  ne_invalid : opt ≠ .invalid

/-- The next option: everything in front of it is passed over. -/
theorem nextOption_iff : NextOption argv t i opt ↔
    t ≤ i ∧ (∀ j < i, t ≤ j → optionAt argv j = some .invalid) ∧ optionAt argv i = some opt ∧
      opt ≠ .invalid :=
  ⟨fun h => ⟨h.le, h.between, h.here, h.ne_invalid⟩, fun h => ⟨h.1, h.2.1, h.2.2.1, h.2.2.2⟩⟩

instance (argv : List CStr) (t i : ℕ) (opt : OptionObligatoireHaHa) :
    Decidable (NextOption argv t i opt) :=
  decidable_of_iff _ nextOption_iff.symm

/-- The entry to which the default case brings the cursor from `t`: an option name, or the null
pointer. -/
def skip (argv : List CStr) (t : ℕ) : ℕ :=
  t + (argv.drop t).findIdx fun s => getOptionObligatoireHaHaByOpt s ≠ .invalid

/-- What is passed over is no option. -/
theorem optionAt_of_lt_skip {j : ℕ} (h_le : t ≤ j) (h_lt : j < skip argv t) :
    optionAt argv j = some .invalid := by
  obtain ⟨k, rfl⟩ := Nat.exists_eq_add_of_le h_le
  have h_k := Nat.lt_of_add_lt_add_left h_lt
  have h_length := lt_of_lt_of_le h_k (List.findIdx_le_length)
  have h_not := List.not_of_lt_findIdx h_k
  rw [List.length_drop] at h_length
  rw [optionAt, List.getElem?_eq_getElem (by omega)]
  simpa using h_not

/-- Where it stops there is an option, or the end. -/
theorem optionAt_skip (argv : List CStr) (t : ℕ) : optionAt argv (skip argv t) ≠ some .invalid := by
  intro h
  obtain ⟨s, h_entry, h_invalid⟩ := Option.map_eq_some_iff.mp h
  rw [skip, ← List.getElem?_drop] at h_entry
  obtain ⟨h_lt, h_s⟩ := List.getElem?_eq_some_iff.mp h_entry
  have h_option := List.findIdx_getElem (w := h_lt)
  rw [h_s] at h_option
  simp [h_invalid] at h_option

/-- There is at most one first option. -/
theorem NextOption.skip_eq (h : NextOption argv t i opt) : skip argv t = i := by
  -- `skip` stops at no entry before `i`, and does not pass over `i`
  rcases lt_trichotomy (skip argv t) i with h_lt | h_eq | h_gt
  · exact absurd (h.between _ h_lt (Nat.le_add_right t _)) (optionAt_skip argv t)
  · exact h_eq
  · have h_here := h.here.symm.trans (optionAt_of_lt_skip h.le h_gt)
    exact absurd (Option.some.inj h_here) h.ne_invalid

/-- There is one next option. -/
theorem NextOption.unique {i' : ℕ} {opt' : OptionObligatoireHaHa} (h : NextOption argv t i opt)
    (h' : NextOption argv t i' opt') : i = i' ∧ opt = opt' := by
  obtain rfl : i = i' := h.skip_eq.symm.trans h'.skip_eq
  exact ⟨rfl, Option.some.inj (h.here.symm.trans h'.here)⟩

/-- The rounds up to the next option and the round at it, at once. -/
def stride (argv : List CStr) (u : State σ) : Round (State σ) (Outcome σ) :=
  round argv { u with cpt := skip argv u.cpt }

/-- The default case passes over the entries up to the next option. -/
theorem reaches_skip (argv : List CStr) (t : ℕ) (info : σ) :
    Relation.ReflTransGen (Goes (round argv)) ⟨t, info⟩ ⟨skip argv t, info⟩ := by
  suffices h : ∀ i, t ≤ i → i ≤ skip argv t →
      Relation.ReflTransGen (Goes (round argv)) ⟨t, info⟩ ⟨i, info⟩
    from h _ (Nat.le_add_right t _) le_rfl
  -- one default case after the other, from `t` up to `i`
  intro i h_le
  induction i, h_le using Nat.le_induction with
  | base => exact fun _ => .refl
  | succ j h_le ih =>
    intro h_lt
    exact (ih (Nat.le_of_succ_le h_lt)).tail (round_of_invalid (optionAt_of_lt_skip h_le h_lt))

/-- **The loop goes from option to option.** -/
theorem coarsens_stride (argv : List CStr) :
    Coarsens (round argv : State σ → _) (stride argv) :=
  fun u => ⟨_, reaches_skip argv u.cpt u.info, rfl⟩

/-- The rounds up to the next option and its group. -/
theorem stride_of_next {u : State σ} (h : NextOption argv u.cpt i opt) :
    stride argv u = caseOf argv opt ⟨i, u.info⟩ := by
  rw [stride, h.skip_eq]
  exact round_of_option h.here h.ne_invalid

/-- What the loop does next: it goes to the next option, or runs into the null pointer. -/
theorem stride_cases (argv : List CStr) (u : State σ) :
    (∃ i opt, NextOption argv u.cpt i opt ∧ stride argv u = caseOf argv opt ⟨i, u.info⟩) ∨
    ((∀ i opt, ¬ NextOption argv u.cpt i opt) ∧
      ∃ index, stride argv u = .leave (.faults (.entry index))) := by
  cases h_opt : optionAt argv (skip argv u.cpt) with
  | some opt =>
    -- `skip` stops at the first entry that is an option name
    have h_next : NextOption argv u.cpt (skip argv u.cpt) opt := by
      refine ⟨Nat.le_add_right _ _, fun j h_lt h_le => optionAt_of_lt_skip h_le h_lt, h_opt, ?_⟩
      rintro rfl
      exact optionAt_skip argv u.cpt h_opt
    exact Or.inl ⟨_, opt, h_next, stride_of_next h_next⟩
  | none =>
    right
    -- or at the null pointer behind the last entry
    refine ⟨?_, _, round_of_none h_opt⟩
    intro i opt h_next
    rw [h_next.skip_eq, h_next.here] at h_opt
    cases h_opt

end ProcessArgv
end WateRMQ
