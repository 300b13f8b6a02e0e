import WateRMQ.Backend.Cursor

/-!
# What `processArgv` reads from a command line

For what a command line says, the block is too much: here the memory of the loop are the members,
each with its string (`Informations`). A string has to fit into its own member then. Where one does
not, the loop on the members stops (`Fault.overflow`) and no more is said; as long as all of them
fit, this is the loop on the block, seen through its arrays.

A run of the loop that returns has read some groups, each where the cursor found its name, and the
last of them `--except_message` (`Route`); what it returns is what these groups hold (`ReadsAll`,
`ends_iff_route`). No group is read twice, or the cursor would come back for ever (`Route.nodup`).
-/

namespace WateRMQ
namespace ProcessArgv

open CMem While

/-! ### The members -/

/-- The strings of the members. A member that was not written is `none`. -/
abbrev Informations := (m : Member) → Option (CharArray m.size)

/-- The memory as `malloc` gives it. -/
def uninitialized : Informations := fun _ => none

/-- A string has room in its own member. -/
instance : Memory Informations where
  room := Member.size
  write info m s h := Function.update info m (some ⟨s, h⟩)

/-- `processArgv(argc, argv)` on the members, with the `malloc` that finds memory or not, when the
loop ends within `n` rounds. -/
def processArgv (mallocOk : Bool) (argv : List CStr) (n : ℕ) : Option (Outcome Informations) :=
  processArgvOn uninitialized mallocOk argv n

variable {argv : List CStr} {padding t t' i : ℕ} {opt : OptionObligatoireHaHa} {m : Member}
  {info info' r : Informations} {groups groups' : List (OptionObligatoireHaHa × ℕ)}

/-- `info` holds the value of `m` in a group whose option name is at `i`. -/
def Holds (argv : List CStr) (padding i : ℕ) (info : Informations) (m : Member) : Prop :=
  ∃ s a, argv[i + m.offset]? = some s ∧ padding ≤ s.length ∧ info m = some a ∧
    a.str = s.drop padding

/-- A value that a member holds can be copied. -/
theorem Holds.copyable (h : Holds argv padding i info m) :
    Copyable Informations argv padding i m := by
  obtain ⟨s, a, h_entry, h_length, -, h_str⟩ := h
  have h_fits : a.str.length < m.size := a.fits
  have h_room : s.length < padding + m.size := by
    rw [h_str, CStr.length_drop] at h_fits
    omega
  exact ⟨s, h_entry, h_length, h_room⟩

/-- The entry of a member decides its value. -/
theorem Holds.unique (h : Holds argv padding i info m) (h' : Holds argv padding i info' m) :
    info m = info' m := by
  obtain ⟨s, a, h_entry, -, h_a, h_str⟩ := h
  obtain ⟨s', a', h_entry', -, h_a', h_str'⟩ := h'
  obtain rfl : s = s' := Option.some.inj (h_entry.symm.trans h_entry')
  rw [h_a, h_a', CharArray.ext (h_str.trans h_str'.symm)]

/-- What the `strcpy`s of a case come to: the members hold their values, and the others are as
before. -/
def Reads (argv : List CStr) (padding i : ℕ) (members : List Member) (info info' : Informations) :
    Prop :=
  (∀ m ∈ members, Holds argv padding i info' m) ∧ ∀ m, m ∉ members → info' m = info m

/-- A group has one result. -/
theorem Reads.unique {members : List Member} {info₁ info₂ : Informations}
    (h : Reads argv padding i members info info₁) (h' : Reads argv padding i members info info₂) :
    info₁ = info₂ := by
  funext m
  by_cases h_mem : m ∈ members
  · exact (h.1 m h_mem).unique (h'.1 m h_mem)
  · rw [h.2 m h_mem, h'.2 m h_mem]

/-- Each member of a group keeps what its own `strcpy` wrote. -/
theorem reads_of_copies {members : List Member} (h_nodup : members.Nodup)
    (h : copies argv padding i members info = .ok info') :
    Reads argv padding i members info info' := by
  induction members generalizing info with
  | nil =>
    obtain rfl := Except.ok.inj h
    exact ⟨by simp, fun _ _ => rfl⟩
  | cons m members ih =>
    obtain ⟨h_notMem, h_nodup⟩ := List.nodup_cons.mp h_nodup
    obtain ⟨info₁, h_first, h_rest⟩ := bind_eq_ok.mp h
    obtain ⟨h_members, h_frame⟩ := ih h_nodup h_rest
    obtain ⟨s, h_entry, h_length, h_fits, h_copy⟩ | ⟨-, -, h_copy⟩ | ⟨-, fault, -, h_copy⟩ :=
      copy_cases argv padding i info m
    · obtain rfl := Except.ok.inj (h_copy.symm.trans h_first)
      -- no later `strcpy` is into `m`
      constructor
      · refine List.forall_mem_cons.mpr ⟨⟨s, ⟨_, h_fits⟩, h_entry, h_length, ?_, rfl⟩, h_members⟩
        exact (h_frame m h_notMem).trans (Function.update_self m _ info)
      · intro k h_k
        rw [List.mem_cons, not_or] at h_k
        exact (h_frame k h_k.2).trans (Function.update_of_ne h_k.1 _ info)
    · cases h_copy.symm.trans h_first
    · cases h_copy.symm.trans h_first

/-- No member is twice in a group. -/
theorem OptionObligatoireHaHa.nodup_members (opt : OptionObligatoireHaHa) : opt.members.Nodup := by
  cases opt <;> decide

/-- The group of `opt` with its name at `i` is read. -/
def OptionObligatoireHaHa.Reads (argv : List CStr) (opt : OptionObligatoireHaHa) (i : ℕ)
    (info info' : Informations) : Prop :=
  ProcessArgv.Reads argv opt.padding i opt.members info info'

/-- **On the members**, to copy a group is to read it. -/
theorem copies_iff_reads : opt.Copies argv i info info' ↔ opt.Reads argv i info info' := by
  constructor
  · exact reads_of_copies opt.nodup_members
  · intro h
    -- all values can be copied, and there is only one result
    obtain ⟨info₁, h_copies⟩ := (exists_copies_iff info).mpr fun m hm => (h.1 m hm).copyable
    rw [← (reads_of_copies opt.nodup_members h_copies).unique h]
    exact h_copies

/-- A group that is accepted has one. -/
theorem OptionObligatoireHaHa.Accepts.exists_reads (h : opt.Accepts Informations argv i)
    (info : Informations) : ∃ info', opt.Reads argv i info info' := by
  obtain ⟨info', h_copies⟩ := h.exists_copies info
  exact ⟨info', copies_iff_reads.mp h_copies⟩

/-! ### The groups that are read -/

/-- From the entry `t` on, the loop reads these groups, each with its name at the given entry, and
returns. -/
inductive Route (argv : List CStr) : ℕ → List (OptionObligatoireHaHa × ℕ) → Prop
  | last {t i : ℕ} (h_next : NextOption argv t i .except_message) :
    Route argv t [(.except_message, i)]
  | jump {t i t' : ℕ} {opt : OptionObligatoireHaHa} {groups : List (OptionObligatoireHaHa × ℕ)}
    (h_next : NextOption argv t i opt) (h_jump : opt.jump = some t')
    (h_rest : Route argv t' groups) : Route argv t ((opt, i) :: groups)

/-- The groups are read one after the other. -/
def ReadsAll (argv : List CStr) : List (OptionObligatoireHaHa × ℕ) → Informations → Informations →
    Prop
  | [], info, r => r = info
  | (opt, i) :: groups, info, r =>
    ∃ info', opt.Reads argv i info info' ∧ ReadsAll argv groups info' r

/-- There is one way to go. -/
theorem Route.unique (h : Route argv t groups) (h' : Route argv t groups') : groups = groups' := by
  induction h generalizing groups' with
  | last h_next =>
    cases h' with
    | last h_next' => rw [(h_next.unique h_next').1]
    | jump h_next' h_jump' =>
      obtain ⟨-, rfl⟩ := h_next.unique h_next'
      cases h_jump'
  -- the first group is the same on both, and so is the position behind it
  | jump h_next h_jump _ ih =>
    cases h' with
    | last h_next' =>
      obtain ⟨-, rfl⟩ := h_next.unique h_next'
      cases h_jump
    | jump h_next' h_jump' h_rest' =>
      obtain ⟨rfl, rfl⟩ := h_next.unique h_next'
      obtain rfl := Option.some.inj (h_jump.symm.trans h_jump')
      rw [ih h_rest']

/-- After a group of a route the loop is where the group sets the cursor to. -/
theorem Route.of_mem (h : Route argv t groups) (h_mem : opt ∈ groups.map Prod.fst)
    (h_jump : opt.jump = some t') : ∃ rest, rest.length < groups.length ∧ Route argv t' rest := by
  induction h with
  | last h_next =>
    obtain rfl : opt = .except_message := by simpa using h_mem
    cases h_jump
  | @jump t i t₁ opt₁ groups h_next h_jump₁ h_rest ih =>
    rw [List.map_cons] at h_mem
    rcases List.mem_cons.mp h_mem with rfl | h_mem
    · obtain rfl := Option.some.inj (h_jump₁.symm.trans h_jump)
      exact ⟨groups, Nat.lt_succ_self _, h_rest⟩
    · obtain ⟨rest, h_lt, h_route⟩ := ih h_mem
      exact ⟨rest, Nat.lt_succ_of_lt h_lt, h_route⟩

/-- **No group is read twice.** -/
theorem Route.nodup (h : Route argv t groups) : (groups.map Prod.fst).Nodup := by
  induction h with
  | last => exact List.nodup_singleton _
  | @jump t i t₁ opt groups h_next h_jump h_rest ih =>
    rw [List.map_cons]
    refine List.nodup_cons.mpr ⟨?_, ih⟩
    -- read again, the group would lead to the same entry, and to the same route
    intro h_mem
    obtain ⟨rest, h_lt, h_route⟩ := h_rest.of_mem h_mem h_jump
    rw [h_route.unique h_rest] at h_lt
    exact lt_irrefl _ h_lt

/-- **What a run that returns has read.** -/
theorem ends_iff_route : Ends (stride argv) ⟨t, info⟩ (.returns r) ↔
    ∃ groups, Route argv t groups ∧ ReadsAll argv groups info r := by
  constructor
  · -- one group for each round
    rintro ⟨n, hn⟩
    induction n generalizing t info with
    | zero => cases hn
    | succ n ih =>
      cases h_stride : stride argv ⟨t, info⟩ with
      | goOn v =>
        rw [result_goOn h_stride] at hn
        obtain ⟨i, opt, h_next, h_jump, h_group⟩ := goes_stride_iff.mp h_stride
        obtain ⟨groups, h_route, h_all⟩ := ih hn
        exact ⟨(opt, i) :: groups, .jump h_next h_jump h_route, v.info,
          copies_iff_reads.mp h_group, h_all⟩
      | leave r' =>
        rw [result_leave h_stride] at hn
        obtain rfl := Option.some.inj hn
        obtain ⟨i, h_next, h_group⟩ := stride_returns_iff.mp h_stride
        exact ⟨[(.except_message, i)], .last h_next, r, copies_iff_reads.mp h_group, rfl⟩
  -- and one round for each group
  · rintro ⟨groups, h_route, h_all⟩
    induction h_route generalizing info with
    | last h_next =>
      obtain ⟨info', h_reads, rfl⟩ := h_all
      exact ends_of_leave (stride_returns_iff.mpr ⟨_, h_next, copies_iff_reads.mpr h_reads⟩)
    | jump h_next h_jump _ ih =>
      obtain ⟨info', h_reads, h_all⟩ := h_all
      have h_goes : Goes (stride argv) ⟨_, info⟩ ⟨_, info'⟩ :=
        goes_stride_iff.mpr ⟨_, _, h_next, h_jump, copies_iff_reads.mpr h_reads⟩
      exact (ends_iff_of_goOn h_goes).mpr (ih h_all)

/-- The groups on the way decide what `processArgv` returns. -/
theorem returns_iff (h_argc : 24 ≤ argv.length) (h_route : Route argv 1 groups) :
    (∃ n, processArgv true argv n = some (.returns r)) ↔ ReadsAll argv groups uninitialized r := by
  simp only [processArgv]
  rw [processArgvOn_iff h_argc, start, ends_iff_route]
  constructor
  · rintro ⟨groups', h_route', h_all⟩
    rwa [h_route.unique h_route']
  · exact fun h_all => ⟨groups, h_route, h_all⟩

/-! ### The members of the groups -/

/-- The option whose group a member belongs to. -/
def Member.group : Member → OptionObligatoireHaHa
  | .hostname | .port => .connection
  | .exchange_name | .bindingKey | .queuename => .exchange_bind_queue
  | .v_host | .channel_max | .frame_max | .heartbeat | .username | .password => .login_system
  | .loginExceptionMessage | .openingChannelExceptionMessage | .queueExceptionMessage
  | .bindingExceptionMessage | .consumingExceptionMessage | .closingChannelExceptionMessage
  | .closingConnectionExceptionMessage | .endingConnectionExceptionMessage => .except_message

/-- The groups are disjoint, and every member is in one of them. -/
theorem mem_members : m ∈ opt.members ↔ m.group = opt := by
  cases opt <;> cases m <;> simp [OptionObligatoireHaHa.members, Member.group]

/-- Only the member itself counts. -/
theorem Holds.congr (h : Holds argv padding i info m) (h_eq : info' m = info m) :
    Holds argv padding i info' m := by
  obtain ⟨s, a, h_entry, h_length, h_a, h_str⟩ := h
  exact ⟨s, a, h_entry, h_length, h_eq.trans h_a, h_str⟩

/-- A member whose group is not read is as before. -/
theorem ReadsAll.frame (h : ReadsAll argv groups info r) (h_m : m.group ∉ groups.map Prod.fst) :
    r m = info m := by
  induction groups generalizing info with
  | nil => rw [show r = info from h]
  | cons g groups ih =>
    obtain ⟨opt, i⟩ := g
    obtain ⟨info', h_reads, h_all⟩ := h
    rw [List.map_cons, List.mem_cons, not_or] at h_m
    rw [ih h_all h_m.2]
    exact h_reads.2 m fun h_mem => h_m.1 (mem_members.mp h_mem)

/-- A member of a group that is read once holds its value in the end. -/
theorem ReadsAll.holds (h : ReadsAll argv groups info r) (h_nodup : (groups.map Prod.fst).Nodup)
    (h_mem : (m.group, i) ∈ groups) : Holds argv m.group.padding i r m := by
  induction groups generalizing info with
  | nil => cases h_mem
  | cons g groups ih =>
    obtain ⟨opt, j⟩ := g
    obtain ⟨info', h_reads, h_all⟩ := h
    rw [List.map_cons] at h_nodup
    obtain ⟨h_notMem, h_nodup⟩ := List.nodup_cons.mp h_nodup
    rcases List.mem_cons.mp h_mem with h_eq | h_mem
    · -- read now, and not written again
      obtain ⟨rfl, rfl⟩ := Prod.mk.inj h_eq
      exact (h_reads.1 m (mem_members.mpr rfl)).congr (h_all.frame h_notMem)
    · exact ih h_all h_nodup h_mem

theorem exists_readsAll (h : ∀ g ∈ groups, g.1.Accepts Informations argv g.2)
    (info : Informations) : ∃ r, ReadsAll argv groups info r := by
  induction groups generalizing info with
  | nil => exact ⟨info, rfl⟩
  | cons g groups ih =>
    obtain ⟨h_g, h_groups⟩ := List.forall_mem_cons.mp h
    obtain ⟨info', h_reads⟩ := h_g.exists_reads info
    obtain ⟨r, h_all⟩ := ih h_groups info'
    exact ⟨r, info', h_reads, h_all⟩

/-- **All groups are read**: the result is what holds the value of every member. -/
theorem readsAll_iff (h_nodup : (groups.map Prod.fst).Nodup)
    (h_mem : ∀ m : Member, m.group ∈ groups.map Prod.fst) :
    ReadsAll argv groups info r ↔
      ∀ g ∈ groups, ∀ m ∈ g.1.members, Holds argv g.1.padding g.2 r m := by
  constructor
  · rintro h ⟨opt, i⟩ h_g m h_m
    obtain rfl : m.group = opt := mem_members.mp h_m
    exact h.holds h_nodup h_g
  · intro h
    obtain ⟨r', h_all⟩ := exists_readsAll (fun g h_g m h_m => (h g h_g m h_m).copyable) info
    -- each member is in one of the groups, whose entry decides its value
    suffices h_eq : r = r' by rwa [h_eq]
    funext m
    obtain ⟨⟨opt, i⟩, h_g, h_opt⟩ := List.mem_map.mp (h_mem m)
    obtain rfl : opt = m.group := h_opt
    exact (h _ h_g m (mem_members.mpr rfl)).unique (h_all.holds h_nodup h_g)

/-! ### Canonical command lines -/

/-- The entry of the name of an option on a command line with the four groups one after the
other. -/
def OptionObligatoireHaHa.start : OptionObligatoireHaHa → ℕ
  | .invalid => 0
  | .connection => 1
  | .exchange_bind_queue => 4
  | .login_system => 8
  | .except_message => 15

/-- The entry of the value of a member. -/
def Member.position (m : Member) : ℕ := m.group.start + m.offset

/-- The four groups and the entries of their names. -/
def canonicalGroups : List (OptionObligatoireHaHa × ℕ) :=
  [(.connection, 1), (.exchange_bind_queue, 4), (.login_system, 8), (.except_message, 15)]

/-- Every member is in one of the four groups. -/
theorem mem_canonicalGroups (m : Member) : (m.group, m.group.start) ∈ canonicalGroups := by
  cases m <;> simp [canonicalGroups, Member.group, OptionObligatoireHaHa.start]

/-- Each option is found by its name. -/
theorem getOption_name (h : opt ≠ .invalid) : getOptionObligatoireHaHaByOpt opt.name = opt := by
  cases opt with
  | invalid => exact absurd rfl h
  | _ => decide

/-- An argument that is the name of an option is that option. -/
theorem optionAt_of_name (h : opt ≠ .invalid) (h_entry : argv[i]? = some opt.name) :
    optionAt argv i = some opt := by
  rw [optionAt, h_entry, Option.map_some, getOption_name h]

/-- The names are where the cursor is set to. -/
def HasNames (argv : List CStr) : Prop :=
  ∀ opt : OptionObligatoireHaHa, opt ≠ .invalid → argv[opt.start]? = some opt.name

/-- With the names at their places, each option is next at its own. -/
theorem HasNames.next (h : HasNames argv) (opt : OptionObligatoireHaHa) (h_opt : opt ≠ .invalid) :
    NextOption argv opt.start opt.start opt :=
  ⟨le_rfl, fun _ h_lt h_le => absurd h_lt (Nat.not_lt.mpr h_le),
    optionAt_of_name h_opt (h opt h_opt), h_opt⟩

/-- The loop comes to the four groups in their order. -/
theorem HasNames.route (h : HasNames argv) : Route argv 1 canonicalGroups := by
  refine .jump (h.next .connection (by decide)) rfl ?_
  refine .jump (h.next .exchange_bind_queue (by decide)) rfl ?_
  refine .jump (h.next .login_system (by decide)) rfl ?_
  exact .last (h.next .except_message (by decide))

/-- What `processArgv` returns for a canonical command line holds the value of every member. -/
theorem HasNames.returns_iff (h : HasNames argv) (h_argc : 24 ≤ argv.length) :
    (∃ n, processArgv true argv n = some (.returns r)) ↔
      ∀ m : Member, Holds argv m.group.padding m.group.start r m := by
  rw [ProcessArgv.returns_iff h_argc h.route]
  rw [readsAll_iff (by decide) fun m => List.mem_map_of_mem (mem_canonicalGroups m)]
  constructor
  · exact fun h_all m => h_all _ (mem_canonicalGroups m) m (mem_members.mpr rfl)
  -- each group is read where its name is on a canonical command line
  · rintro h_all ⟨opt, i⟩ h_g m h_m
    obtain rfl : m.group = opt := mem_members.mp h_m
    have h_start : m.group.start = i := by
      simp only [canonicalGroups, List.mem_cons, Prod.mk.injEq, List.not_mem_nil, or_false] at h_g
      rcases h_g with ⟨h_opt, rfl⟩ | ⟨h_opt, rfl⟩ | ⟨h_opt, rfl⟩ | ⟨h_opt, rfl⟩ <;>
        rw [h_opt] <;> rfl
    rw [← h_start]
    exact h_all m

/-- The entry that `while(!ok)` hands to `getOptionObligatoireHaHaByOpt` after `k` rounds. -/
def cursor (argv : List CStr) (k : ℕ) : Option ℕ :=
  (While.state (round argv) k (start uninitialized)).map State.cpt

/-- One round of a canonical command line. -/
theorem HasNames.round (h : HasNames argv) (opt : OptionObligatoireHaHa) (h_opt : opt ≠ .invalid)
    (info : Informations) :
    round argv ⟨opt.start, info⟩ = caseOf argv opt ⟨opt.start, info⟩ :=
  round_of_option (optionAt_of_name h_opt (h opt h_opt)) h_opt

/-- The run of a canonical command line: four rounds, at the four names. -/
theorem HasNames.run (h : HasNames argv) (h_values : ∀ m : Member,
      Copyable Informations argv m.group.padding m.group.start m) :
    ∃ info, (∀ n, processArgv true argv n = if n < 4 then none else some (.returns info)) ∧
      (∀ k, cursor argv k = [1, 4, 8, 15][k]?) ∧
      ∀ m : Member, Holds argv m.group.padding m.group.start info m := by
  have h_accepts : ∀ opt : OptionObligatoireHaHa, opt.Accepts Informations argv opt.start := by
    intro opt m h_m
    obtain rfl : m.group = opt := mem_members.mp h_m
    exact h_values m
  obtain ⟨info₁, h₁⟩ := (h_accepts .connection).exists_copies uninitialized
  obtain ⟨info₂, h₂⟩ := (h_accepts .exchange_bind_queue).exists_copies info₁
  obtain ⟨info₃, h₃⟩ := (h_accepts .login_system).exists_copies info₂
  obtain ⟨info₄, h₄⟩ := (h_accepts .except_message).exists_copies info₃
  -- the run: at each name the cursor is set to the next one, and the last case returns
  have h_chain : List.IsChain (Goes (ProcessArgv.round argv))
      [ProcessArgv.start uninitialized, ⟨4, info₁⟩, ⟨8, info₂⟩, ⟨15, info₃⟩] := by
    simp only [List.isChain_cons_cons, List.isChain_singleton, and_true]
    refine ⟨?_, ?_, ?_⟩
    · exact (h.round .connection (by decide) _).trans
        ((caseOf_goOn_iff (by decide)).mpr ⟨rfl, h₁⟩)
    · exact (h.round .exchange_bind_queue (by decide) _).trans
        ((caseOf_goOn_iff (by decide)).mpr ⟨rfl, h₂⟩)
    · exact (h.round .login_system (by decide) _).trans
        ((caseOf_goOn_iff (by decide)).mpr ⟨rfl, h₃⟩)
  have h_leave : ProcessArgv.round argv ⟨15, info₃⟩ = .leave (.returns info₄) :=
    (h.round .except_message (by decide) _).trans
      ((caseOf_returns_iff (by decide)).mpr ⟨rfl, h₄⟩)
  have h_argc : 24 ≤ argv.length := by
    obtain ⟨s, h_entry, -⟩ := h_values .endingConnectionExceptionMessage
    exact (List.getElem?_eq_some_iff.mp h_entry).1
  have h_run : ∀ n, processArgv true argv n = if n < 4 then none else some (.returns info₄) := by
    intro n
    rw [processArgv, processArgvOn_eq h_argc, (run_of_isChain h_chain h_leave n).1]
    exact if_congr Nat.lt_succ_iff.symm rfl rfl
  refine ⟨info₄, h_run, ?_, (h.returns_iff h_argc).mp ⟨4, h_run 4⟩⟩
  intro k
  rw [cursor, (run_of_isChain h_chain h_leave k).2, ← List.getElem?_map]
  rfl

theorem position_lt (m : Member) : m.position < 24 := by
  cases m <;> decide

theorem start_lt (opt : OptionObligatoireHaHa) : opt.start < 24 := by
  cases opt <;> decide

/-- **Positional reading.** A canonical command line is read in four rounds, at the entries of the
four names and nowhere else. Each member gets the entry of its own position, without the characters
that are skipped, and what follows the first 24 arguments changes nothing. -/
theorem canonical (h_names : HasNames argv) (h_values : ∀ m : Member,
      ∃ s, argv[m.position]? = some s ∧ m.group.padding ≤ s.length ∧
        s.length < m.group.padding + m.size) :
    ∃ info, (∀ n, processArgv true argv n = if n < 4 then none else some (.returns info)) ∧
      (∀ k, cursor argv k = [1, 4, 8, 15][k]?) ∧
      (∀ m : Member, ∃ s a, argv[m.position]? = some s ∧ info m = some a ∧
        a.str = s.drop m.group.padding) ∧
      ∀ argv', argv'.take 24 = argv.take 24 → ∀ mallocOk n,
        processArgv mallocOk argv' n = processArgv mallocOk argv n := by
  obtain ⟨info, h_run, h_cursor, h_holds⟩ := h_names.run h_values
  refine ⟨info, h_run, h_cursor, ?_, ?_⟩
  · intro m
    obtain ⟨s, a, h_entry, -, h_a, h_str⟩ := h_holds m
    exact ⟨s, a, h_entry, h_a, h_str⟩
  · intro argv' h_take mallocOk n
    -- the entries that are read are the same, so the other command line is canonical too
    have h_entry : ∀ i < 24, argv'[i]? = argv[i]? := by
      intro i h_lt
      rw [← List.getElem?_take_of_lt h_lt, h_take, List.getElem?_take_of_lt h_lt]
    have h_names' : HasNames argv' := by
      intro opt h_opt
      rw [h_entry _ (start_lt opt), h_names opt h_opt]
    obtain ⟨info', h_run', -, h_holds'⟩ := h_names'.run fun m => by
      obtain ⟨s, h_s, h_length⟩ := h_values m
      exact ⟨s, (h_entry _ (position_lt m)).trans h_s, h_length⟩
    have h_info : info' = info := by
      funext m
      obtain ⟨s, a, h_s, h_length, h_a, h_str⟩ := h_holds' m
      have h_here : Holds argv m.group.padding m.group.start info' m :=
        ⟨s, a, (h_entry _ (position_lt m)).symm.trans h_s, h_length, h_a, h_str⟩
      exact h_here.unique (h_holds m)
    cases mallocOk with
    | false => rfl
    | true => rw [h_run', h_run, h_info]

/-- The names are at their places. -/
theorem hasNames_complete : HasNames complete := by
  intro opt h_opt
  cases opt with
  | invalid => exact absurd rfl h_opt
  | _ => rfl

/-- The whole configuration of the example. -/
theorem canonical_complete : ∃ info,
    (∀ n, processArgv true complete n = if n < 4 then none else some (.returns info)) ∧
    (info .hostname).map CharArray.str = some (literal "localhost") ∧
    (info .password).map CharArray.str = some (literal "guest") := by
  have h_values : ∀ m : Member, Copyable Informations complete m.group.padding m.group.start m := by
    intro m
    cases m <;> decide
  obtain ⟨info, h_run, -, h_info, -⟩ := canonical hasNames_complete h_values
  refine ⟨info, h_run, ?_, ?_⟩
  · obtain ⟨s, a, h_entry, h_a, h_str⟩ := h_info .hostname
    obtain rfl : literal "chp:: localhost" = s := Option.some.inj h_entry
    rw [h_a, Option.map_some, h_str]
    decide
  · obtain ⟨s, a, h_entry, h_a, h_str⟩ := h_info .password
    obtain rfl : literal "ls:: guest" = s := Option.some.inj h_entry
    rw [h_a, Option.map_some, h_str]
    decide

/-! ### Command lines with other arguments -/

/-- The options in the order of their groups. -/
def options : List OptionObligatoireHaHa :=
  [.connection, .exchange_bind_queue, .login_system, .except_message]

/-- The group of an option, with `tokens opt` immediately before its name. -/
def segment (tokens : OptionObligatoireHaHa → List CStr) (value : Member → CStr)
    (opt : OptionObligatoireHaHa) : List CStr :=
  tokens opt ++ opt.name :: opt.members.map value

/-- A command line with the four groups in order and the arguments `rest` behind them. -/
def commandLine (prog : CStr) (tokens : OptionObligatoireHaHa → List CStr) (value : Member → CStr)
    (rest : List CStr) : List CStr :=
  prog :: options.flatMap (segment tokens value) ++ rest

/-- The four groups alone. -/
def noTokens : OptionObligatoireHaHa → List CStr := fun _ => []

variable {prog : CStr} {tokens : OptionObligatoireHaHa → List CStr} {value : Member → CStr}
  {rest : List CStr}

theorem le_length_commandLine : 24 ≤ (commandLine prog tokens value rest).length := by
  simp [commandLine, options, segment, OptionObligatoireHaHa.members]
  omega

theorem hasNames_commandLine : HasNames (commandLine prog noTokens value rest) := by
  intro opt h_opt
  cases opt with
  | invalid => exact absurd rfl h_opt
  | _ => rfl

/-- A value stands at the position of its member. -/
theorem position_commandLine (m : Member) :
    (commandLine prog noTokens value rest)[m.position]? = some (value m) := by
  cases m <;> rfl

/-- What the values of a command line are read as. -/
def Parsed (value : Member → CStr) (info : Informations) : Prop :=
  ∀ m : Member, m.group.padding ≤ (value m).length ∧
    ∃ a, info m = some a ∧ a.str = (value m).drop m.group.padding

theorem returns_commandLine_iff :
    (∃ n, processArgv true (commandLine prog noTokens value rest) n = some (.returns info)) ↔
      Parsed value info := by
  rw [hasNames_commandLine.returns_iff le_length_commandLine]
  refine forall_congr' fun m => ?_
  constructor
  · rintro ⟨s, a, h_entry, h_length, h_a, h_str⟩
    -- the entry at the position of `m` is its value
    obtain rfl : value m = s := Option.some.inj ((position_commandLine m).symm.trans h_entry)
    exact ⟨h_length, a, h_a, h_str⟩
  · rintro ⟨h_length, a, h_a, h_str⟩
    exact ⟨value m, a, position_commandLine m, h_length, h_a, h_str⟩

/-! ### The documented format -/

/-- The prefix of the values of a group in the documented format. -/
def OptionObligatoireHaHa.valuePrefix : OptionObligatoireHaHa → CStr
  | .invalid => literal ""
  | .connection => literal "chp::"
  | .exchange_bind_queue => literal "ebq::"
  | .login_system => literal "ls::"
  | .except_message => literal "em::"

/-- The command line for a configuration: each value behind the prefix of its group. -/
def encode (prog : CStr) (config : (m : Member) → CharArray m.size) : List CStr :=
  commandLine prog noTokens (fun m => m.group.valuePrefix ++ (config m).str) []

/-- One character more is skipped than the prefix has. -/
theorem padding_eq (m : Member) : m.group.padding = m.group.valuePrefix.length + 1 := by
  cases m <;> decide

/-- What is read from an encoded configuration: every string without its first character, and no
string may be empty. -/
theorem encode_returns_iff {config : (m : Member) → CharArray m.size} :
    (∃ n, processArgv true (encode prog config) n = some (.returns info)) ↔
      ∀ m : Member, 1 ≤ (config m).str.length ∧
        ∃ a, info m = some a ∧ a.str = (config m).str.drop 1 := by
  rw [encode, returns_commandLine_iff]
  refine forall_congr' fun m => ?_
  rw [padding_eq, CStr.length_append, CStr.drop_append, Nat.add_le_add_iff_left]

/-- **The format does not round-trip**, for any configuration. -/
theorem encode_not_returned (prog : CStr) (config : (m : Member) → CharArray m.size)
    (mallocOk : Bool) (n : ℕ) :
    processArgv mallocOk (encode prog config) n ≠ some (.returns fun m => some (config m)) := by
  intro h
  cases mallocOk with
  | false => cases h
  | true =>
    obtain ⟨h_length, a, h_a, h_str⟩ := encode_returns_iff.mp ⟨n, h⟩ .hostname
    have h_config : (config .hostname).str = (config .hostname).str.drop 1 :=
      (congrArg CharArray.str (Option.some.inj h_a)).trans h_str
    -- a string without its first character is shorter
    have h_lengths := congrArg CStr.length h_config
    rw [CStr.length_drop] at h_lengths
    omega

/-- A configuration of 19 times the string `ab`. -/
def sample (m : Member) : CharArray m.size := ⟨literal "ab", by cases m <;> decide⟩

/-- Of the host name the second character only is left. -/
theorem sample_not_returned : ∃ info,
    processArgv true (encode (literal "main") sample) 4 = some (.returns info) ∧
    (info .hostname).map CharArray.str = some (literal "b") ∧
    info ≠ fun m => some (sample m) := by
  have h_run : ∃ info, processArgv true (encode (literal "main") sample) 4 =
      some (.returns info) ∧ (info .hostname).map CharArray.str = some (literal "b") :=
    ⟨_, rfl, by decide⟩
  obtain ⟨info, h_run, h_hostname⟩ := h_run
  refine ⟨info, h_run, h_hostname, ?_⟩
  rintro rfl
  revert h_hostname
  decide

end ProcessArgv
end WateRMQ
