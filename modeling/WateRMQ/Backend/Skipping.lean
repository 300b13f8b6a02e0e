import WateRMQ.Backend.CommandLine

/-!
# Unknown arguments on the command line

The default case of `processArgv` passes over an argument that is no option name. Such arguments
move the groups behind them, while the cursor is set to fixed entries. So whether they are without
effect depends on how many there are: the next option after a jump has to be that of a group which
is not read yet.

`unchanged_iff`: tokens immediately before the groups of a command line leave the result unchanged
exactly when the cursor then finds the groups in an order that reads each of them, with the same
values (`Undisturbed`). When no value is itself an option name, there may be two tokens in front of
the name of the first group, three in front of that of the second, and six in front of that of the
third.
-/

namespace WateRMQ
namespace ProcessArgv

open CMem While

variable {argv : List CStr} {t i j : ℕ} {opt : OptionObligatoireHaHa} {info : Informations}
  {groups : List (OptionObligatoireHaHa × ℕ)} {prog : CStr}
  {tokens : OptionObligatoireHaHa → List CStr} {value : Member → CStr} {rest : List CStr}

/-- The group of `opt` at the entry `i` has the values of `value`. -/
def Carries (argv : List CStr) (value : Member → CStr) (opt : OptionObligatoireHaHa) (i : ℕ) :
    Prop :=
  ∀ m ∈ opt.members, ∃ s, argv[i + m.offset]? = some s ∧ opt.padding ≤ s.length ∧
    s.drop opt.padding = (value m).drop opt.padding

/-- Behind the group of the connection, the cursor finds the other three groups, one after the
other, with the values of `value`. -/
def Undisturbed (argv : List CStr) (value : Member → CStr) : Prop :=
  ∃ iE iL iX,
    ((NextOption argv 4 iE .exchange_bind_queue ∧ NextOption argv 8 iL .login_system ∧
        NextOption argv 15 iX .except_message) ∨
      (NextOption argv 4 iL .login_system ∧ NextOption argv 15 iE .exchange_bind_queue ∧
        NextOption argv 8 iX .except_message)) ∧
    Carries argv value .exchange_bind_queue iE ∧ Carries argv value .login_system iL ∧
    Carries argv value .except_message iX

/-- A group holds what was parsed exactly when it has the values. -/
theorem carries_iff (h : Parsed value info) : Carries argv value opt i ↔
    ∀ m ∈ opt.members, Holds argv opt.padding i info m := by
  refine forall₂_congr fun m h_m => ?_
  obtain rfl : m.group = opt := mem_members.mp h_m
  obtain ⟨-, a, h_a, h_str⟩ := h m
  constructor
  · rintro ⟨s, h_entry, h_length, h_drop⟩
    exact ⟨s, a, h_entry, h_length, h_a, h_str.trans h_drop.symm⟩
  · rintro ⟨s, a', h_entry, h_length, h_a', h_str'⟩
    obtain rfl : a = a' := Option.some.inj (h_a.symm.trans h_a')
    exact ⟨s, h_entry, h_length, h_str'.symm.trans h_str⟩

/-! ### Routes through all groups -/

/-- A route that still reads a group other than the last one begins with a jump. -/
theorem Route.inv_of_mem (h : Route argv t groups) (h_mem : opt ∈ groups.map Prod.fst)
    (h_opt : opt ≠ .except_message) : ∃ i opt₁ t' rest, groups = (opt₁, i) :: rest ∧
      NextOption argv t i opt₁ ∧ opt₁.jump = some t' ∧ Route argv t' rest := by
  cases h with
  | last h_next => exact absurd (by simpa using h_mem) h_opt
  | jump h_next h_jump h_rest => exact ⟨_, _, _, _, rfl, h_next, h_jump, h_rest⟩

/-- When all groups but the last one are read, the last one is left. -/
theorem Route.eq_last (h : Route argv t groups) (h_connection : .connection ∉ groups.map Prod.fst)
    (h_exchange : .exchange_bind_queue ∉ groups.map Prod.fst)
    (h_login : .login_system ∉ groups.map Prod.fst) :
    ∃ i, groups = [(.except_message, i)] ∧ NextOption argv t i .except_message := by
  cases h with
  | last h_next => exact ⟨_, rfl, h_next⟩
  | @jump t i t' opt rest h_next h_jump h_rest =>
    cases opt with
    | connection => simp at h_connection
    | exchange_bind_queue => simp at h_exchange
    | login_system => simp at h_login
    | invalid => cases h_jump
    | except_message => cases h_jump

/-- A route that reads every group after that of the connection goes one of two ways. -/
theorem Route.cases_of_connection (h : Route argv 1 groups)
    (h_first : NextOption argv 1 i .connection)
    (h_mem : ∀ m : Member, m.group ∈ groups.map Prod.fst) :
    ∃ iE iL iX,
      (groups = [(.connection, i), (.exchange_bind_queue, iE), (.login_system, iL),
          (.except_message, iX)] ∧
        NextOption argv 4 iE .exchange_bind_queue ∧ NextOption argv 8 iL .login_system ∧
        NextOption argv 15 iX .except_message) ∨
      (groups = [(.connection, i), (.login_system, iL), (.exchange_bind_queue, iE),
          (.except_message, iX)] ∧
        NextOption argv 4 iL .login_system ∧ NextOption argv 15 iE .exchange_bind_queue ∧
        NextOption argv 8 iX .except_message) := by
  have h_nodup := h.nodup
  have h_exchange := h_mem .exchange_name
  have h_login := h_mem .v_host
  obtain ⟨i₁, opt₁, t₁, groups₁, rfl, h_next, h_jump, h_rest₁⟩ :=
    h.inv_of_mem h_exchange (by decide)
  obtain ⟨rfl, rfl⟩ := h_first.unique h_next
  obtain rfl := Option.some.inj h_jump
  simp only [Member.group, List.map_cons, List.mem_cons, reduceCtorEq, false_or]
    at h_exchange h_login
  obtain ⟨i₂, opt₂, t₂, groups₂, rfl, h_next₂, h_jump₂, h_rest₂⟩ :=
    h_rest₁.inv_of_mem h_exchange (by decide)
  -- the connection is not read again, so the exchange or the login comes next
  cases opt₂ with
  | invalid => cases h_jump₂
  | except_message => cases h_jump₂
  | connection => simp at h_nodup
  | exchange_bind_queue =>
    obtain rfl := Option.some.inj h_jump₂
    simp only [List.map_cons, List.mem_cons, reduceCtorEq, false_or] at h_login
    obtain ⟨i₃, opt₃, t₃, groups₃, rfl, h_next₃, h_jump₃, h_rest₃⟩ :=
      h_rest₂.inv_of_mem h_login (by decide)
    cases opt₃ with
    | invalid => cases h_jump₃
    | except_message => cases h_jump₃
    | connection => simp at h_nodup
    | exchange_bind_queue => simp at h_nodup
    | login_system =>
      obtain rfl := Option.some.inj h_jump₃
      simp only [List.map_cons, List.nodup_cons, List.mem_cons, not_or] at h_nodup
      obtain ⟨h_connection, h_exchange, h_login, -⟩ := h_nodup
      obtain ⟨i₄, rfl, h_next₄⟩ := h_rest₃.eq_last h_connection.2.2 h_exchange.2 h_login
      exact ⟨i₂, i₃, i₄, Or.inl ⟨rfl, h_next₂, h_next₃, h_next₄⟩⟩
  | login_system =>
    obtain rfl := Option.some.inj h_jump₂
    simp only [List.map_cons, List.mem_cons, reduceCtorEq, false_or] at h_exchange
    obtain ⟨i₃, opt₃, t₃, groups₃, rfl, h_next₃, h_jump₃, h_rest₃⟩ :=
      h_rest₂.inv_of_mem h_exchange (by decide)
    cases opt₃ with
    | invalid => cases h_jump₃
    | except_message => cases h_jump₃
    | connection => simp at h_nodup
    | login_system => simp at h_nodup
    | exchange_bind_queue =>
      obtain rfl := Option.some.inj h_jump₃
      simp only [List.map_cons, List.nodup_cons, List.mem_cons, not_or] at h_nodup
      obtain ⟨h_connection, h_login, h_exchange, -⟩ := h_nodup
      obtain ⟨i₄, rfl, h_next₄⟩ := h_rest₃.eq_last h_connection.2.2 h_exchange h_login.2
      exact ⟨i₃, i₂, i₄, Or.inr ⟨rfl, h_next₂, h_next₃, h_next₄⟩⟩

/-- **What is parsed is returned exactly when the groups are undisturbed**, on every command line
that begins with the group of the connection. -/
theorem returns_iff_undisturbed (h_argc : 24 ≤ argv.length) (h_parsed : Parsed value info)
    (h_first : NextOption argv 1 i .connection) (h_carries : Carries argv value .connection i) :
    (∃ n, processArgv true argv n = some (.returns info)) ↔ Undisturbed argv value := by
  simp only [processArgv]
  rw [processArgvOn_iff h_argc, start, ends_iff_route]
  constructor
  · rintro ⟨groups, h_route, h_all⟩
    -- all groups are read
    have h_mem : ∀ m : Member, m.group ∈ groups.map Prod.fst := by
      intro m
      by_contra h_notMem
      -- the member would not be written
      obtain ⟨-, a, h_a, -⟩ := h_parsed m
      cases h_a.symm.trans (h_all.frame h_notMem)
    have h_holds := (readsAll_iff h_route.nodup h_mem).mp h_all
    obtain ⟨iE, iL, iX, ⟨rfl, h_next⟩ | ⟨rfl, h_next⟩⟩ := h_route.cases_of_connection h_first h_mem
    · refine ⟨iE, iL, iX, Or.inl h_next, ?_, ?_, ?_⟩
      all_goals exact (carries_iff h_parsed).mpr (h_holds (_, _) (by simp))
    · refine ⟨iE, iL, iX, Or.inr h_next, ?_, ?_, ?_⟩
      all_goals exact (carries_iff h_parsed).mpr (h_holds (_, _) (by simp))
  · rintro ⟨iE, iL, iX, h_next, h_exchange, h_login, h_except⟩
    rw [carries_iff h_parsed] at h_carries h_exchange h_login h_except
    rcases h_next with ⟨h_next₁, h_next₂, h_next₃⟩ | ⟨h_next₁, h_next₂, h_next₃⟩
    · refine ⟨[(.connection, i), (.exchange_bind_queue, iE), (.login_system, iL),
        (.except_message, iX)], ?_, ?_⟩
      · exact .jump h_first rfl (.jump h_next₁ rfl (.jump h_next₂ rfl (.last h_next₃)))
      · refine (readsAll_iff (by simp) fun m => by cases m <;> simp [Member.group]).mpr ?_
        simp only [List.forall_mem_cons]
        exact ⟨h_carries, h_exchange, h_login, h_except, by simp⟩
    · refine ⟨[(.connection, i), (.login_system, iL), (.exchange_bind_queue, iE),
        (.except_message, iX)], ?_, ?_⟩
      · exact .jump h_first rfl (.jump h_next₁ rfl (.jump h_next₂ rfl (.last h_next₃)))
      · refine (readsAll_iff (by simp) fun m => by cases m <;> simp [Member.group]).mpr ?_
        simp only [List.forall_mem_cons]
        exact ⟨h_carries, h_login, h_exchange, h_except, by simp⟩

/-! ### Where the groups are -/

/-- The entry of the name of an option, behind the tokens before it. -/
def nameAt (tokens : OptionObligatoireHaHa → List CStr) : OptionObligatoireHaHa → ℕ
  | .invalid => 0
  | .connection => 1 + (tokens .connection).length
  | .exchange_bind_queue =>
    4 + (tokens .connection).length + (tokens .exchange_bind_queue).length
  | .login_system =>
    8 + (tokens .connection).length + (tokens .exchange_bind_queue).length +
      (tokens .login_system).length
  | .except_message =>
    15 + (tokens .connection).length + (tokens .exchange_bind_queue).length +
      (tokens .login_system).length + (tokens .except_message).length

theorem getElem?_middle {α : Type} (pre mid post : List α) {k : ℕ} (h : k < mid.length) :
    (pre ++ mid ++ post)[pre.length + k]? = mid[k]? := by
  rw [List.append_assoc, List.getElem?_append_right (Nat.le_add_right _ k),
    Nat.add_sub_cancel_left, List.getElem?_append_left h]

/-- The entries of a part without option names are passed over. -/
theorem optionAt_of_middle {pre mid post : List CStr}
    (h_mid : ∀ s ∈ mid, getOptionObligatoireHaHaByOpt s = .invalid) (h_le : pre.length ≤ j)
    (h_lt : j < pre.length + mid.length) : optionAt (pre ++ mid ++ post) j = some .invalid := by
  obtain ⟨k, rfl⟩ := Nat.exists_eq_add_of_le h_le
  have h_k := Nat.lt_of_add_lt_add_left h_lt
  rw [optionAt, getElem?_middle pre mid post h_k, List.getElem?_eq_getElem h_k, Option.map_some,
    h_mid _ (List.getElem_mem h_k)]

variable (prog tokens value rest) in
/-- The group of an option as a part of the command line. -/
theorem commandLine_group (h_opt : opt ≠ .invalid) : ∃ pre post,
    commandLine prog tokens value rest = pre ++ (opt.name :: opt.members.map value) ++ post ∧
      pre.length = nameAt tokens opt := by
  -- in front of the group are the groups of the options before it, and its tokens
  have h_split : ∀ before after, options = before ++ opt :: after →
      commandLine prog tokens value rest =
        (prog :: before.flatMap (segment tokens value) ++ tokens opt) ++
          (opt.name :: opt.members.map value) ++
          (after.flatMap (segment tokens value) ++ rest) := by
    intro before after h
    simp [commandLine, h, segment]
  cases opt with
  | invalid => exact absurd rfl h_opt
  | connection =>
    refine ⟨_, _, h_split [] [.exchange_bind_queue, .login_system, .except_message] rfl, ?_⟩
    simp [nameAt]
    omega
  | exchange_bind_queue =>
    refine ⟨_, _, h_split [.connection] [.login_system, .except_message] rfl, ?_⟩
    simp [nameAt, segment, OptionObligatoireHaHa.members]
    omega
  | login_system =>
    refine ⟨_, _, h_split [.connection, .exchange_bind_queue] [.except_message] rfl, ?_⟩
    simp [nameAt, segment, OptionObligatoireHaHa.members]
    omega
  | except_message =>
    refine ⟨_, _, h_split [.connection, .exchange_bind_queue, .login_system] [] rfl, ?_⟩
    simp [nameAt, segment, OptionObligatoireHaHa.members]
    omega

variable (prog tokens value rest) in
theorem commandLine_name (h_opt : opt ≠ .invalid) :
    optionAt (commandLine prog tokens value rest) (nameAt tokens opt) = some opt := by
  obtain ⟨pre, post, h_line, h_length⟩ := commandLine_group prog tokens value rest h_opt
  have h_entry := getElem?_middle pre (opt.name :: opt.members.map value) post (Nat.succ_pos _)
  rw [Nat.add_zero, ← h_line, h_length] at h_entry
  exact optionAt_of_name h_opt h_entry

theorem commandLine_value (m : Member) :
    (commandLine prog tokens value rest)[nameAt tokens m.group + m.offset]? = some (value m) := by
  have h_opt : m.group ≠ .invalid := by cases m <;> decide
  obtain ⟨pre, post, h_line, h_length⟩ := commandLine_group prog tokens value rest h_opt
  -- the offsets are the places in the group
  have h_offset : (m.group.name :: m.group.members.map value)[m.offset]? = some (value m) := by
    cases m <;> rfl
  have h_lt := (List.getElem?_eq_some_iff.mp h_offset).1
  rw [h_line, ← h_length, getElem?_middle pre _ post h_lt, h_offset]

/-- The tokens before the first group are passed over. -/
theorem commandLine_first
    (h_tokens : ∀ opt, ∀ s ∈ tokens opt, getOptionObligatoireHaHaByOpt s = .invalid) :
    NextOption (commandLine prog tokens value rest) 1 (nameAt tokens .connection) .connection := by
  refine ⟨Nat.le_add_right 1 _, ?_, commandLine_name _ _ _ _ (by decide), by decide⟩
  intro j h_lt h_le
  have h_line : commandLine prog tokens value rest = [prog] ++ tokens .connection ++
      (OptionObligatoireHaHa.connection.name ::
        OptionObligatoireHaHa.connection.members.map value ++
        ([.exchange_bind_queue, .login_system, .except_message].flatMap (segment tokens value) ++
          rest)) := by
    simp [commandLine, options, segment]
  rw [h_line]
  exact optionAt_of_middle (h_tokens .connection) h_le h_lt

theorem commandLine_carries (h : Parsed value info) :
    Carries (commandLine prog tokens value rest) value opt (nameAt tokens opt) := by
  intro m h_m
  obtain rfl : m.group = opt := mem_members.mp h_m
  exact ⟨value m, commandLine_value m, (h m).1, rfl⟩

/-! ### Values that are no option names -/

section Plain

variable (h_tokens : ∀ opt, ∀ s ∈ tokens opt, getOptionObligatoireHaHaByOpt s = .invalid)
  (h_values : ∀ m, getOptionObligatoireHaHaByOpt (value m) = .invalid)

include h_tokens h_values

/-- Between the names of two groups stand the values of the first and the tokens of the second. -/
theorem commandLine_gap (before after : List OptionObligatoireHaHa)
    {prev next : OptionObligatoireHaHa} (h : options = before ++ prev :: next :: after)
    (h_prev : (prog :: before.flatMap (segment tokens value) ++ tokens prev).length =
      nameAt tokens prev)
    (h_next : nameAt tokens next =
      nameAt tokens prev + 1 + prev.members.length + (tokens next).length)
    (h_lt : nameAt tokens prev < j) (h_lt' : j < nameAt tokens next) :
    optionAt (commandLine prog tokens value rest) j = some .invalid := by
  -- between the two names are the values of the first group and the tokens of the second
  have h_line : commandLine prog tokens value rest =
      (prog :: before.flatMap (segment tokens value) ++ tokens prev ++ [prev.name]) ++
        (prev.members.map value ++ tokens next) ++
        (next.name :: next.members.map value ++ after.flatMap (segment tokens value) ++ rest) := by
    simp [commandLine, h, segment]
  have h_length : (prog :: before.flatMap (segment tokens value) ++ tokens prev ++
      [prev.name]).length = nameAt tokens prev + 1 := by
    rw [List.length_append, h_prev]
    rfl
  rw [h_line]
  apply optionAt_of_middle
  · intro s h_s
    rcases List.mem_append.mp h_s with h_s | h_s
    · obtain ⟨m, -, rfl⟩ := List.mem_map.mp h_s
      exact h_values m
    · exact h_tokens next s h_s
  · rw [h_length]
    exact h_lt
  · rw [h_length, List.length_append, List.length_map]
    omega

/-- Up to the last group, the only option names are those of the four groups. -/
theorem commandLine_options (h_pos : 1 ≤ j) (h_le : j ≤ nameAt tokens .except_message)
    (h_here : optionAt (commandLine prog tokens value rest) j = some opt) (h_opt : opt ≠ .invalid) :
    j = nameAt tokens opt := by
  have h_not : optionAt (commandLine prog tokens value rest) j ≠ some .invalid := by
    rw [h_here]
    exact fun h => h_opt (Option.some.inj h)
  have h_name : ∀ opt' : OptionObligatoireHaHa, opt' ≠ .invalid → j = nameAt tokens opt' →
      j = nameAt tokens opt := by
    rintro opt' h_opt' rfl
    rw [commandLine_name _ _ _ _ h_opt'] at h_here
    rw [Option.some.inj h_here]
  -- from name to name: the entry is one of the four names, or lies in a gap
  rcases lt_trichotomy j (nameAt tokens .connection) with h_lt | h_eq | h_gt
  · exact absurd ((commandLine_first h_tokens).between j h_lt h_pos) h_not
  · exact h_name .connection (by decide) h_eq
  rcases lt_trichotomy j (nameAt tokens .exchange_bind_queue) with h_lt | h_eq | h_gt
  · refine absurd (commandLine_gap h_tokens h_values [] [.login_system, .except_message]
      rfl ?_ ?_ h_gt h_lt) h_not
    · simp [nameAt]
      omega
    · simp [nameAt, OptionObligatoireHaHa.members]
      omega
  · exact h_name .exchange_bind_queue (by decide) h_eq
  rcases lt_trichotomy j (nameAt tokens .login_system) with h_lt | h_eq | h_gt
  · refine absurd (commandLine_gap h_tokens h_values [.connection] [.except_message]
      rfl ?_ ?_ h_gt h_lt) h_not
    · simp [nameAt, segment, OptionObligatoireHaHa.members]
      omega
    · simp [nameAt, OptionObligatoireHaHa.members]
      omega
  · exact h_name .login_system (by decide) h_eq
  rcases Nat.lt_or_eq_of_le h_le with h_lt | h_eq
  · refine absurd (commandLine_gap h_tokens h_values [.connection, .exchange_bind_queue] []
      rfl ?_ ?_ h_gt h_lt) h_not
    · simp [nameAt, segment, OptionObligatoireHaHa.members]
      omega
    · simp [nameAt, OptionObligatoireHaHa.members]
      omega
  · exact h_name .except_message (by decide) h_eq

/-- The next option is that of the first group whose name is not behind the cursor. -/
theorem nextOption_commandLine_iff (h_pos : 1 ≤ t) (h_le : t ≤ nameAt tokens .except_message) :
    NextOption (commandLine prog tokens value rest) t i opt ↔
      opt ≠ .invalid ∧ i = nameAt tokens opt ∧ t ≤ nameAt tokens opt ∧
        ∀ opt', opt' ≠ .invalid → t ≤ nameAt tokens opt' →
          nameAt tokens opt ≤ nameAt tokens opt' := by
  constructor
  · intro h
    -- the name of a group that is not behind the cursor is not passed over
    have h_min : ∀ opt', opt' ≠ .invalid → t ≤ nameAt tokens opt' → i ≤ nameAt tokens opt' := by
      intro opt' h_opt' h_t
      by_contra h_gt
      have h_between := h.between _ (Nat.lt_of_not_le h_gt) h_t
      rw [commandLine_name _ _ _ _ h_opt'] at h_between
      exact h_opt' (Option.some.inj h_between)
    have h_i : i = nameAt tokens opt :=
      commandLine_options h_tokens h_values (Nat.le_trans h_pos h.le)
        (h_min .except_message (by decide) h_le) h.here h.ne_invalid
    rw [h_i] at h_min
    exact ⟨h.ne_invalid, h_i, h_i ▸ h.le, h_min⟩
  · rintro ⟨h_opt, rfl, h_t, h_min⟩
    have h_last := h_min .except_message (by decide) h_le
    refine ⟨h_t, ?_, commandLine_name _ _ _ _ h_opt, h_opt⟩
    intro j h_lt h_j
    cases h_here : optionAt (commandLine prog tokens value rest) j with
    | none =>
      -- the entry of the name is an entry, so those before it are
      obtain ⟨s, h_entry, -⟩ := Option.map_eq_some_iff.mp
        (commandLine_name prog tokens value rest h_opt)
      have h_length := (List.getElem?_eq_some_iff.mp h_entry).1
      rw [optionAt, Option.map_eq_none_iff, List.getElem?_eq_none_iff] at h_here
      omega
    | some opt' =>
      by_cases h_opt' : opt' = .invalid
      · rw [h_opt']
      · have h_eq := commandLine_options h_tokens h_values (Nat.le_trans h_pos h_j)
          (Nat.le_trans (Nat.le_of_lt h_lt) h_last) h_here h_opt'
        have h_le' := h_min opt' h_opt' (h_eq ▸ h_j)
        omega

/-- How many tokens the four groups stand. -/
theorem undisturbed_commandLine_iff (h_parsed : Parsed value info) :
    Undisturbed (commandLine prog tokens value rest) value ↔
      (tokens .connection).length ≤ 2 ∧
        (tokens .connection).length + (tokens .exchange_bind_queue).length ≤ 3 ∧
        (tokens .connection).length + (tokens .exchange_bind_queue).length +
          (tokens .login_system).length ≤ 6 := by
  have h_next : ∀ {t i opt}, 1 ≤ t → t ≤ 15 →
      (NextOption (commandLine prog tokens value rest) t i opt ↔
        opt ≠ .invalid ∧ i = nameAt tokens opt ∧ t ≤ nameAt tokens opt ∧
          ∀ opt', opt' ≠ .invalid → t ≤ nameAt tokens opt' →
            nameAt tokens opt ≤ nameAt tokens opt') := by
    intro t i opt h_pos h_le
    apply nextOption_commandLine_iff h_tokens h_values h_pos
    simp only [nameAt]
    omega
  constructor
  · rintro ⟨iE, iL, iX, ⟨h₁, h₂, h₃⟩ | ⟨h₁, -, -⟩, -⟩
    · obtain ⟨-, -, -, h_min₁⟩ := (h_next (by decide) (by decide)).mp h₁
      obtain ⟨-, -, -, h_min₂⟩ := (h_next (by decide) (by decide)).mp h₂
      obtain ⟨-, -, -, h_min₃⟩ := (h_next (by decide) (by decide)).mp h₃
      -- the group that was read last is behind the cursor
      have h_connection := h_min₁ .connection (by decide)
      have h_exchange := h_min₂ .exchange_bind_queue (by decide)
      have h_login := h_min₃ .login_system (by decide)
      simp only [nameAt] at h_connection h_exchange h_login
      omega
    · -- the exchange is not behind the cursor, and before the login
      obtain ⟨-, -, -, h_min₁⟩ := (h_next (by decide) (by decide)).mp h₁
      have h_exchange := h_min₁ .exchange_bind_queue (by decide)
      simp only [nameAt] at h_exchange
      omega
  · rintro ⟨h_connection, h_exchange, h_login⟩
    have h_here : ∀ t opt, 1 ≤ t → t ≤ 15 → opt ≠ .invalid → t ≤ nameAt tokens opt →
        (∀ opt', opt' ≠ .invalid → t ≤ nameAt tokens opt' →
          nameAt tokens opt ≤ nameAt tokens opt') →
        NextOption (commandLine prog tokens value rest) t (nameAt tokens opt) opt :=
      fun t opt h_pos h_le h_opt h_t h_min => (h_next h_pos h_le).mpr ⟨h_opt, rfl, h_t, h_min⟩
    refine ⟨nameAt tokens .exchange_bind_queue, nameAt tokens .login_system,
      nameAt tokens .except_message, Or.inl ⟨?_, ?_, ?_⟩, commandLine_carries h_parsed,
      commandLine_carries h_parsed, commandLine_carries h_parsed⟩
    all_goals
      apply h_here _ _ (by decide) (by decide) (by decide)
      · simp only [nameAt]
        omega
      · intro opt' _
        cases opt' <;> simp only [nameAt] <;> omega

end Plain

/-- The same value for every member. -/
def plain : Member → CStr := fun _ => literal "prefix-1"

/-- What is read of it. -/
def plainInfo : Informations := fun m =>
  some ⟨(literal "prefix-1").drop m.group.padding, by cases m <;> decide⟩

theorem plain_accepted : ∃ n,
    processArgv true (commandLine (literal "main") noTokens plain []) n =
      some (.returns plainInfo) := by
  refine returns_commandLine_iff.mpr fun m => ⟨?_, _, rfl, rfl⟩
  cases m <;> decide

/-- `n` tokens before the first group. -/
def firstTokens (n : ℕ) : OptionObligatoireHaHa → List CStr
  | .connection => List.replicate n (literal "--debug")
  | _ => []

theorem firstTokens_invalid (n : ℕ) :
    ∀ opt, ∀ s ∈ firstTokens n opt, getOptionObligatoireHaHaByOpt s = .invalid := by
  intro opt s h_s
  cases opt with
  | connection =>
    rw [List.eq_of_mem_replicate h_s]
    decide
  | _ => cases h_s

end ProcessArgv
end WateRMQ
