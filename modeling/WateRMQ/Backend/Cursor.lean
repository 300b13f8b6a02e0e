import WateRMQ.Backend.Arguments

/-!
# Where the cursor of `processArgv` goes

Between the options the cursor is moved by the default case, and after an option it is set to `4`,
`8` or `15`, whatever it was. So from option to option the loop moves along a graph on the entries
`1`, `4`, `8` and `15` that the argument vector decides (`Leads`): it can come back to a group that
it has read, and then it never ends.

* `terminates_iff`: `processArgv` returns exactly when a path of at most three jumps leads from
  entry `1` to where `--except_message` is the next option, through groups whose values can be
  copied;
* `readsInside_iff`: it reads nothing outside the arguments exactly when, wherever such a path
  leads, there is a next option and its values can be read.

A value can be copied when the block of `Informations` holds it, from its member on: that it is
longer than its member does not stop the loop.
-/

namespace WateRMQ
namespace ProcessArgv

open CMem While Relation

variable {σ : Type} [Memory σ] {argv : List CStr} {t t' : ℕ} {info info' : σ} {u v : State σ}

variable (σ) in
/-- From the entry `t` on, the group of the next option is read and the cursor is set to `t'`. -/
def Leads (argv : List CStr) (t t' : ℕ) : Prop :=
  ∃ i opt, NextOption argv t i opt ∧ opt.Accepts σ argv i ∧ opt.jump = some t'

variable (σ) in
/-- From the entry `t` on, the last group is read. -/
def Leaves (argv : List CStr) (t : ℕ) : Prop :=
  ∃ i, NextOption argv t i .except_message ∧ OptionObligatoireHaHa.except_message.Accepts σ argv i

variable (σ) in
/-- From the entry `t` on there is an option, and its group is read inside the arguments. -/
def SafeFrom (argv : List CStr) (t : ℕ) : Prop :=
  ∃ i opt, NextOption argv t i opt ∧ opt.Safe σ argv i

variable (σ) in
/-- The jumps to the entries `ts`, one after the other, the first one from the entry `1`. -/
def Path (argv : List CStr) (ts : List ℕ) : Prop :=
  List.IsChain (Leads σ argv) (1 :: ts)

/-- Where a path ends. -/
def stop (ts : List ℕ) : ℕ :=
  (1 :: ts).getLast (List.cons_ne_nil 1 ts)

/-- Three entries can be jumped to. -/
theorem mem_of_leads (t t' : ℕ) (h : Leads σ argv t t') : t' ∈ ({4, 8, 15} : Finset ℕ) := by
  obtain ⟨-, opt, -, -, h_jump⟩ := h
  cases opt <;> simp [OptionObligatoireHaHa.jump] at h_jump <;> simp [← h_jump]

/-- There is one way on. -/
theorem leads_unique (t a b : ℕ) (h : Leads σ argv t a) (h' : Leads σ argv t b) : a = b := by
  obtain ⟨i, opt, h_next, -, h_jump⟩ := h
  obtain ⟨i', opt', h_next', -, h_jump'⟩ := h'
  obtain ⟨rfl, rfl⟩ := h_next.unique h_next'
  exact Option.some.inj (h_jump.symm.trans h_jump')

/-! ### The loop along the graph -/

theorem goes_stride_iff : Goes (stride argv) u v ↔
    ∃ i opt, NextOption argv u.cpt i opt ∧ opt.jump = some v.cpt ∧
      opt.Copies argv i u.info v.info := by
  rw [Goes]
  constructor
  · intro h
    rcases stride_cases argv u with ⟨i, opt, h_next, h_stride⟩ | ⟨-, index, h_stride⟩
    · exact ⟨i, opt, h_next, (caseOf_goOn_iff h_next.ne_invalid).mp (h_stride.symm.trans h)⟩
    · cases h_stride.symm.trans h
  · rintro ⟨i, opt, h_next, h⟩
    exact (stride_of_next h_next).trans ((caseOf_goOn_iff h_next.ne_invalid).mpr h)

theorem stride_returns_iff : stride argv u = .leave (.returns info) ↔
    ∃ i, NextOption argv u.cpt i .except_message ∧
      OptionObligatoireHaHa.except_message.Copies argv i u.info info := by
  constructor
  · intro h
    rcases stride_cases argv u with ⟨i, opt, h_next, h_stride⟩ | ⟨-, index, h_stride⟩
    · obtain ⟨rfl, h_group⟩ := (caseOf_returns_iff h_next.ne_invalid).mp (h_stride.symm.trans h)
      exact ⟨i, h_next, h_group⟩
    · cases h_stride.symm.trans h
  · rintro ⟨i, h_next, h⟩
    exact (stride_of_next h_next).trans ((caseOf_returns_iff h_next.ne_invalid).mpr ⟨rfl, h⟩)

/-- A round reads outside the arguments exactly when it is not safe. -/
theorem stride_isRead_iff (argv : List CStr) (u : State σ) :
    (∃ fault, stride argv u = .leave (.faults fault) ∧ fault.IsRead) ↔ ¬ SafeFrom σ argv u.cpt := by
  rcases stride_cases argv u with ⟨i, opt, h_next, h_stride⟩ | ⟨h_none, index, h_stride⟩
  · -- there is a next option, so its group decides
    rw [h_stride, caseOf_isRead_iff h_next.ne_invalid]
    constructor
    · rintro h_not ⟨i', opt', h_next', h_safe⟩
      obtain ⟨rfl, rfl⟩ := h_next.unique h_next'
      exact h_not h_safe
    · exact fun h_not h_safe => h_not ⟨i, opt, h_next, h_safe⟩
  -- without a next option the cursor comes to the null pointer
  · constructor
    · rintro - ⟨i, opt, h_next, -⟩
      exact h_none i opt h_next
    · exact fun _ => ⟨.entry index, h_stride, trivial⟩

theorem stride_ne_exits (argv : List CStr) (u : State σ) : stride argv u ≠ .leave .exits := by
  intro h
  rcases stride_cases argv u with ⟨i, opt, h_next, h_stride⟩ | ⟨-, index, h_stride⟩
  · exact caseOf_ne_exits h_next.ne_invalid i u.info (h_stride.symm.trans h)
  · cases h_stride.symm.trans h

/-- What was read before does not matter for where the cursor goes. -/
theorem leads_of_reaches (h : ReflTransGen (Goes (stride argv)) u v) :
    ReflTransGen (Leads σ argv) u.cpt v.cpt := by
  induction h with
  | refl => exact .refl
  | tail _ h_goes ih =>
    obtain ⟨i, opt, h_next, h_jump, h_group⟩ := goes_stride_iff.mp h_goes
    exact ih.tail ⟨i, opt, h_next, h_group.accepts, h_jump⟩

theorem reaches_of_leads (h : ReflTransGen (Leads σ argv) t t') (info : σ) :
    ∃ info', ReflTransGen (Goes (stride argv)) ⟨t, info⟩ ⟨t', info'⟩ := by
  induction h with
  | refl => exact ⟨info, .refl⟩
  | tail _ h_leads ih =>
    obtain ⟨info₁, h_reach⟩ := ih
    obtain ⟨i, opt, h_next, h_accepts, h_jump⟩ := h_leads
    obtain ⟨info₂, h_group⟩ := h_accepts.exists_copies info₁
    exact ⟨info₂, h_reach.tail (goes_stride_iff.mpr ⟨i, opt, h_next, h_jump, h_group⟩)⟩

/-- Where the loop comes to is where a path of at most three jumps leads. -/
theorem exists_path_of_reaches (h : ReflTransGen (Goes (stride argv)) (start info) u) :
    ∃ ts, ts.length ≤ 3 ∧ Path σ argv ts ∧ stop ts = u.cpt :=
  exists_short_path mem_of_leads (leads_of_reaches h)

theorem exists_reaches_of_path {ts : List ℕ} (h : Path σ argv ts) (info : σ) :
    ∃ info', ReflTransGen (Goes (stride argv)) (start info) ⟨stop ts, info'⟩ :=
  reaches_of_leads (reaches_of_isChain h) info

/-- The outcomes of `processArgv` are those of the loop from option to option. -/
theorem processArgvOn_iff (h_argc : 24 ≤ argv.length) (info : σ) (r : Outcome σ) :
    (∃ n, processArgvOn info true argv n = some r) ↔ Ends (stride argv) (start info) r := by
  rw [← (coarsens_stride argv).ends_iff]
  simp only [processArgvOn_eq h_argc]
  rfl

/-- `processArgv` returns exactly when a path of at most three jumps leads to the last group. -/
theorem exists_returns_iff (h_argc : 24 ≤ argv.length) (info : σ) :
    (∃ n info', processArgvOn info true argv n = some (.returns info')) ↔
      ∃ ts, ts.length ≤ 3 ∧ Path σ argv ts ∧ Leaves σ argv (stop ts) := by
  constructor
  · rintro ⟨n, info', h_result⟩
    -- the loop is left somewhere, and a short path leads there too
    obtain ⟨u, h_reach, h_leave⟩ := ends_iff.mp ((processArgvOn_iff h_argc info _).mp ⟨n, h_result⟩)
    obtain ⟨ts, h_short, h_path, h_stop⟩ := exists_path_of_reaches h_reach
    obtain ⟨i, h_next, h_group⟩ := stride_returns_iff.mp h_leave
    refine ⟨ts, h_short, h_path, ?_⟩
    rw [h_stop]
    exact ⟨i, h_next, h_group.accepts⟩
  · rintro ⟨ts, -, h_path, i, h_next, h_accepts⟩
    obtain ⟨info₁, h_reach⟩ := exists_reaches_of_path h_path info
    obtain ⟨info', h_group⟩ := h_accepts.exists_copies info₁
    have h_leave : stride argv ⟨stop ts, info₁⟩ = .leave (.returns info') :=
      stride_returns_iff.mpr ⟨i, h_next, h_group⟩
    obtain ⟨n, hn⟩ := (processArgvOn_iff h_argc info _).mpr (ends_iff.mpr ⟨_, h_reach, h_leave⟩)
    exact ⟨n, info', hn⟩

/-- Behind the check of `argc` it does not exit. -/
theorem processArgvOn_exits (h_argc : 24 ≤ argv.length) {mallocOk : Bool} {n : ℕ}
    (h : processArgvOn info mallocOk argv n = some .exits) : mallocOk = false := by
  cases mallocOk with
  | false => rfl
  | true =>
    obtain ⟨u, -, h_leave⟩ := ends_iff.mp ((processArgvOn_iff h_argc info _).mp ⟨n, h⟩)
    exact absurd h_leave (stride_ne_exits argv u)

/-! ### Termination -/

/-- `processArgv` ends by a return or by an error exit, whatever `malloc` finds. -/
def Terminates (argv : List CStr) : Prop :=
  ∀ mallocOk bytes, ∃ n r, Block.processArgv mallocOk argv bytes n = some r ∧
    ∀ fault, r ≠ .faults fault

/-- **When `processArgv` ends.** A path of at most three jumps has to lead to the last group. -/
theorem terminates_iff (h_argc : 24 ≤ argv.length) :
    Terminates argv ↔ ∃ ts, ts.length ≤ 3 ∧ Path Block argv ts ∧ Leaves Block argv (stop ts) := by
  rw [← exists_returns_iff h_argc (⟨fun _ => 0, []⟩ : Block)]
  constructor
  · intro h
    obtain ⟨n, r, h_result, h_noFault⟩ := h true fun _ => 0
    -- behind the `argc` check no case exits, and a fault is no end
    cases r with
    | exits => cases processArgvOn_exits h_argc h_result
    | faults fault => exact absurd rfl (h_noFault fault)
    | returns info => exact ⟨n, info, h_result⟩
  · intro h mallocOk bytes
    cases mallocOk with
    | false => exact ⟨0, .exits, rfl, nofun⟩
    | true =>
      -- what is in the memory does not matter for where the loop goes
      obtain ⟨n, info, h_result⟩ := (exists_returns_iff h_argc (⟨bytes, []⟩ : Block)).mpr
        ((exists_returns_iff h_argc _).mp h)
      exact ⟨n, .returns info, h_result, nofun⟩

/-- A command line with the four groups, one after the other. -/
def complete : List CStr :=
  [literal "main",
    literal "--connection", literal "chp:: localhost", literal "chp:: 5672",
    literal "--exchange_bind_queue", literal "ebq:: exchange", literal "ebq:: key",
    literal "ebq:: queue",
    literal "--login_system", literal "ls:: /", literal "ls:: 0", literal "ls:: 131072",
    literal "ls:: 0", literal "ls:: guest", literal "ls:: guest",
    literal "--except_message", literal "em:: login", literal "em:: channel", literal "em:: queue",
    literal "em:: binding", literal "em:: consuming", literal "em:: closing channel",
    literal "em:: closing connection", literal "em:: ending connection"]

theorem complete_leads_connection : Leads Block complete 1 4 :=
  ⟨1, .connection, by decide, by decide, rfl⟩

theorem complete_leads_exchange : Leads Block complete 4 8 :=
  ⟨4, .exchange_bind_queue, by decide, by decide, rfl⟩

theorem complete_leads_login : Leads Block complete 8 15 :=
  ⟨8, .login_system, by decide, by decide, rfl⟩

theorem complete_path : Path Block complete [4, 8, 15] := by
  rw [Path]
  simp only [List.isChain_cons_cons, List.isChain_singleton, and_true]
  exact ⟨complete_leads_connection, complete_leads_exchange, complete_leads_login⟩

theorem complete_terminates : Terminates complete :=
  (terminates_iff (by decide)).mpr ⟨[4, 8, 15], le_rfl, complete_path, 15, by decide, by decide⟩

/-- The connection is given twice, and the entry `4` is its name. -/
def repeated : List CStr :=
  [literal "main",
    literal "--connection", literal "chp:: localhost", literal "chp:: 5672",
    literal "--connection", literal "chp:: 127.0.0.1", literal "chp:: 5673"] ++
  List.replicate 17 (literal "unused")

/-- **When `processArgv` never ends.** A path of four jumps comes back to a group, because there are
only three entries to jump to. -/
theorem forever_iff (h_argc : 24 ≤ argv.length) (info : σ) :
    (∀ n, processArgvOn info true argv n = none) ↔ ∃ ts, ts.length = 4 ∧ Path σ argv ts := by
  have h_forever : (∀ n, processArgvOn info true argv n = none) ↔
      Forever (stride argv) (start info) := by
    rw [← (coarsens_stride argv).forever_iff]
    simp only [processArgvOn_eq h_argc]
    rfl
  rw [h_forever]
  constructor
  · intro h
    obtain ⟨us, h_length, h_chain⟩ := h.exists_isChain 4
    -- the cursors of the first five states
    refine ⟨us.map State.cpt, by rw [List.length_map, h_length], ?_⟩
    refine (List.isChain_map State.cpt (l := start info :: us)).mpr (h_chain.imp ?_)
    intro u v h_goes
    obtain ⟨i, opt, h_next, h_jump, h_group⟩ := goes_stride_iff.mp h_goes
    exact ⟨i, opt, h_next, h_group.accepts, h_jump⟩
  · rintro ⟨ts, h_length, h_path⟩
    refine While.forever_iff.mpr fun r h_ends => ?_
    -- a loop that ends does so at a dead end, after at most three jumps
    obtain ⟨u, h_reach, h_leave⟩ := ends_iff.mp h_ends
    obtain ⟨ts', h_short, h_path', h_stop⟩ := exists_path_of_reaches h_reach
    have h_end : ∀ t, ¬ Leads σ argv (stop ts') t := by
      rintro t ⟨i, opt, h_next, h_accepts, h_jump⟩
      obtain ⟨info, h_group⟩ := h_accepts.exists_copies u.info
      have h_goes : Goes (stride argv) u ⟨t, info⟩ :=
        goes_stride_iff.mpr ⟨i, opt, h_stop ▸ h_next, h_jump, h_group⟩
      cases h_leave.symm.trans h_goes
    have h_le := length_le_of_isChain leads_unique h_path h_path' h_end
    omega

/-- **A command line on which the loop never ends**: the cursor stays at the second
`--connection`. -/
theorem repeated_forever : 24 ≤ repeated.length ∧
    (∀ bytes n, Block.processArgv true repeated bytes n = none) ∧ ¬ Terminates repeated := by
  have h_first : Leads Block repeated 1 4 := ⟨1, .connection, by decide, by decide, rfl⟩
  have h_again : Leads Block repeated 4 4 := ⟨4, .connection, by decide, by decide, rfl⟩
  -- from then on each jump is the same
  have h_forever : ∀ bytes n, Block.processArgv true repeated bytes n = none := by
    refine fun bytes => (forever_iff (by decide) (⟨bytes, []⟩ : Block)).mpr ⟨[4, 4, 4, 4], rfl, ?_⟩
    rw [Path]
    simp only [List.isChain_cons_cons, List.isChain_singleton, and_true]
    exact ⟨h_first, h_again, h_again, h_again⟩
  refine ⟨by decide, h_forever, ?_⟩
  intro h
  obtain ⟨n, r, h_result, -⟩ := h true fun _ => 0
  cases (h_forever _ n).symm.trans h_result

/-! ### Reads -/

/-- `processArgv` reads nothing outside its arguments: it hands no entry from `argc` on to `strcmp`
or `strcpy`, begins no scan behind `argc`, and skips no more characters than a string has. -/
def ReadsInside (argv : List CStr) : Prop :=
  ∀ mallocOk bytes n fault, Block.processArgv mallocOk argv bytes n = some (.faults fault) →
    ¬ fault.IsRead

/-- **When `processArgv` reads inside its arguments.** Wherever a path of at most three jumps leads,
there has to be a next option, with values that can be read. -/
theorem readsInside_iff (h_argc : 24 ≤ argv.length) :
    ReadsInside argv ↔
      ∀ ts, ts.length ≤ 3 → Path Block argv ts → SafeFrom Block argv (stop ts) := by
  constructor
  · intro h ts _ h_path
    by_contra h_unsafe
    -- the loop comes to the end of the path, and its next round reads outside
    obtain ⟨info, h_reach⟩ := exists_reaches_of_path h_path ⟨fun _ => 0, []⟩
    obtain ⟨fault, h_leave, h_read⟩ := (stride_isRead_iff argv ⟨stop ts, info⟩).mpr h_unsafe
    obtain ⟨n, hn⟩ := (processArgvOn_iff h_argc _ _).mpr (ends_iff.mpr ⟨_, h_reach, h_leave⟩)
    exact h true (fun _ => 0) n fault hn h_read
  · intro h mallocOk bytes n fault h_result h_read
    cases mallocOk with
    | false => cases h_result
    | true =>
      obtain ⟨u, h_reach, h_leave⟩ := ends_iff.mp ((processArgvOn_iff h_argc _ _).mp ⟨n, h_result⟩)
      obtain ⟨ts, h_short, h_path, h_stop⟩ := exists_path_of_reaches h_reach
      apply (stride_isRead_iff argv u).mp ⟨fault, h_leave, h_read⟩
      rw [← h_stop]
      exact h ts h_short h_path

theorem complete_readsInside : ReadsInside complete := by
  refine (readsInside_iff (by decide)).mpr ?_
  intro ts h_short h_path
  -- a path is as long as the one to the last group, or shorter, and goes the same way
  rcases ts with _ | ⟨a, _ | ⟨b, _ | ⟨c, _ | ⟨d, ts⟩⟩⟩⟩ <;>
    simp only [Path, List.isChain_cons_cons] at h_path
  · exact ⟨1, .connection, by decide, OptionObligatoireHaHa.Accepts.safe (by decide)⟩
  · obtain rfl := leads_unique 1 4 a complete_leads_connection h_path.1
    exact ⟨4, .exchange_bind_queue, by decide, OptionObligatoireHaHa.Accepts.safe (by decide)⟩
  · obtain rfl := leads_unique 1 4 a complete_leads_connection h_path.1
    obtain rfl := leads_unique 4 8 b complete_leads_exchange h_path.2.1
    exact ⟨8, .login_system, by decide, OptionObligatoireHaHa.Accepts.safe (by decide)⟩
  · obtain rfl := leads_unique 1 4 a complete_leads_connection h_path.1
    obtain rfl := leads_unique 4 8 b complete_leads_exchange h_path.2.1
    obtain rfl := leads_unique 8 15 c complete_leads_login h_path.2.2.1
    exact ⟨15, .except_message, by decide, OptionObligatoireHaHa.Accepts.safe (by decide)⟩
  · simp only [List.length_cons] at h_short
    omega

/-- **A command line without options**: the cursor runs into the null pointer, which is handed to
`strcmp`. -/
theorem noOption_reads_null : 24 ≤ (List.replicate 24 (literal "unused")).length ∧
    (∀ bytes, Block.processArgv true (List.replicate 24 (literal "unused")) bytes 24 =
      some (.faults (.entry 24))) ∧
    ¬ ReadsInside (List.replicate 24 (literal "unused")) := by
  have h_fault : ∀ bytes, Block.processArgv true (List.replicate 24 (literal "unused")) bytes 24 =
      some (.faults (.entry 24)) := fun _ => rfl
  exact ⟨by decide, h_fault, fun h => h true (fun _ => 0) 24 (.entry 24) (h_fault _) trivial⟩

/-- A value that is too long for its member does not stop the loop on its way there. -/
example (bytes : Bytes) : Block.processArgv true
    ([literal "main", literal "--connection",
      literal "chp:: " ++ ⟨List.replicate 50 97, by decide⟩, literal "chp:: 5672"] ++
      List.replicate 20 (literal "unused")) bytes 22 = some (.faults (.entry 24)) := rfl

end ProcessArgv
end WateRMQ
