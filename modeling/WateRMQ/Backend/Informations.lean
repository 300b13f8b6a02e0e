import WateRMQ.Backend.CommandLine

/-!
# The members of `Informations` and their bytes

The loop of `processArgv` on the members and the loop on the block are one loop with two memories.
As long as all values fit they do the same (`Agrees`, `processArgv_cases`): the same rounds, the
same outcome, and a string in a member is the string in its array. From a value on that does not
fit only the block says what `processArgv` does: the value is copied all the same, over the members
that follow its own.

`processArgv` has no check of the lengths: on a canonical command line no value spills exactly when
all of them fit (`noSpill_iff`).
-/

namespace WateRMQ
namespace ProcessArgv

open CMem While

namespace Block

/-! ### As long as the values fit -/

variable {argv : List CStr} {padding i n : ℕ} {m : Member} {info info' : Informations}
  {block : Block} {bytes : Bytes} {s : CStr}

/-- The block holds the strings of the members, and every `strcpy` was inside its array. -/
structure Agrees (info : Informations) (block : Block) : Prop where
  strings : ∀ m a, info m = some a → readString (block.field m) = .ok a.str.chars
  inside : ∀ w ∈ block.writes, w.Inside

theorem agrees_uninitialized (bytes : Bytes) : Agrees uninitialized ⟨bytes, []⟩ where
  strings _ _ h := nomatch h
  inside _ h := nomatch h

/-- A `strcpy` that fits, on the members and on the block. -/
theorem Agrees.strcpy (h : Agrees info block) (h_fits : s.length < m.size) :
    ∃ h_room : s.length < Memory.room Block m,
      Agrees (Memory.write info m s h_fits) (Memory.write block m s h_room) := by
  have h_le : m.address + m.size ≤ sizeofInformations :=
    Struct.address_add_size_le (mem_declared m)
  have h_room : s.length < sizeofInformations - m.address := by omega
  refine ⟨h_room, ?_, ?_⟩
  · intro k b h_b
    by_cases h_k : k = m
    · -- the member itself holds the new string
      subst h_k
      obtain rfl := Option.some.inj ((Function.update_self _ _ info).symm.trans h_b)
      exact Struct.readString_field_copyTo _ h_fits
    · -- the copy fits, so the other members are as before
      have h_old : info k = some b := (Function.update_of_ne h_k _ info).symm.trans h_b
      have h_length : s.bytes.length ≤ m.size := by
        rw [CStr.length_bytes]
        exact h_fits
      -- `k` and `m` are different arrays of the block
      refine Eq.trans (congrArg readString ?_) (h.strings k b h_old)
      exact Struct.field_copyTo_of_ne (mem_declared m) (mem_declared k) h_k h_length
  · intro w h_w
    rcases List.mem_append.mp h_w with h_w | h_w
    · exact h.inside w h_w
    -- the new write begins at the array and has one byte more than the string
    · obtain rfl := List.mem_singleton.mp h_w
      refine ⟨le_rfl, ?_⟩
      change m.address + (s.length + 1) ≤ m.address + m.size
      omega

/-- What the `strcpy`s come to on the members and on the block: the same, unless a value does not
fit its member. -/
inductive Matches : Except Fault Informations → Except Fault Block → Prop
  | ok {info : Informations} {block : Block} (h : Agrees info block) :
    Matches (.ok info) (.ok block)
  | read {fault : Fault} (h : fault.IsRead) : Matches (.error fault) (.error fault)
  | overflow (m : Member) (r : Except Fault Block) : Matches (.error (.overflow m)) r

theorem Agrees.copy (h : Agrees info block) (argv : List CStr) (padding i : ℕ) (m : Member) :
    Matches (ProcessArgv.copy argv padding i info m) (ProcessArgv.copy argv padding i block m) := by
  rw [ProcessArgv.copy, ProcessArgv.copy]
  cases argv[i + m.offset]? with
  | none => exact .read trivial
  | some s =>
    dsimp only
    split
    · exact .read trivial
    · by_cases h_fits : (s.drop padding).length < Memory.room Informations m
      · obtain ⟨h_room, h_agrees⟩ := h.strcpy h_fits
        rw [ProcessArgv.strcpy, ProcessArgv.strcpy, dif_pos h_fits, dif_pos h_room]
        exact .ok h_agrees
      · rw [ProcessArgv.strcpy, dif_neg h_fits]
        exact .overflow m _

theorem Agrees.copies (h : Agrees info block) (argv : List CStr) (padding i : ℕ)
    (members : List Member) : Matches (ProcessArgv.copies argv padding i members info)
      (ProcessArgv.copies argv padding i members block) := by
  induction members generalizing info block with
  | nil => exact .ok h
  | cons m members ih =>
    rw [ProcessArgv.copies, ProcessArgv.copies, List.foldlM_cons, List.foldlM_cons]
    have h_first := h.copy argv padding i m
    generalize ProcessArgv.copy argv padding i info m = x at h_first ⊢
    generalize ProcessArgv.copy argv padding i block m = y at h_first ⊢
    -- the block follows the members, one `strcpy` after the other
    cases h_first with
    | ok h₁ => exact ih h₁
    | read h_read => exact .read h_read
    | overflow m r => exact .overflow m _

/-- The two states of the loop. -/
structure Related (u : State Informations) (v : State Block) : Prop where
  cpt : u.cpt = v.cpt
  agrees : Agrees u.info v.info

/-- The two outcomes of `processArgv`. -/
inductive Corresponds : Outcome Informations → Outcome Block → Prop
  | exits : Corresponds .exits .exits
  | returns {info : Informations} {block : Block} (h : Agrees info block) :
    Corresponds (.returns info) (.returns block)
  | read {fault : Fault} (h : fault.IsRead) : Corresponds (.faults fault) (.faults fault)

/-- The two loops take the same way out of a round, unless a value does not fit its member. -/
inductive Alike : Round (State Informations) (Outcome Informations) →
    Round (State Block) (Outcome Block) → Prop
  | goOn {u : State Informations} {v : State Block} (h : Related u v) : Alike (.goOn u) (.goOn v)
  | leave {r : Outcome Informations} {r' : Outcome Block} (h : Corresponds r r') :
    Alike (.leave r) (.leave r')
  | overflow (m : Member) (r : Round (State Block) (Outcome Block)) :
    Alike (.leave (.faults (.overflow m))) r

theorem alike_caseOf {u : State Informations} {v : State Block} (h : Related u v)
    (argv : List CStr) (opt : OptionObligatoireHaHa) :
    Alike (ProcessArgv.caseOf argv opt u) (ProcessArgv.caseOf argv opt v) := by
  rw [ProcessArgv.caseOf, ProcessArgv.caseOf, ← h.cpt]
  have h_copies := h.agrees.copies argv opt.padding u.cpt opt.members
  generalize ProcessArgv.copies argv opt.padding u.cpt opt.members u.info = x at h_copies ⊢
  generalize ProcessArgv.copies argv opt.padding u.cpt opt.members v.info = y at h_copies ⊢
  cases h_copies with
  | ok h_agrees =>
    cases opt.jump with
    | some cpt =>
      -- both loops go on at the position that the case sets
      exact .goOn ⟨rfl, h_agrees⟩
    | none =>
      -- the scan behind the last group sees the arguments only
      by_cases h_inside : u.cpt + 7 ≤ argv.length
      · rw [consumeRest, if_pos h_inside]
        exact .leave (.returns h_agrees)
      · rw [consumeRest, if_neg h_inside]
        exact .leave (.read trivial)
  | read h_read => exact .leave (.read h_read)
  | overflow m r => exact .overflow m _

/-- **The arguments decide what a round does**, but for the `strcpy`s. -/
theorem alike_round {u : State Informations} {v : State Block} (h : Related u v)
    (argv : List CStr) : Alike (ProcessArgv.round argv u) (ProcessArgv.round argv v) := by
  rw [ProcessArgv.round, ProcessArgv.round, ← h.cpt]
  cases argv[u.cpt]? with
  | none => exact .leave (.read trivial)
  | some s =>
    cases h_opt : getOptionObligatoireHaHaByOpt s with
    | invalid =>
      -- an entry that is no option name is stepped over
      simp only [h_opt]
      exact .goOn ⟨rfl, h.agrees⟩
    | _ =>
      simp only [h_opt]
      exact alike_caseOf h argv _

/-- All values that the loop on the members has copied did fit. -/
def Fits (r : Outcome Informations) : Prop := ∀ m, r ≠ .faults (.overflow m)

theorem simulates_round (argv : List CStr) :
    Simulates (ProcessArgv.round argv) (ProcessArgv.round argv) Related Fits Corresponds where
  goOn := by
    intro u u' v h h_goOn
    have h_alike := alike_round h argv
    -- the block's loop goes on where the other one does
    rw [h_goOn] at h_alike
    generalize ProcessArgv.round argv v = r at h_alike ⊢
    cases h_alike with
    | goOn h' => exact ⟨_, rfl, h'⟩
  leave := by
    intro u r v h h_leave h_fits
    have h_alike := alike_round h argv
    -- and leaves where it leaves
    rw [h_leave] at h_alike
    generalize ProcessArgv.round argv v = r' at h_alike ⊢
    cases h_alike with
    | leave h' => exact ⟨_, rfl, h'⟩
    | overflow m r' => exact absurd rfl (h_fits m)

/-- **The members are the block, as long as the values fit.** After any number of rounds the loop on
the members has met a value that does not fit, or both loops are still running, or both have ended,
in the same way. -/
theorem processArgv_cases (mallocOk : Bool) (argv : List CStr) (bytes : Bytes) (n : ℕ) :
    (∃ m, ProcessArgv.processArgv mallocOk argv n = some (.faults (.overflow m))) ∨
    (ProcessArgv.processArgv mallocOk argv n = none ∧
      processArgv mallocOk argv bytes n = none) ∨
    ∃ r r', ProcessArgv.processArgv mallocOk argv n = some r ∧
      processArgv mallocOk argv bytes n = some r' ∧ Corresponds r r' := by
  -- at first no member is written, so whatever is in the block agrees
  have h_start : Related (start uninitialized) (start ⟨bytes, []⟩) :=
    ⟨rfl, agrees_uninitialized bytes⟩
  rw [ProcessArgv.processArgv, processArgv, processArgvOn, processArgvOn]
  split
  · exact Or.inr (Or.inr ⟨_, _, rfl, rfl, .exits⟩)
  · split
    · exact Or.inr (Or.inr ⟨_, _, rfl, rfl, .exits⟩)
    · cases h_result : result (ProcessArgv.round argv) n (start uninitialized) with
      | none => exact Or.inr (Or.inl ⟨rfl, (simulates_round argv).result_none h_start h_result⟩)
      | some r =>
        by_cases h_fits : Fits r
        · obtain ⟨r', h_block, h_r⟩ := (simulates_round argv).result h_start h_result h_fits
          exact Or.inr (Or.inr ⟨r, r', rfl, h_block, h_r⟩)
        · obtain ⟨m, h_m⟩ := not_forall_not.mp h_fits
          exact Or.inl ⟨m, congrArg some h_m⟩

/-- What the members hold, the block holds. -/
theorem processArgv_returns {mallocOk : Bool}
    (h : ProcessArgv.processArgv mallocOk argv n = some (.returns info)) (bytes : Bytes) :
    ∃ block, processArgv mallocOk argv bytes n = some (.returns block) ∧ Agrees info block := by
  rcases processArgv_cases mallocOk argv bytes n with
    ⟨m, h_m⟩ | ⟨h_none, -⟩ | ⟨r, r', h_r, h_r', h'⟩
  · cases h_m.symm.trans h
  · cases h_none.symm.trans h
  · obtain rfl := Option.some.inj (h_r.symm.trans h)
    cases h' with
    | returns h_agrees => exact ⟨_, h_r', h_agrees⟩

end Block

/-! ### Canonical command lines -/

variable {argv : List CStr} {value : Member → CStr} {bytes : Bytes} {mallocOk : Bool}

/-- A canonical command line: the names are where the cursor is set to, and `value m` is what the
entry of `m` has behind the characters that are skipped. -/
structure Canonical (argv : List CStr) (value : Member → CStr) : Prop where
  argc : 24 ≤ argv.length
  names : HasNames argv
  values : ∀ m : Member, ∃ s, argv[m.position]? = some s ∧ m.group.padding ≤ s.length ∧
    s.drop m.group.padding = value m

/-- **No argument spills into another field**: `processArgv` exits with an error, or it returns,
every `strcpy` wrote inside its own array, and every field is a terminated string, its value. -/
def NoSpill (mallocOk : Bool) (argv : List CStr) (bytes : Bytes) (value : Member → CStr) : Prop :=
  ∃ n, Block.processArgv mallocOk argv bytes n = some .exits ∨
    ∃ block, Block.processArgv mallocOk argv bytes n = some (.returns block) ∧
      (∀ w ∈ block.writes, w.Inside) ∧ ∀ m, readString (block.field m) = .ok (value m).chars

/-- A terminated string is shorter than its array. -/
theorem NoSpill.length_lt (h : NoSpill true argv bytes value) (h_argc : 24 ≤ argv.length)
    (m : Member) : (value m).length < m.size := by
  obtain ⟨n, h_exits | ⟨block, -, -, h_fields⟩⟩ := h
  · cases processArgvOn_exits h_argc h_exits
  · have h_lt := length_lt_of_readString (h_fields m)
    rwa [Block.field, Struct.length_field] at h_lt

/-- Values that fit do not spill. -/
theorem Canonical.noSpill (h : Canonical argv value) (h_fits : ∀ m, (value m).length < m.size)
    (bytes : Bytes) : NoSpill true argv bytes value := by
  have h_values : ∀ m : Member, Copyable Informations argv m.group.padding m.group.start m := by
    intro m
    obtain ⟨s, h_entry, h_length, h_drop⟩ := h.values m
    have h_lt := h_fits m
    rw [← h_drop, CStr.length_drop] at h_lt
    have h_room : s.length < m.group.padding + m.size := by omega
    exact ⟨s, h_entry, h_length, h_room⟩
  -- the run on the members, and from it the run on the block
  obtain ⟨info, h_run, -, h_holds⟩ := h.names.run h_values
  obtain ⟨block, h_block, h_agrees⟩ := Block.processArgv_returns (h_run 4) bytes
  refine ⟨4, Or.inr ⟨block, h_block, h_agrees.inside, ?_⟩⟩
  intro m
  obtain ⟨s, a, h_entry, -, h_a, h_str⟩ := h_holds m
  obtain ⟨s', h_entry', -, h_drop⟩ := h.values m
  obtain rfl : s = s' := Option.some.inj (h_entry.symm.trans h_entry')
  rw [h_agrees.strings m a h_a, h_str, h_drop]

/-- **When no value spills**: when there is no memory, or every value is shorter than its array. The
lengths are not checked anywhere. -/
theorem noSpill_iff (h : Canonical argv value) :
    NoSpill mallocOk argv bytes value ↔ mallocOk = false ∨ ∀ m, (value m).length < m.size := by
  cases mallocOk with
  | false => exact iff_of_true ⟨0, Or.inl rfl⟩ (Or.inl rfl)
  | true =>
    simp only [Bool.true_eq_false, false_or]
    exact ⟨fun h_no => h_no.length_lt h.argc, fun h_fits => h.noSpill h_fits bytes⟩

/-- The values of a command line. -/
def valueOf (argv : List CStr) (m : Member) : CStr :=
  ((argv[m.position]?).getD (literal "")).drop m.group.padding

theorem canonical_of_complete : Canonical complete (valueOf complete) := by
  refine ⟨by decide, hasNames_complete, ?_⟩
  intro m
  cases m <;> exact ⟨_, rfl, by decide, rfl⟩

theorem noSpill_complete : NoSpill true complete (fun _ => 0) (valueOf complete) :=
  (noSpill_iff canonical_of_complete).mpr (Or.inr fun m => by cases m <;> decide)

/-- The command line with a host name of 50 characters, as many as `hostname` has. -/
def longHostname : List CStr :=
  complete.set 2 (literal "chp:: " ++ ⟨List.replicate 50 97, by decide⟩)

/-- The zero behind the host name is the first byte of `port`, which the next `strcpy` writes. -/
theorem hostname_spills : Canonical longHostname (valueOf longHostname) ∧
    (∃ block, Block.processArgv true longHostname (fun _ => 0) 4 = some (.returns block) ∧
      readString (block.field .hostname) = .error .outOfBounds ∧
      readString (loadBytes block.bytes 0 60) =
        .ok (List.replicate 50 97 ++ (literal "5672").chars)) ∧
    ¬ NoSpill true longHostname (fun _ => 0) (valueOf longHostname) := by
  refine ⟨⟨by decide, ?_, ?_⟩, ⟨_, rfl, ?_, ?_⟩, ?_⟩
  · intro opt h_opt
    cases opt with
    | invalid => exact absurd rfl h_opt
    | _ => rfl
  · intro m
    cases m <;> exact ⟨_, rfl, by decide, rfl⟩
  -- the array of `hostname` has no zero in it; read on, it ends with that of `port`
  · decide +kernel
  · decide +kernel
  · -- fifty characters and the zero do not fit
    intro h
    exact absurd (h.length_lt (by decide) .hostname) (by decide)

end ProcessArgv
end WateRMQ
