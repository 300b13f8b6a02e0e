import Mathlib.Data.List.Infix
import Mathlib.Tactic.Cases

/-!
# Runs of a partial step function

A system is a state type `σ`, a label type `α` and a partial step function
`step : σ → α → Option σ`; a label that is not enabled gives `none`. A run is a list of labels.

* `exec step s as` — the state after the labels `as`;
* `Visits step s as t` — `t` is the state after some prefix of `as`, so a statement about every
  reachable state is a statement about every visited state of every run;
* `exec_history` — the induction rule for an invariant that also speaks of the labels so far;
* `exec_simulates` — the simulation rule: a run is matched step by step by the fold of a total
  function, the specification;
* `visits_invariant` — the induction rule: what holds initially and is kept by every step holds
  of every visited state;
* `forall_visits_iff_takes` — the *first bad step* rule: when the good steps keep an invariant that
  implies `P`, and a bad step taken from the invariant breaks `P` at once, then `P` holds all
  along a run exactly when the run has no bad step; `forall_visits_iff` is the rule for steps that
  their labels make good;
* `loop` — a loop without a condition, on a sequence of events: each round goes on, leaves it, or
  ends the program. `loop_cases` makes a run in the sense of `exec` of the rounds that go on, and
  `loop_running_iff` says when all of them do.
-/

namespace Runs

variable {σ α : Type}

/-- The state after the labels `as`, or `none` when one of them is not enabled. -/
def exec (step : σ → α → Option σ) : σ → List α → Option σ
  | s, [] => some s
  | s, a :: as => (step s a).bind fun t => exec step t as

/-- `t` is a state of the run of `as` from `s`. -/
def Visits (step : σ → α → Option σ) (s : σ) (as : List α) (t : σ) : Prop :=
  ∃ pre, pre <+: as ∧ exec step s pre = some t

variable {step : σ → α → Option σ}

@[simp] theorem exec_cons (s : σ) (a : α) (as : List α) :
    exec step s (a :: as) = (step s a).bind fun t => exec step t as := rfl

/-- Inverting a run: its first label is enabled and the rest runs on from there. -/
theorem exec_cons_eq_some {s t : σ} {a : α} {as : List α} :
    exec step s (a :: as) = some t ↔ ∃ u, step s a = some u ∧ exec step u as = some t := by
  rw [exec_cons, Option.bind_eq_some_iff]

theorem exec_append (s : σ) (as bs : List α) :
    exec step s (as ++ bs) = (exec step s as).bind fun t => exec step t bs := by
  induction as generalizing s with
  | nil => rfl
  | cons a as ih =>
    rw [List.cons_append, exec_cons, exec_cons]
    cases hs : step s a with
    | none => rfl
    | some t => exact ih t

/-! ### Visited states -/

theorem Visits.start (s : σ) (as : List α) : Visits step s as s :=
  ⟨[], List.nil_prefix, rfl⟩

theorem Visits.last {s t : σ} {as : List α} (h : exec step s as = some t) : Visits step s as t :=
  ⟨as, List.prefix_refl as, h⟩

theorem Visits.cons {s t u : σ} {a : α} {as : List α} (hs : step s a = some t)
    (h : Visits step t as u) : Visits step s (a :: as) u := by
  obtain ⟨pre, h_pre, h_exec⟩ := h
  exact ⟨a :: pre, (List.prefix_cons_inj a).mpr h_pre, exec_cons_eq_some.mpr ⟨t, hs, h_exec⟩⟩

theorem visits_cons {s u : σ} {a : α} {as : List α} :
    Visits step s (a :: as) u ↔ u = s ∨ ∃ t, step s a = some t ∧ Visits step t as u := by
  constructor
  · rintro ⟨pre, h_pre, h_exec⟩
    rcases List.prefix_cons_iff.mp h_pre with rfl | ⟨pre', rfl, h_pre'⟩
    · exact Or.inl (Option.some.inj h_exec).symm
    · obtain ⟨t, hs, h_exec'⟩ := exec_cons_eq_some.mp h_exec
      exact Or.inr ⟨t, hs, pre', h_pre', h_exec'⟩
  · rintro (rfl | ⟨t, hs, h⟩)
    · exact Visits.start _ _
    · exact h.cons hs

/-! ### Induction rules -/

theorem exec_invariant {I : σ → Prop} (h_step : ∀ s a t, I s → step s a = some t → I t)
    {s t : σ} {as : List α} (hs : I s) (h : exec step s as = some t) : I t := by
  induction as generalizing s with
  | nil =>
    obtain rfl : s = t := Option.some.inj h
    exact hs
  | cons a as ih =>
    obtain ⟨u, h_first, h_rest⟩ := exec_cons_eq_some.mp h
    exact ih (h_step s a u hs h_first) h_rest

/-- **The invariant rule.** What holds initially and is kept by every step holds of every state
of every run. -/
theorem visits_invariant {I : σ → Prop} (h_step : ∀ s a t, I s → step s a = some t → I t)
    {s t : σ} {as : List α} (hs : I s) (h : Visits step s as t) : I t := by
  obtain ⟨pre, -, h_exec⟩ := h
  exact exec_invariant h_step hs h_exec

/-- **The history rule.** An invariant may also speak of the labels so far. -/
theorem exec_history {I : List α → σ → Prop} {s t : σ} {as : List α} (hs : I [] s)
    (h_step : ∀ pre u a v, I pre u → step u a = some v → a ∈ as → I (pre ++ [a]) v)
    (h : exec step s as = some t) : I as t := by
  -- split `as` into what was run and what is left, and run the rest
  suffices h_from : ∀ pre rest u, as = pre ++ rest → I pre u → exec step u rest = some t → I as t
    from h_from [] as s rfl hs h
  intro pre rest
  induction rest generalizing pre with
  | nil =>
    intro u h_as hu h_exec
    obtain rfl : u = t := Option.some.inj h_exec
    rwa [h_as, List.append_nil]
  | cons a rest ih =>
    intro u h_as hu h_exec
    -- the label `a` moves from the rest to the history
    obtain ⟨v, h_first, h_rest⟩ := exec_cons_eq_some.mp h_exec
    have h_mem : a ∈ as := h_as ▸ List.mem_append_right _ List.mem_cons_self
    exact ih (pre ++ [a]) v (by rw [h_as, List.append_assoc, List.singleton_append])
      (h_step pre u a v hu h_first h_mem) h_rest

/-- **The simulation rule.** When every good label is enabled wherever `R` holds, and its step is
matched by `f`, then a run of good labels goes through and ends in a state that `R` relates to the
fold of `f`. -/
theorem exec_simulates {τ : Type} {R : σ → τ → Prop} {f : τ → α → τ} {good : α → Prop}
    (h_step : ∀ s u a, R s u → good a → ∃ t, step s a = some t ∧ R t (f u a))
    {s : σ} {u : τ} {as : List α} (hs : R s u) (h_good : ∀ a ∈ as, good a) :
    ∃ t, exec step s as = some t ∧ R t (as.foldl f u) := by
  induction as generalizing s u with
  | nil => exact ⟨s, rfl, hs⟩
  | cons a as ih =>
    obtain ⟨ha, h_rest⟩ := List.forall_mem_cons.mp h_good
    obtain ⟨t, h_first, ht⟩ := h_step s u a hs ha
    obtain ⟨v, h_exec, hv⟩ := ih ht h_rest
    exact ⟨v, exec_cons_eq_some.mpr ⟨t, h_first, h_exec⟩, hv⟩

/-- The run of `as` from `s` takes the step `a` in the state `u`, after the labels `pre`. -/
def Takes (step : σ → α → Option σ) (s : σ) (as pre : List α) (u : σ) (a : α) : Prop :=
  pre ++ [a] <+: as ∧ exec step s pre = some u

theorem takes_cons {s u : σ} {a b : α} {as pre : List α} :
    Takes step s (a :: as) pre u b ↔
      (pre = [] ∧ u = s ∧ b = a) ∨
        ∃ pre' v, pre = a :: pre' ∧ step s a = some v ∧ Takes step v as pre' u b := by
  constructor
  · rintro ⟨h_pre, h_exec⟩
    -- the step is the first one, or one of the rest of the run
    cases pre with
    | nil =>
      obtain rfl := Option.some.inj h_exec
      exact Or.inl ⟨rfl, rfl, (List.cons_prefix_cons.mp h_pre).1⟩
    | cons c pre' =>
      obtain ⟨rfl, h_pre'⟩ := List.cons_prefix_cons.mp h_pre
      obtain ⟨v, h_first, h_rest⟩ := exec_cons_eq_some.mp h_exec
      exact Or.inr ⟨pre', v, rfl, h_first, h_pre', h_rest⟩
  · rintro (⟨rfl, rfl, rfl⟩ | ⟨pre', v, rfl, h_first, h_pre', h_rest⟩)
    · exact ⟨List.prefix_append [b] as, rfl⟩
    · exact ⟨List.cons_prefix_cons.mpr ⟨rfl, h_pre'⟩, exec_cons_eq_some.mpr ⟨v, h_first, h_rest⟩⟩

/-- Every label of a run that goes through is taken. -/
theorem takes_of_prefix {s t : σ} {a : α} {as pre : List α} (h : exec step s as = some t)
    (h_pre : pre ++ [a] <+: as) : ∃ u, Takes step s as pre u a := by
  obtain ⟨post, rfl⟩ := h_pre
  rw [List.append_assoc, exec_append] at h
  obtain ⟨u, h_exec, -⟩ := Option.bind_eq_some_iff.mp h
  exact ⟨u, List.prefix_append _ _, h_exec⟩

/-- A step that a run takes and goes on from is enabled. -/
theorem Takes.enabled {s t u : σ} {a : α} {as pre : List α} (h : Takes step s as pre u a)
    (h_run : exec step s as = some t) : ∃ v, step u a = some v := by
  obtain ⟨⟨post, rfl⟩, h_exec⟩ := h
  rw [List.append_assoc, exec_append, h_exec] at h_run
  obtain ⟨v, h_first, -⟩ := exec_cons_eq_some.mp h_run
  exact ⟨v, h_first⟩

/-- What holds of every label whose step is taken holds of the labels of a run. -/
theorem forall_mem_of_takes {P : α → Prop} {s t : σ} {as pre : List α}
    (h : exec step s pre = some t) (h_pre : pre <+: as)
    (h_takes : ∀ pre u a, Takes step s as pre u a → P a) : ∀ a ∈ pre, P a := by
  intro a h_a
  obtain ⟨l, r, rfl⟩ := List.append_of_mem h_a
  have h_prefix : l ++ [a] <+: l ++ a :: r :=
    ⟨r, by rw [List.append_assoc, List.singleton_append]⟩
  obtain ⟨u, h_u⟩ := takes_of_prefix h h_prefix
  exact h_takes l u a ⟨h_u.1.trans h_pre, h_u.2⟩

/-- A step that is not enabled is the last one that is taken. -/
theorem Takes.before_stuck {s u u' : σ} {a a' : α} {as pre pre' : List α}
    (h : Takes step s as pre u a) (h_stuck : step u a = none) (h' : Takes step s as pre' u' a') :
    Takes step s pre pre' u' a' ∨ pre' = pre ∧ u' = u ∧ a' = a := by
  obtain ⟨h_pre, h_exec⟩ := h
  obtain ⟨h_pre', h_exec'⟩ := h'
  rcases Nat.lt_trichotomy pre'.length pre.length with h_lt | h_eq | h_gt
  · have h_within : pre' ++ [a'] <+: pre :=
      List.prefix_of_prefix_length_le h_pre' ((List.prefix_append _ _).trans h_pre) (by simpa)
    exact Or.inl ⟨h_within, h_exec'⟩
  · have h_same : pre' ++ [a'] <+: pre ++ [a] :=
      List.prefix_of_prefix_length_le h_pre' h_pre (by simp [h_eq])
    obtain ⟨rfl, h_a⟩ := List.append_inj (h_same.eq_of_length (by simp [h_eq])) h_eq
    exact Or.inr ⟨rfl, Option.some.inj (h_exec'.symm.trans h_exec), List.singleton_inj.mp h_a⟩
  · -- a longer run would have made the step
    obtain ⟨post, rfl⟩ : pre ++ [a] <+: pre' :=
      List.prefix_of_prefix_length_le h_pre ((List.prefix_append _ _).trans h_pre') (by simpa)
    rw [List.append_assoc, exec_append, h_exec] at h_exec'
    obtain ⟨v, h_first, -⟩ := exec_cons_eq_some.mp h_exec'
    cases h_stuck.symm.trans h_first

/-- **The first bad step.** `I` implies `P` and is kept by the good steps, while a bad step taken
from a state with `I` leads to a state without `P`. Then `P` holds in every state of a run exactly
when every step of the run is good. Whether a step is good may depend on the labels before it and
on the state it is taken in. -/
theorem forall_visits_iff_takes {I : List α → σ → Prop} {P : σ → Prop}
    {good : List α → σ → α → Prop} {s t : σ} {as : List α} (h_sound : ∀ pre u, I pre u → P u)
    (h_good : ∀ pre u a v, a ∈ as → I pre u → step u a = some v → good pre u a → I (pre ++ [a]) v)
    (h_bad : ∀ pre u a v, a ∈ as → I pre u → step u a = some v → ¬ good pre u a → ¬ P v)
    (hs : I [] s) (h : exec step s as = some t) :
    (∀ u, Visits step s as u → P u) ↔ ∀ pre u a, Takes step s as pre u a → good pre u a := by
  -- from any point of the run on: `past` is what was run, `rest` what is left
  suffices h_from : ∀ rest past s, (∀ a ∈ rest, a ∈ as) → I past s → exec step s rest = some t →
      ((∀ u, Visits step s rest u → P u) ↔
        ∀ pre u a, Takes step s rest pre u a → good (past ++ pre) u a)
    from h_from as [] s (fun _ ha => ha) hs h
  clear hs h
  intro rest
  induction rest with
  | nil =>
    intro past s _ hs h
    constructor
    · rintro - pre u a ⟨h_pre, -⟩
      exact absurd (List.prefix_nil.mp h_pre) (by simp)
    · rintro - u ⟨pre, h_pre, h_exec⟩
      obtain rfl := List.prefix_nil.mp h_pre
      obtain rfl : s = u := Option.some.inj h_exec
      exact h_sound past s hs
  | cons a rest ih =>
    intro past s h_mem hs h
    obtain ⟨ha_mem, h_mem⟩ := List.forall_mem_cons.mp h_mem
    obtain ⟨v, h_first, h_rest⟩ := exec_cons_eq_some.mp h
    -- a good step keeps the invariant, so `ih` applies; a bad one decides the matter at once
    by_cases ha : good past s a
    · have h_iff := ih (past ++ [a]) v h_mem (h_good past s a v ha_mem hs h_first ha) h_rest
      constructor
      · intro h_all pre u b h_takes
        rcases takes_cons.mp h_takes with ⟨rfl, rfl, rfl⟩ | ⟨pre', v', rfl, h_first', h_takes'⟩
        · rwa [List.append_nil]
        · obtain rfl : v = v' := Option.some.inj (h_first.symm.trans h_first')
          rw [List.append_cons]
          exact h_iff.mp (fun w hw => h_all w (hw.cons h_first)) pre' u b h_takes'
      · intro h_all u hu
        rcases visits_cons.mp hu with rfl | ⟨v', h_first', hu'⟩
        · exact h_sound past u hs
        · obtain rfl : v = v' := Option.some.inj (h_first.symm.trans h_first')
          refine h_iff.mpr ?_ u hu'
          intro pre w b h_takes
          rw [List.append_assoc, List.singleton_append]
          exact h_all _ w b (takes_cons.mpr (Or.inr ⟨pre, v, rfl, h_first, h_takes⟩))
    · constructor
      · intro h_all
        exact absurd (h_all v ((Visits.start v rest).cons h_first))
          (h_bad past s a v ha_mem hs h_first ha)
      · intro h_all
        have h_now := h_all [] s a (takes_cons.mpr (Or.inl ⟨rfl, rfl, rfl⟩))
        rw [List.append_nil] at h_now
        exact absurd h_now ha

/-- The rule for an invariant of the state alone and for steps that their labels make good. -/
theorem forall_visits_iff {I P : σ → Prop} {good : α → Prop} (h_sound : ∀ s, I s → P s)
    (h_good : ∀ s a t, I s → step s a = some t → good a → I t)
    (h_bad : ∀ s a t, I s → step s a = some t → ¬ good a → ¬ P t)
    {s t : σ} {as : List α} (hs : I s) (h : exec step s as = some t) :
    (∀ u, Visits step s as u → P u) ↔ ∀ a ∈ as, good a := by
  have h_iff : (∀ u, Visits step s as u → P u) ↔ ∀ pre u a, Takes step s as pre u a → good a :=
    forall_visits_iff_takes (I := fun _ => I) (fun _ => h_sound)
      (fun _ u a v _ => h_good u a v) (fun _ u a v _ => h_bad u a v) hs h
  rw [h_iff]
  constructor
  · intro h_all
    -- every label of a run that is done is taken
    exact forall_mem_of_takes h List.prefix_rfl h_all
  · rintro h_all pre u a ⟨h_pre, -⟩
    exact h_all a (h_pre.subset (List.mem_append_right pre List.mem_cons_self))

/-! ### Loops -/

/-- How a round of a loop ends: it goes on, it leaves the loop, or the program ends in it. -/
inductive Control
  | goOn
  | leave
  | die
  deriving DecidableEq

/-- What has become of a loop: it goes on, it was left after an event, or the program ended in the
round of one. -/
inductive Ending
  | running
  | left (n : ℕ)
  | died (n : ℕ)
  deriving DecidableEq

/-- The ending of a loop whose round at event `n` ended like this. -/
def Control.ending (n : ℕ) : Control → Ending
  | .goOn => .running
  | .leave => .left n
  | .die => .died n

/-- A loop without a condition, one round for each event: the state it ends in, and what has become
of it. `n` is the number of the first event. -/
def loop (round : σ → α → σ × Control) (n : ℕ) : σ → List α → σ × Ending
  | s, [] => (s, .running)
  | s, a :: as =>
    match round s a with
    | (t, .goOn) => loop round (n + 1) t as
    | (t, c) => (t, c.ending n)

/-- The rounds that go on, as the steps of a system. -/
def goesOn (round : σ → α → σ × Control) (s : σ) (a : α) : Option σ :=
  match round s a with
  | (t, .goOn) => some t
  | _ => none

section Loops

variable {round : σ → α → σ × Control} {s t u : σ} {a : α} {as pre : List α} {n : ℕ}

theorem goesOn_eq_some : goesOn round s a = some t ↔ round s a = (t, .goOn) := by
  unfold goesOn
  split
  next h => rw [h, Option.some_inj, Prod.mk.injEq, and_iff_left rfl]
  next h_not =>
    refine iff_of_false nofun ?_
    intro h
    exact h_not t h

theorem goesOn_eq_none {c : Control} (h : round s a = (t, c)) (hc : c ≠ .goOn) :
    goesOn round s a = none := by
  refine Option.eq_none_iff_forall_ne_some.mpr ?_
  intro v h_v
  exact hc (congrArg Prod.snd (h.symm.trans (goesOn_eq_some.mp h_v)))

/-- **A loop goes on past all events, or stops in a round that it comes to.** -/
theorem loop_cases (round : σ → α → σ × Control) (n : ℕ) (s : σ) (as : List α) :
    (∃ t, exec (goesOn round) s as = some t ∧ loop round n s as = (t, .running)) ∨
      ∃ pre u a t c, Takes (goesOn round) s as pre u a ∧ round u a = (t, c) ∧ c ≠ .goOn ∧
        loop round n s as = (t, c.ending (n + pre.length)) := by
  induction as generalizing s n with
  | nil => exact Or.inl ⟨s, rfl, rfl⟩
  | cons a as ih =>
    obtain ⟨t, c, h_round⟩ : ∃ t c, round s a = (t, c) := ⟨_, _, rfl⟩
    by_cases hc : c = .goOn
    · subst hc
      have h_first := goesOn_eq_some.mpr h_round
      have h_loop : loop round n s (a :: as) = loop round (n + 1) t as := by rw [loop, h_round]
      rw [h_loop]
      -- the rest of the loop decides, with its rounds counted from here
      refine (ih (n + 1) t).imp ?_ ?_
      · rintro ⟨v, h_exec, h_rest⟩
        exact ⟨v, exec_cons_eq_some.mpr ⟨t, h_first, h_exec⟩, h_rest⟩
      · rintro ⟨pre, u, b, v, c, h_takes, h_stop, hc, h_rest⟩
        refine ⟨a :: pre, u, b, v, c, ?_, h_stop, hc, ?_⟩
        · exact takes_cons.mpr (Or.inr ⟨pre, t, rfl, h_first, h_takes⟩)
        · rw [h_rest, List.length_cons, Nat.add_right_comm, Nat.add_assoc]
    · refine Or.inr ⟨[], s, a, t, c, takes_cons.mpr (Or.inl ⟨rfl, rfl, rfl⟩), h_round, hc, ?_⟩
      rw [loop, h_round]
      cases c with
      | goOn => exact absurd rfl hc
      | leave => rfl
      | die => rfl

theorem ending_ne_running {c : Control} (hc : c ≠ .goOn) : c.ending n ≠ .running := by
  cases c with
  | goOn => exact absurd rfl hc
  | leave => exact Ending.noConfusion
  | die => exact Ending.noConfusion

/-- **When a loop goes on past all events**: when every round that it comes to goes on. -/
theorem loop_running_iff : (loop round n s as).2 = .running ↔
    ∀ pre u a, Takes (goesOn round) s as pre u a → (round u a).2 = .goOn := by
  constructor
  · intro h pre u a h_takes
    rcases loop_cases round n s as with ⟨t, h_exec, -⟩ | ⟨pre', u', a', t, c, -, -, hc, h_loop⟩
    · obtain ⟨v, h_first⟩ := h_takes.enabled h_exec
      rw [goesOn_eq_some.mp h_first]
    · rw [h_loop] at h
      exact absurd h (ending_ne_running hc)
  · intro h
    rcases loop_cases round n s as with ⟨t, -, h_loop⟩ | ⟨pre, u, a, t, c, h_takes, h_round, hc, -⟩
    · rw [h_loop]
    · have h_goes := h pre u a h_takes
      rw [h_round] at h_goes
      exact absurd h_goes hc

/-- A loop in which the event alone decides whether a round goes on. -/
theorem loop_running_iff_forall {goes : α → Prop}
    (h_round : ∀ s a, (round s a).2 = .goOn ↔ goes a) :
    (loop round n s as).2 = .running ↔ ∀ a ∈ as, goes a := by
  rw [loop_running_iff]
  constructor
  · intro h
    -- from any point of the run on
    induction as generalizing s with
    | nil => exact List.forall_mem_nil _
    | cons a as ih =>
      have h_first := h [] s a (takes_cons.mpr (Or.inl ⟨rfl, rfl, rfl⟩))
      have h_step : goesOn round s a = some (round s a).1 :=
        goesOn_eq_some.mpr (Prod.ext rfl h_first)
      refine List.forall_mem_cons.mpr ⟨(h_round s a).mp h_first, ih (s := (round s a).1) ?_⟩
      intro pre u b h_takes
      exact h _ u b (takes_cons.mpr (Or.inr ⟨pre, _, rfl, h_step, h_takes⟩))
  · rintro h pre u a ⟨h_pre, -⟩
    exact (h_round u a).mpr (h a (h_pre.subset (List.mem_append_right pre List.mem_cons_self)))

end Loops

end Runs
