import Mathlib.Data.Finset.Card
import Mathlib.Data.List.Chain
import Mathlib.Logic.Relation
import Mathlib.Tactic.Cases

/-!
# Loops that may run forever

A `while` loop is given by its body: a round leads to the state of the next round, or leaves the
loop with a result. The loop itself is run with a bound on the number of rounds.

* `result body n s` — the result, when the loop ends within `n` rounds;
* `state body n s` — the state after `n` rounds, when the loop goes on that long;
* `Ends body s r`, `Forever body s` — the loop ends with `r`, it never ends;
* `ends_iff` — a loop ends with `r` when it comes to a round that leaves with `r`;
* `Coarsens` — a body that takes several rounds at once; it gives the same loop
  (`Coarsens.ends_iff`);
* `Simulates` — two loops side by side: what one ends with, the other ends with too
  (`Simulates.result`);
* `Forever.exists_isChain` — a loop that does not end goes on for any number of rounds.

Where the rounds of a loop can lead is a graph. `exists_short_path` bounds the paths that have to be
looked at when all jumps lead to finitely many places, and `length_le_of_isChain` says that with one
way on from every node no path is longer than one to a dead end.
-/

namespace While

open Relation

variable {σ ρ : Type}

/-- How a round ends: with the state of the next one, or with the result of the loop. -/
inductive Round (σ ρ : Type)
  | goOn (s : σ)
  | leave (r : ρ)

/-- The result of a loop that ends within `n` rounds. -/
def result (body : σ → Round σ ρ) : ℕ → σ → Option ρ
  | 0, _ => none
  | n + 1, s =>
    match body s with
    | .goOn t => result body n t
    | .leave r => some r

/-- The state in which round `n` begins, the first round being round `0`. -/
def state (body : σ → Round σ ρ) : ℕ → σ → Option σ
  | 0, s => some s
  | n + 1, s =>
    match body s with
    | .goOn t => state body n t
    | .leave _ => none

/-- The loop ends with `r`. -/
def Ends (body : σ → Round σ ρ) (s : σ) (r : ρ) : Prop :=
  ∃ n, result body n s = some r

/-- The loop never ends. -/
def Forever (body : σ → Round σ ρ) (s : σ) : Prop :=
  ∀ n, result body n s = none

/-- A round leads from `s` to `t`. -/
def Goes (body : σ → Round σ ρ) (s t : σ) : Prop :=
  body s = .goOn t

variable {body big : σ → Round σ ρ} {s t u : σ} {r r' : ρ} {n m : ℕ}

theorem result_goOn (h : body s = .goOn t) (n : ℕ) : result body (n + 1) s = result body n t := by
  rw [result, h]

theorem result_leave (h : body s = .leave r) (n : ℕ) : result body (n + 1) s = some r := by
  rw [result, h]

theorem state_goOn (h : body s = .goOn t) (n : ℕ) : state body (n + 1) s = state body n t := by
  rw [state, h]

theorem state_leave (h : body s = .leave r) (n : ℕ) : state body (n + 1) s = none := by
  rw [state, h]

/-- More rounds do not change the result. -/
theorem result_mono (h : result body n s = some r) (h_le : n ≤ m) : result body m s = some r := by
  induction n generalizing s m with
  | zero => cases h
  | succ n ih =>
    obtain ⟨m, rfl⟩ := Nat.exists_eq_add_of_le' (Nat.le_trans (Nat.le_add_left 1 n) h_le)
    cases h_body : body s with
    | goOn t =>
      rw [result_goOn h_body] at h ⊢
      exact ih h (Nat.le_of_succ_le_succ h_le)
    | leave r' =>
      rw [result_leave h_body] at h ⊢
      exact h

theorem Ends.unique (h : Ends body s r) (h' : Ends body s r') : r = r' := by
  obtain ⟨n, hn⟩ := h
  obtain ⟨m, hm⟩ := h'
  -- compare the two after the larger number of rounds
  have h_n := result_mono hn (Nat.le_max_left n m)
  have h_m := result_mono hm (Nat.le_max_right n m)
  exact Option.some.inj (h_n.symm.trans h_m)

theorem ends_iff_of_goOn (h : Goes body s t) : Ends body s r ↔ Ends body t r := by
  constructor
  · rintro ⟨n, hn⟩
    cases n with
    | zero => cases hn
    | succ n => exact ⟨n, (result_goOn h n).symm.trans hn⟩
  · rintro ⟨n, hn⟩
    exact ⟨n + 1, (result_goOn h n).trans hn⟩

theorem ends_of_leave (h : body s = .leave r) : Ends body s r :=
  ⟨1, result_leave h 0⟩

theorem ends_iff_of_reaches (h : ReflTransGen (Goes body) s t) :
    Ends body s r ↔ Ends body t r := by
  induction h with
  | refl => exact Iff.rfl
  | tail _ h_goes ih => exact ih.trans (ends_iff_of_goOn h_goes)

/-- A loop ends in a round that leaves. -/
theorem ends_iff : Ends body s r ↔ ∃ t, ReflTransGen (Goes body) s t ∧ body t = .leave r := by
  constructor
  · rintro ⟨n, hn⟩
    induction n generalizing s with
    | zero => cases hn
    | succ n ih =>
      cases h_body : body s with
      -- a round that goes on is the first step to the one that leaves
      | goOn u =>
        rw [result_goOn h_body] at hn
        obtain ⟨t, h_reach, h_leave⟩ := ih hn
        exact ⟨t, h_reach.head h_body, h_leave⟩
      | leave r' =>
        rw [result_leave h_body] at hn
        obtain rfl := Option.some.inj hn
        exact ⟨s, .refl, h_body⟩
  · rintro ⟨t, h_reach, h_leave⟩
    exact (ends_iff_of_reaches h_reach).mpr (ends_of_leave h_leave)

/-- The rounds of a run that is known: when it is left, and the states it goes through. -/
theorem run_of_isChain {l : List σ} (h : List.IsChain (Goes body) (s :: l))
    (h_leave : body ((s :: l).getLast (List.cons_ne_nil s l)) = .leave r) (n : ℕ) :
    result body n s = (if n ≤ l.length then none else some r) ∧ state body n s = (s :: l)[n]? := by
  induction l generalizing s n with
  | nil =>
    have h_last : body s = .leave r := h_leave
    cases n with
    | zero => exact ⟨rfl, rfl⟩
    | succ n =>
      rw [result_leave h_last, state_leave h_last]
      exact ⟨rfl, rfl⟩
  | cons t l ih =>
    obtain ⟨h_first, h_rest⟩ := List.isChain_cons_cons.mp h
    rw [List.getLast_cons (List.cons_ne_nil t l)] at h_leave
    -- one round less from the second state on
    cases n with
    | zero => exact ⟨rfl, rfl⟩
    | succ n =>
      obtain ⟨h_result, h_state⟩ := ih h_rest h_leave n
      rw [result_goOn h_first, state_goOn h_first, h_result, h_state]
      simp

/-! ### Several rounds at once -/

/-- A round of `big` is a round of `body` after some rounds of `body`. -/
def Coarsens (body big : σ → Round σ ρ) : Prop :=
  ∀ s, ∃ t, ReflTransGen (Goes body) s t ∧ big s = body t

theorem Coarsens.reaches (h : Coarsens body big) (h_reach : ReflTransGen (Goes big) s t) :
    ReflTransGen (Goes body) s t := by
  induction h_reach with
  | refl => exact .refl
  | @tail v w _ h_goes ih =>
    obtain ⟨x, h_skip, h_big⟩ := h v
    exact (ih.trans h_skip).tail (h_big.symm.trans h_goes)

/-- Rounds taken from `s` are the last ones taken from any state that `s` comes to. -/
theorem result_of_reaches (h : result body n s = some r) (h_reach : ReflTransGen (Goes body) s t) :
    ∃ m ≤ n, result body m t = some r := by
  induction h_reach with
  | refl => exact ⟨n, le_rfl, h⟩
  | tail _ h_goes ih =>
    obtain ⟨m, h_le, hm⟩ := ih
    cases m with
    | zero => cases hm
    | succ m => exact ⟨m, Nat.le_of_succ_le h_le, (result_goOn h_goes m).symm.trans hm⟩

/-- Taking several rounds at once does not change the loop. -/
theorem Coarsens.ends_iff (h : Coarsens body big) : Ends body s r ↔ Ends big s r := by
  constructor
  · rintro ⟨n, hn⟩
    induction n using Nat.strong_induction_on generalizing s with
    | _ n ih =>
      -- what is skipped uses up some of the rounds, and the round at `t` one more
      obtain ⟨t, h_skip, h_big⟩ := h s
      obtain ⟨m, h_le, hm⟩ := result_of_reaches hn h_skip
      cases m with
      | zero => cases hm
      | succ m =>
        cases h_body : body t with
        | goOn u =>
          rw [result_goOn h_body] at hm
          exact (ends_iff_of_goOn (h_big.trans h_body)).mpr (ih m (by omega) hm)
        | leave r' =>
          rw [result_leave h_body] at hm
          obtain rfl := Option.some.inj hm
          exact ends_of_leave (h_big.trans h_body)
  · intro h_ends
    obtain ⟨t, h_reach, h_leave⟩ := While.ends_iff.mp h_ends
    obtain ⟨u, h_skip, h_big⟩ := h t
    refine While.ends_iff.mpr ⟨u, (h.reaches h_reach).trans h_skip, ?_⟩
    rw [← h_big, h_leave]

/-! ### Two loops side by side -/

variable {τ π : Type}

/-- The rounds of `body` that go on, and those that leave with a result that has `P`, are rounds of
`other`, from the states related by `R`. -/
structure Simulates (body : σ → Round σ ρ) (other : τ → Round τ π) (R : σ → τ → Prop)
    (P : ρ → Prop) (Q : ρ → π → Prop) : Prop where
  goOn : ∀ s s' t, R s t → body s = .goOn s' → ∃ t', other t = .goOn t' ∧ R s' t'
  leave : ∀ s r t, R s t → body s = .leave r → P r → ∃ r', other t = .leave r' ∧ Q r r'

/-- **The rule for two loops.** A result that has `P` is one of the other loop too. -/
theorem Simulates.result {other : τ → Round τ π} {R : σ → τ → Prop} {P : ρ → Prop}
    {Q : ρ → π → Prop} (h : Simulates body other R P Q) {t : τ} (h_R : R s t)
    (h_result : result body n s = some r) (h_P : P r) :
    ∃ r', While.result other n t = some r' ∧ Q r r' := by
  induction n generalizing s t with
  | zero => cases h_result
  | succ n ih =>
    cases h_body : body s with
    -- both loops go on, to related states, with one round less
    | goOn s' =>
      obtain ⟨t', h_other, h_R'⟩ := h.goOn s s' t h_R h_body
      rw [result_goOn h_body] at h_result
      rw [result_goOn h_other]
      exact ih h_R' h_result
    | leave r₁ =>
      rw [result_leave h_body] at h_result
      obtain rfl := Option.some.inj h_result
      obtain ⟨r', h_other, h_Q⟩ := h.leave s r₁ t h_R h_body h_P
      exact ⟨r', result_leave h_other n, h_Q⟩

/-- As long as the first loop goes on, the other one does. -/
theorem Simulates.result_none {other : τ → Round τ π} {R : σ → τ → Prop} {P : ρ → Prop}
    {Q : ρ → π → Prop} (h : Simulates body other R P Q) {t : τ} (h_R : R s t)
    (h_none : While.result body n s = none) : While.result other n t = none := by
  induction n generalizing s t with
  | zero => rfl
  | succ n ih =>
    cases h_body : body s with
    | goOn s' =>
      obtain ⟨t', h_other, h_R'⟩ := h.goOn s s' t h_R h_body
      rw [result_goOn h_body] at h_none
      rw [result_goOn h_other]
      exact ih h_R' h_none
    | leave r => cases (result_leave h_body n).symm.trans h_none

/-! ### Loops that do not end -/

/-- A loop that does not end goes on for any number of rounds. -/
theorem Forever.exists_isChain (h : Forever body s) (n : ℕ) :
    ∃ l, l.length = n ∧ List.IsChain (Goes body) (s :: l) := by
  induction n generalizing s with
  | zero => exact ⟨[], rfl, List.isChain_singleton s⟩
  | succ n ih =>
    cases h_body : body s with
    | goOn t =>
      obtain ⟨l, h_length, h_chain⟩ :=
        ih (s := t) fun m => (result_goOn h_body m).symm.trans (h (m + 1))
      exact ⟨t :: l, congrArg (· + 1) h_length, List.isChain_cons_cons.mpr ⟨h_body, h_chain⟩⟩
    | leave r => exact absurd ((result_leave h_body 0).symm.trans (h 1)) (by simp)

theorem forever_iff : Forever body s ↔ ∀ r, ¬ Ends body s r := by
  constructor
  · rintro h r ⟨n, hn⟩
    cases (h n).symm.trans hn
  · intro h n
    cases h_result : result body n s with
    | none => rfl
    | some r => exact absurd ⟨n, h_result⟩ (h r)

theorem Coarsens.forever_iff (h : Coarsens body big) : Forever body s ↔ Forever big s := by
  rw [While.forever_iff, While.forever_iff]
  exact forall_congr' fun _ => not_congr h.ends_iff

/-! ### Paths -/

variable {α : Type} {R : α → α → Prop} {a b : α}

/-- What is connected is connected by a path without repetition. -/
theorem exists_nodup_path (h : ReflTransGen R a b) :
    ∃ l, List.IsChain R (a :: l) ∧ (a :: l).getLast (List.cons_ne_nil a l) = b ∧
      (a :: l).Nodup := by
  induction h using ReflTransGen.head_induction_on with
  | refl => exact ⟨[], List.isChain_singleton b, rfl, List.nodup_singleton b⟩
  | @head a c h_first _ ih =>
    obtain ⟨l, h_chain, h_last, h_nodup⟩ := ih
    by_cases h_mem : a ∈ c :: l
    · -- the path comes back to `a`: it can begin there
      obtain ⟨pre, post, h_eq⟩ := List.append_of_mem h_mem
      have h_suffix : a :: post <:+ c :: l := ⟨pre, h_eq.symm⟩
      refine ⟨post, h_chain.suffix h_suffix, ?_, h_suffix.sublist.nodup h_nodup⟩
      rw [← h_last, ← h_suffix.getLast (List.cons_ne_nil a post)]
    · exact ⟨c :: l, List.isChain_cons_cons.mpr ⟨h_first, h_chain⟩, h_last,
        List.nodup_cons.mpr ⟨h_mem, h_nodup⟩⟩

/-- All nodes of a path but the first are the end of an edge. -/
theorem mem_of_isChain {S : Finset α} (h_mem : ∀ a b, R a b → b ∈ S) {l : List α}
    (h : List.IsChain R (a :: l)) : ∀ c ∈ l, c ∈ S := by
  induction l generalizing a with
  | nil => simp
  | cons b l ih =>
    obtain ⟨h_first, h_rest⟩ := List.isChain_cons_cons.mp h
    intro c hc
    rcases List.mem_cons.mp hc with rfl | hc
    · exact h_mem a c h_first
    · exact ih h_rest c hc

/-- **Short paths are enough.** When all edges lead into a finite set, what is connected is
connected by a path with no more edges than the set has elements. -/
theorem exists_short_path {S : Finset α} (h_mem : ∀ a b, R a b → b ∈ S)
    (h : ReflTransGen R a b) :
    ∃ l, l.length ≤ S.card ∧ List.IsChain R (a :: l) ∧
      (a :: l).getLast (List.cons_ne_nil a l) = b := by
  classical
  obtain ⟨l, h_chain, h_last, h_nodup⟩ := exists_nodup_path h
  refine ⟨l, ?_, h_chain, h_last⟩
  have h_sub : l.toFinset ⊆ S :=
    fun c hc => mem_of_isChain h_mem h_chain c (List.mem_toFinset.mp hc)
  rw [← List.toFinset_card_of_nodup (List.nodup_cons.mp h_nodup).2]
  exact Finset.card_le_card h_sub

theorem reaches_of_isChain {l : List α} (h : List.IsChain R (a :: l)) :
    ReflTransGen R a ((a :: l).getLast (List.cons_ne_nil a l)) :=
  List.relationReflTransGen_of_exists_isChain_cons l h rfl

/-- With one way on from every node, no path is longer than one to a dead end. -/
theorem length_le_of_isChain (h_det : ∀ a b c, R a b → R a c → b = c) {l l' : List α}
    (h : List.IsChain R (a :: l)) (h' : List.IsChain R (a :: l'))
    (h_end : ∀ c, ¬ R ((a :: l').getLast (List.cons_ne_nil a l')) c) : l.length ≤ l'.length := by
  induction l' generalizing a l with
  | nil =>
    cases l with
    | nil => exact le_rfl
    | cons b l => exact absurd (List.isChain_cons_cons.mp h).1 (h_end b)
  | cons b' l' ih =>
    cases l with
    | nil => exact Nat.zero_le _
    | cons b l =>
      obtain ⟨h_first, h_rest⟩ := List.isChain_cons_cons.mp h
      obtain ⟨h_first', h_rest'⟩ := List.isChain_cons_cons.mp h'
      -- the second nodes are the same, and the rest of both paths goes on from there
      obtain rfl := h_det a b b' h_first h_first'
      rw [List.getLast_cons (List.cons_ne_nil b l')] at h_end
      exact Nat.succ_le_succ (ih h_rest h_rest' h_end)

end While
