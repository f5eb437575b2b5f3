import Mathlib.Data.Nat.Notation
import Mathlib.Tactic.Common

/-! # Loops that may not end

`Exits cond body s t`: the loop `while (cond) body` begins in `s` and ends in `t`. A measure that every round makes
smaller shows that it ends (`exits_of_measure`), and an invariant under which the condition holds shows that it does
not (`not_exits_of_invariant`). `Rounds cond body s t`: at the head of some round the state is `t`. -/

namespace DenseLite.Lib.While

variable {σ : Type*}

/-- The loop begins in the first state and ends in the second one. -/
inductive Exits (cond : σ → Prop) (body : σ → σ) : σ → σ → Prop
  | done {s : σ} : ¬ cond s → Exits cond body s s
  | round {s t : σ} : cond s → Exits cond body (body s) t → Exits cond body s t

/-- The states at the heads of the rounds. -/
inductive Rounds (cond : σ → Prop) (body : σ → σ) (s : σ) : σ → Prop
  | start : Rounds cond body s s
  | next {t : σ} : Rounds cond body s t → cond t → Rounds cond body s (body t)

variable {cond : σ → Prop} {body : σ → σ} {s t t' : σ}

theorem Exits.not_cond (h : Exits cond body s t) : ¬ cond t := by
  induction h with
  | done h => exact h
  | round _ _ ih => exact ih

/-- A loop ends in one state. -/
theorem Exits.unique (h : Exits cond body s t) (h' : Exits cond body s t') : t = t' := by
  induction h with
  | done hnot =>
    cases h' with
    | done => rfl
    | round hcond => exact absurd hcond hnot
  | round hcond _ ih =>
    cases h' with
    | done hnot => exact absurd hcond hnot
    | round _ hrest => exact ih hrest

/-- What every round keeps holds in the end. -/
theorem Exits.invariant {I : σ → Prop} (hbody : ∀ s, I s → cond s → I (body s)) (h : Exits cond body s t) (hs : I s) :
    I t := by
  induction h with
  | done => exact hs
  | round hcond _ ih => exact ih (hbody _ hs hcond)

/-- What every round keeps holds at the head of each. -/
theorem Rounds.invariant {I : σ → Prop} (hbody : ∀ s, I s → cond s → I (body s)) (h : Rounds cond body s t)
    (hs : I s) : I t := by
  induction h with
  | start => exact hs
  | next _ hcond ih => exact hbody _ ih hcond

/-- **A loop ends** if every round keeps an invariant and makes a number smaller. -/
theorem exits_of_measure {I : σ → Prop} (measure : σ → ℕ)
    (hbody : ∀ s, I s → cond s → I (body s) ∧ measure (body s) < measure s) (hs : I s) :
    ∃ t, Exits cond body s t := by
  generalize hn : measure s = n
  induction n using Nat.strongRecOn generalizing s with
  | ind n ih =>
    by_cases hcond : cond s
    · obtain ⟨hI, hlt⟩ := hbody s hs hcond
      obtain ⟨t, ht⟩ := ih _ (hn ▸ hlt) hI rfl
      exact ⟨t, .round hcond ht⟩
    · exact ⟨s, .done hcond⟩

/-- **A loop does not end** if an invariant that every round keeps entails its condition. -/
theorem not_exits_of_invariant {I : σ → Prop} (hbody : ∀ s, I s → cond s ∧ I (body s)) (hs : I s) :
    ¬ ∃ t, Exits cond body s t := by
  rintro ⟨t, ht⟩
  exact ht.not_cond (hbody t (ht.invariant (fun s hI _ => (hbody s hI).2) hs)).1

/-- A loop with a bound on its rounds ends as the loop without it, if a number that every round of a loop that ends makes
smaller is within the bound. -/
theorem Exits.bounded {loop : ℕ → σ → σ} (measure : σ → ℕ) (hdone : ∀ n s, ¬ cond s → loop n s = s)
    (hround : ∀ n s, cond s → loop (n + 1) s = loop n (body s))
    (hless : ∀ s, cond s → (∃ t, Exits cond body (body s) t) → measure (body s) < measure s)
    (h : Exits cond body s t) : ∀ {n : ℕ}, measure s ≤ n → loop n s = t := by
  induction h with
  | @done s hnot => exact fun {n} _ => hdone n s hnot
  | @round s t hcond hrest ih =>
    intro n hn
    have hlt := hless s hcond ⟨t, hrest⟩
    cases n with
    | zero => exact absurd hlt (by omega)
    | succ n => exact (hround n s hcond).trans (ih (by omega))

end DenseLite.Lib.While
