import Mathlib.Data.List.Basic
import Mathlib.Tactic.Common

/-! # Runs of a step function, and what holds at every step of them

A run is a list of inputs fed one after the other to `step : σ → α → σ`. `EveryStep step P s as` says
that `P` holds of the state before each step and of the input of that step. The same predicate
serves as a condition on a run (each step meets `C`) and as what is proved of it (each step has
`P`); `everyStep_of_invariant` leads from the one to the other by an invariant of the states. -/

namespace DenseLite.Lib.Runs

variable {σ α : Type*} (step : σ → α → σ)

/-- `P` holds at every step of the run of `as` from `s`. -/
def EveryStep (P : σ → α → Prop) : σ → List α → Prop
  | _, [] => True
  | s, a :: as => P s a ∧ EveryStep P (step s a) as

@[simp] theorem everyStep_nil (P : σ → α → Prop) (s : σ) : EveryStep step P s [] := trivial

@[simp] theorem everyStep_cons (P : σ → α → Prop) (s : σ) (a : α) (as : List α) :
    EveryStep step P s (a :: as) ↔ P s a ∧ EveryStep step P (step s a) as := Iff.rfl

variable {step}

theorem everyStep_true : ∀ (as : List α) (s : σ), EveryStep step (fun _ _ => True) s as
  | [], _ => trivial
  | a :: as, s => ⟨trivial, everyStep_true as (step s a)⟩

theorem everyStep_and {P Q : σ → α → Prop} : ∀ (as : List α) (s : σ),
    EveryStep step (fun s a => P s a ∧ Q s a) s as ↔ EveryStep step P s as ∧ EveryStep step Q s as
  | [], _ => by simp
  | a :: as, s => by
    rw [everyStep_cons, everyStep_cons, everyStep_cons, everyStep_and as (step s a), and_and_and_comm]

/-- A condition that does not look at the state. -/
theorem everyStep_iff_forall_mem {C : α → Prop} : ∀ (as : List α) (s : σ),
    EveryStep step (fun _ a => C a) s as ↔ ∀ a ∈ as, C a
  | [], _ => by simp
  | a :: as, s => by
    rw [everyStep_cons, everyStep_iff_forall_mem as (step s a), List.forall_mem_cons]

/-- **The invariant rule.** If a step that meets `C` in a state with `I` has `P` and leads to a
state with `I`, then a run from a state with `I` whose steps all meet `C` has `P` at every step, and
ends in a state with `I`; `Q` is a further condition on the inputs alone. -/
theorem everyStep_of_invariant_mem {I : σ → Prop} {C P : σ → α → Prop} {Q : α → Prop}
    (h : ∀ s a, I s → Q a → C s a → P s a ∧ I (step s a)) : ∀ (as : List α) (s : σ),
    I s → (∀ a ∈ as, Q a) → EveryStep step C s as →
      EveryStep step P s as ∧ I (as.foldl step s)
  | [], s, hI, _, _ => ⟨trivial, hI⟩
  | a :: as, s, hI, hQ, hC => by
    obtain ⟨hP, hI'⟩ := h s a hI (hQ a (by simp)) hC.1
    obtain ⟨hrest, hend⟩ :=
      everyStep_of_invariant_mem h as (step s a) hI' (fun b hb => hQ b (by simp [hb])) hC.2
    exact ⟨⟨hP, hrest⟩, hend⟩

/-- The invariant rule without a condition on the inputs. -/
theorem everyStep_of_invariant {I : σ → Prop} {C P : σ → α → Prop}
    (h : ∀ s a, I s → C s a → P s a ∧ I (step s a)) (as : List α) (s : σ) (hI : I s)
    (hC : EveryStep step C s as) : EveryStep step P s as ∧ I (as.foldl step s) :=
  everyStep_of_invariant_mem (Q := fun _ => True) (fun s a hs _ => h s a hs) as s hI
    (fun _ _ => trivial) hC

/-- **The exact rule.** If in a state with `I` a step has `P` exactly when it meets `C`, and then leads
to a state with `I`, a run has `P` at every step exactly when its steps all meet `C`. -/
theorem everyStep_iff_of_invariant {I : σ → Prop} {C P : σ → α → Prop} {Q : α → Prop}
    (h : ∀ s a, I s → Q a → (P s a ↔ C s a)) (h' : ∀ s a, I s → Q a → C s a → I (step s a)) :
    ∀ (as : List α) (s : σ), I s → (∀ a ∈ as, Q a) →
      (EveryStep step P s as ↔ EveryStep step C s as)
  | [], s, _, _ => Iff.rfl
  | a :: as, s, hI, hQ => by
    have ha := h s a hI (hQ a (by simp))
    rw [everyStep_cons, everyStep_cons, ha]
    refine and_congr_right fun hC => ?_
    exact everyStep_iff_of_invariant h h' as (step s a) (h' s a hI (hQ a (by simp)) hC)
      fun b hb => hQ b (by simp [hb])

/-- The invariant rule for runs whose inputs meet a condition that does not look at the state. -/
theorem foldl_invariant {I : σ → Prop} {C : α → Prop}
    (h : ∀ s a, I s → C a → I (step s a)) : ∀ (as : List α) (s : σ),
    I s → (∀ a ∈ as, C a) → I (as.foldl step s)
  | [], s, hI, _ => hI
  | a :: as, s, hI, hC =>
    foldl_invariant h as (step s a) (h s a hI (hC a (by simp))) fun b hb => hC b (by simp [hb])

/-- `cs` is an interleaving of `as` and `bs`: each keeps its own order. -/
inductive Interleaves {β : Type*} : List β → List β → List β → Prop
  | nil : Interleaves [] [] []
  | left {a : β} {as bs cs : List β} : Interleaves as bs cs → Interleaves (a :: as) bs (a :: cs)
  | right {b : β} {as bs cs : List β} : Interleaves as bs cs → Interleaves as (b :: bs) (b :: cs)

end DenseLite.Lib.Runs
