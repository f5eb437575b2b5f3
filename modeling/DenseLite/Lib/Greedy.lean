import Mathlib.Data.Nat.Find

/-! # Greedy prefixes under a budget

Elements have weights, and are taken from the front of a list for as long as their sum stays within a budget.
The greedy prefix is the longest one that fits (`fitting_eq_take`), and `n` elements are in it if and only if
`n` elements fit (`le_room_iff`). -/

namespace DenseLite.Lib.Greedy

variable {α : Type*} (weight : α → ℕ) (budget : ℕ)

/-- The weight of a list. -/
def total : List α → ℕ
  | [] => 0
  | a :: rest => weight a + total rest

/-- The elements from the front of a list that fit, where `running` is in use already. -/
def fitting : ℕ → List α → List α
  | _, [] => []
  | running, a :: rest => if budget < running + weight a then [] else a :: fitting (running + weight a) rest

/-- How many elements from the front of a list fit. -/
def room (running : ℕ) (l : List α) : ℕ :=
  Nat.findGreatest (fun n => running + total weight (l.take n) ≤ budget) l.length

variable {weight budget}

@[simp] theorem total_nil : total weight [] = 0 := rfl

@[simp] theorem total_cons (a : α) (l : List α) : total weight (a :: l) = weight a + total weight l := rfl

@[simp] theorem total_append (l l' : List α) : total weight (l ++ l') = total weight l + total weight l' := by
  induction l with
  | nil => simp
  | cons a rest ih =>
    rw [List.cons_append, total_cons, total_cons, ih]
    omega

theorem total_perm {l l' : List α} (h : l.Perm l') : total weight l = total weight l' := by
  induction h with
  | nil => rfl
  | cons a _ ih => rw [total_cons, total_cons, ih]
  | swap a b l =>
    simp only [total_cons]
    omega
  | trans _ _ ih ih' => exact ih.trans ih'

theorem prefix_fitting : ∀ (l : List α) (running : ℕ), fitting weight budget running l <+: l
  | [], _ => List.prefix_rfl
  | a :: rest, running => by
    unfold fitting
    split_ifs
    · exact List.nil_prefix
    · exact (List.prefix_cons_inj a).mpr (prefix_fitting rest _)

/-- A prefix is taken if and only if it fits. -/
theorem le_length_fitting_iff : ∀ (l : List α) (running n : ℕ), n ≤ l.length →
    (n ≤ (fitting weight budget running l).length ↔ n = 0 ∨ running + total weight (l.take n) ≤ budget)
  | _, _, 0, _ => by simp
  | a :: rest, running, n + 1, hn => by
    have ih := le_length_fitting_iff rest (running + weight a) n (Nat.le_of_succ_le_succ hn)
    rw [List.take_succ_cons, total_cons, ← Nat.add_assoc]
    unfold fitting
    split_ifs with hover
    · have hsum : ¬ running + weight a + total weight (rest.take n) ≤ budget := by omega
      simp [hsum]
    · rw [List.length_cons, Nat.add_le_add_iff_right, ih]
      refine ⟨fun h => Or.inr ?_, fun h => Or.inr (h.resolve_left (by simp))⟩
      rcases h with rfl | h
      · rw [List.take_zero, total_nil]
        omega
      · exact h

theorem room_eq_length_fitting (l : List α) (running : ℕ) :
    room weight budget running l = (fitting weight budget running l).length := by
  have hle : (fitting weight budget running l).length ≤ l.length := (prefix_fitting l running).length_le
  refine Nat.findGreatest_eq_iff.mpr ⟨hle, fun hne => ?_, fun n hlt hn hfit => ?_⟩
  · exact ((le_length_fitting_iff l running _ hle).mp le_rfl).resolve_left hne
  · exact absurd ((le_length_fitting_iff l running n hn).mpr (Or.inr hfit)) (Nat.not_le.mpr hlt)

/-- **The greedy prefix is the longest one that fits.** -/
theorem fitting_eq_take (l : List α) (running : ℕ) :
    fitting weight budget running l = l.take (room weight budget running l) := by
  rw [room_eq_length_fitting]
  exact List.prefix_iff_eq_take.mp (prefix_fitting l running)

/-- **The first elements are within the room** if and only if they fit. -/
theorem le_room_iff {l : List α} {running n : ℕ} (hn : n ≤ l.length) :
    n ≤ room weight budget running l ↔ n = 0 ∨ running + total weight (l.take n) ≤ budget := by
  rw [room_eq_length_fitting]
  exact le_length_fitting_iff l running n hn

theorem room_le_length (l : List α) (running : ℕ) : room weight budget running l ≤ l.length :=
  Nat.findGreatest_le _

end DenseLite.Lib.Greedy
