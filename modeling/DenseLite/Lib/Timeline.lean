import Mathlib.Data.List.GetD
import Mathlib.Order.Monotone.Basic
import Mathlib.Tactic.Common

/-! # Histories, and what a copy of their present shows

A `History` is a value with the values it had before, each at its moment. A copy is written later than
the value it is a copy of: `Serves` says that what the copy shows was there at some moment not before `c`, or
just before a change that is still to be written to the copy. -/

namespace DenseLite.Lib.Timeline

variable {τ β : Type*}

/-- A value, and the values before it, the oldest first. -/
structure History (τ : Type*) where
  past : List τ
  now : τ

namespace History

variable (h : History τ) (x : τ) {a b c m n : ℕ}

/-- The number of changes so far. -/
def moment : ℕ := h.past.length

/-- The value after `n` changes, and the present one of later moments. -/
def valueAt (n : ℕ) : τ := h.past.getD n h.now

/-- A change. -/
def commit : History τ := ⟨h.past ++ [h.now], x⟩

@[simp] theorem now_commit : (h.commit x).now = x := rfl

@[simp] theorem moment_commit : (h.commit x).moment = h.moment + 1 := by
  unfold moment commit
  rw [List.length_append, List.length_singleton]

variable {h x}

theorem valueAt_of_le (hn : h.moment ≤ n) : h.valueAt n = h.now := List.getD_eq_default _ _ hn

@[simp] theorem valueAt_moment : h.valueAt h.moment = h.now := valueAt_of_le le_rfl

theorem valueAt_commit_of_le (hn : n ≤ h.moment) : (h.commit x).valueAt n = h.valueAt n := by
  rcases Nat.lt_or_eq_of_le hn with hn | rfl
  · unfold valueAt commit
    rw [List.getD_append _ _ _ _ hn, List.getD_eq_getElem _ _ hn, List.getD_eq_getElem _ _ hn]
  · rw [valueAt_moment]
    unfold valueAt commit moment
    rw [List.getD_append_right _ _ _ _ le_rfl, Nat.sub_self]
    rfl

theorem valueAt_commit_succ : (h.commit x).valueAt (h.moment + 1) = x :=
  valueAt_of_le (h.moment_commit x).le

/-- A number that no change makes smaller grows along the history. -/
theorem monotone_commit {g : τ → ℕ} (hg : Monotone fun n => g (h.valueAt n)) (hx : g h.now ≤ g x) :
    Monotone fun n => g ((h.commit x).valueAt n) := by
  refine monotone_nat_of_le_succ fun n => ?_
  rcases Nat.lt_or_ge n h.moment with hn | hn
  · rw [valueAt_commit_of_le hn.le, valueAt_commit_of_le hn]
    exact hg n.le_succ
  · rw [valueAt_of_le (n := n + 1) (by rw [moment_commit]; omega), now_commit]
    rcases Nat.lt_or_eq_of_le hn with hn | rfl
    · rw [valueAt_of_le (n := n) (by rw [moment_commit]; omega), now_commit]
    · rw [valueAt_commit_of_le le_rfl, valueAt_moment]
      exact hx

/-! ### Copies -/

variable (h) in
/-- What `f` is in the copy, `v`, is what it was at some moment not before `c`, or not before the change
that leads to a moment `a` still to be written. -/
def Serves (f : τ → β) (waiting : ℕ → Prop) (c : ℕ) (v : β) : Prop :=
  ∃ n ≤ h.moment, f (h.valueAt n) = v ∧ (c ≤ n ∨ ∃ a ≤ n + 1, waiting a)

variable {f : τ → β} {waiting waiting' : ℕ → Prop} {v : β}

theorem Serves.mono (hs : h.Serves f waiting c v) (hw : ∀ a, waiting a → waiting' a) :
    h.Serves f waiting' c v := by
  obtain ⟨n, hn, hv, hc⟩ := hs
  exact ⟨n, hn, hv, hc.imp_right fun ⟨a, ha, hwa⟩ => ⟨a, ha, hw a hwa⟩⟩

theorem Serves.commit (hs : h.Serves f waiting c v) : (h.commit x).Serves f waiting c v := by
  obtain ⟨n, hn, hv, hc⟩ := hs
  refine ⟨n, ?_, ?_, hc⟩
  · rw [moment_commit]
    exact hn.trans (Nat.le_succ _)
  · rw [valueAt_commit_of_le hn]
    exact hv

theorem serves_now (hc : c ≤ h.moment) (hv : f h.now = v) : h.Serves f waiting c v :=
  ⟨h.moment, le_rfl, by rw [valueAt_moment]; exact hv, Or.inl hc⟩

/-- A copy that serves the present serves it after a change too, if `f` is the same or the change is waiting. -/
theorem Serves.commit_succ (hs : h.Serves f waiting h.moment v) (hx : f x = f h.now ∨ waiting (h.moment + 1)) :
    (h.commit x).Serves f waiting (h.moment + 1) v := by
  obtain ⟨n, hn, hv, hc | hw⟩ := hs
  · obtain rfl := le_antisymm hn hc
    rcases hx with hx | hx
    · refine serves_now (h.moment_commit x).ge ?_
      rw [now_commit, hx, ← valueAt_moment]
      exact hv
    · refine ⟨h.moment, ?_, ?_, Or.inr ⟨_, le_rfl, hx⟩⟩
      · rw [moment_commit]
        exact Nat.le_succ _
      · rw [valueAt_commit_of_le le_rfl]
        exact hv
  · refine ⟨n, ?_, ?_, Or.inr hw⟩
    · rw [moment_commit]
      exact hn.trans (Nat.le_succ _)
    · rw [valueAt_commit_of_le hn]
      exact hv

/-- A copy of what was at the moment `a` serves a later moment `c` if all changes between them are waiting. -/
theorem serves_of_waiting (hac : a ≤ c) (hc : c ≤ h.moment)
    (hw : ∀ m, a ≤ m → m < c → f (h.valueAt (m + 1)) = f (h.valueAt m) ∨ waiting (m + 1)) :
    h.Serves f waiting c (f (h.valueAt a)) := by
  induction c, hac using Nat.le_induction with
  | base => exact ⟨a, hc, rfl, Or.inl le_rfl⟩
  | succ c hac ih =>
    obtain ⟨n, hn, hv, hle | hwait⟩ := ih (by omega) fun m ham hmc => hw m ham (by omega)
    · rcases Nat.lt_or_eq_of_le hle with hlt | rfl
      · exact ⟨n, hn, hv, Or.inl hlt⟩
      · rcases hw c hac (Nat.lt_succ_self c) with heq | hwait
        · exact ⟨c + 1, hc, heq.trans hv, Or.inl le_rfl⟩
        · exact ⟨c, hn, hv, Or.inr ⟨c + 1, le_rfl, hwait⟩⟩
    · exact ⟨n, hn, hv, Or.inr hwait⟩

/-- If what is waiting came after `c`, the copy shows what was there at `c` or later. -/
theorem Serves.exists_eq (hs : h.Serves f waiting c v) (hw : ∀ a, waiting a → c < a) :
    ∃ n, c ≤ n ∧ n ≤ h.moment ∧ f (h.valueAt n) = v := by
  obtain ⟨n, hn, hv, hle | ⟨a, ha, hwait⟩⟩ := hs
  · exact ⟨n, hle, hn, hv⟩
  · have := hw a hwait
    exact ⟨n, by omega, hn, hv⟩

end History

end DenseLite.Lib.Timeline
