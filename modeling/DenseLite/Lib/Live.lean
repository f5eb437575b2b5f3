import Mathlib.Algebra.GroupWithZero.Nat
import Mathlib.Tactic.Common
import DenseLite.Lib.KeyMap

/-! # Live objects

The objects that are alive, by their names, and how many of them have a property. An object is set (made
anew, or changed in place) or erased; `count_set_new`, `count_set` and `count_erase` say what this does to
the number, so that a counter which the program keeps can be compared with it step by step. -/

namespace DenseLite.Lib.Live

open DenseLite.Lib.KeyMap

variable {κ α : Type*} [DecidableEq κ]

/-- An object made, or changed in place. -/
def set (k : κ) (a : α) (es : List (κ × α)) : List (κ × α) := (k, a) :: erase k es

/-- The number of live objects with a property. -/
def count (p : α → Bool) (es : List (κ × α)) : ℕ := es.countP fun e => p e.2

variable {es : List (κ × α)} {k k' : κ} {a b : α} {p : α → Bool}

/-! ### Names -/

theorem not_mem_keys_erase : k ∉ keys (erase k es) := by
  rw [mem_keys]
  rintro ⟨a, ha⟩
  exact (mem_erase.mp ha).2 rfl

theorem nodup_keys_erase (h : (keys es).Nodup) : (keys (erase k es)).Nodup :=
  h.sublist ((erase_sublist k es).map Prod.fst)

theorem nodup_keys_set (h : (keys es).Nodup) : (keys (set k a es)).Nodup :=
  List.nodup_cons.mpr ⟨not_mem_keys_erase, nodup_keys_erase h⟩

theorem find_of_mem (h : (keys es).Nodup) (hmem : (k, a) ∈ es) : find k es = some a := by
  cases hfind : find k es with
  | none => exact absurd (mem_keys.mpr ⟨a, hmem⟩) (find_eq_none_iff.mp hfind)
  | some b => rw [eq_of_mem h (mem_of_find hfind) hmem]

theorem find_erase_self : find k (erase k es) = none := find_eq_none_iff.mpr not_mem_keys_erase

theorem find_erase_of_ne (hne : k' ≠ k) : find k' (erase k es) = find k' es := by
  induction es with
  | nil => rfl
  | cons e es ih =>
    unfold erase at ih ⊢
    rw [List.filter_cons]
    by_cases he : e.1 = k
    · have hk' : ¬ e.1 = k' := fun h => hne (h.symm.trans he)
      simp only [he, ne_eq, not_true, decide_false, Bool.false_eq_true, if_false]
      rw [ih, find, if_neg hk']
    · simp only [he, ne_eq, not_false_eq_true, decide_true, if_true]
      rw [find, find, ih]

theorem find_set_self : find k (set k a es) = some a := if_pos rfl

theorem find_set_of_ne (hne : k' ≠ k) : find k' (set k a es) = find k' es := by
  rw [set, find, if_neg hne.symm, find_erase_of_ne hne]

/-- An object after a change is the changed one or an old one. -/
theorem find_set_cases (h : find k' (set k a es) = some b) : k' = k ∧ b = a ∨ find k' es = some b := by
  by_cases hk : k' = k
  · rw [hk, find_set_self] at h
    exact Or.inl ⟨hk, (Option.some.inj h).symm⟩
  · exact Or.inr ((find_set_of_ne hk).symm.trans h)

theorem find_of_find_erase (h : find k' (erase k es) = some b) : find k' es = some b := by
  have hk : k' ≠ k := by
    rintro rfl
    rw [find_erase_self] at h
    exact absurd h (by simp)
  exact (find_erase_of_ne hk).symm.trans h

theorem erase_eq_self (h : find k es = none) : erase k es = es := by
  refine List.filter_eq_self.mpr fun e he => ?_
  have hne : e.1 ≠ k := fun hk => find_eq_none_iff.mp h (mem_keys.mpr ⟨e.2, hk ▸ he⟩)
  simpa using hne

/-- A live object stands once in the map. -/
theorem perm_cons_erase (hnd : (keys es).Nodup) (h : find k es = some a) :
    es.Perm ((k, a) :: erase k es) := by
  induction es with
  | nil => exact absurd h (by simp [find])
  | cons e es ih =>
    obtain ⟨hnot, hnd'⟩ := List.nodup_cons.mp hnd
    by_cases he : e.1 = k
    · have hval : e.2 = a := by
        rw [find, if_pos he] at h
        exact Option.some.inj h
      have hfind : find k es = none := find_eq_none_iff.mpr (he ▸ hnot)
      have herase : erase k (e :: es) = es := by
        have hrest := erase_eq_self hfind
        unfold erase at hrest ⊢
        rw [List.filter_cons]
        simpa [he] using hrest
      rw [herase, ← he, ← hval]
    · rw [find, if_neg he] at h
      have herase : erase k (e :: es) = e :: erase k es := by
        unfold erase
        rw [List.filter_cons]
        simp [he]
      rw [herase]
      exact ((ih hnd' h).cons e).trans (List.Perm.swap _ _ _)

/-! ### Many objects set -/

/-- All objects of a list set. -/
def setAll (es m : List (κ × α)) : List (κ × α) := es.foldl (fun m e => set e.1 e.2 m) m

theorem find_setAll_of_not_mem {m : List (κ × α)} : ∀ {es : List (κ × α)}, k ∉ keys es →
    find k (setAll es m) = find k m
  | [], _ => rfl
  | e :: es, h => by
    obtain ⟨hne, hrest⟩ := not_or.mp (List.mem_cons.not.mp h)
    exact (find_setAll_of_not_mem hrest).trans (find_set_of_ne hne)

theorem find_setAll_of_mem {m : List (κ × α)} : ∀ {es : List (κ × α)}, (keys es).Nodup → (k, a) ∈ es →
    find k (setAll es m) = some a
  | e :: es, hnd, h => by
    obtain ⟨hnot, hnd'⟩ := List.nodup_cons.mp hnd
    rcases List.mem_cons.mp h with rfl | h
    · exact (find_setAll_of_not_mem hnot).trans find_set_self
    · have ih : find k (setAll es (set e.1 e.2 m)) = some a := find_setAll_of_mem hnd' h
      exact ih

/-- Nothing has changed exactly when every object was there already. -/
theorem find_setAll_eq_iff {m : List (κ × α)} (hnd : (keys es).Nodup) :
    (∀ k, find k (setAll es m) = find k m) ↔ ∀ e ∈ es, find e.1 m = some e.2 := by
  constructor
  · exact fun h e he => (h e.1).symm.trans (find_setAll_of_mem hnd he)
  · intro h k
    by_cases hk : k ∈ keys es
    · obtain ⟨a, ha⟩ := mem_keys.mp hk
      rw [find_setAll_of_mem hnd ha, h _ ha]
    · exact find_setAll_of_not_mem hk

/-! ### Numbers -/

theorem count_erase (hnd : (keys es).Nodup) (h : find k es = some a) :
    count p es = count p (erase k es) + if p a then 1 else 0 := by
  unfold count
  rw [(perm_cons_erase hnd h).countP_eq, List.countP_cons]

theorem count_set_new (h : find k es = none) :
    count p (set k a es) = count p es + if p a then 1 else 0 := by
  unfold count set
  rw [List.countP_cons, erase_eq_self h]

theorem count_set (hnd : (keys es).Nodup) (h : find k es = some b) :
    count p (set k a es) + (if p b then 1 else 0) = count p es + if p a then 1 else 0 := by
  have hset : count p (set k a es) = count p (erase k es) + if p a then 1 else 0 := List.countP_cons
  rw [count_erase hnd h, hset]
  omega

/-! ### Sums -/

/-- The sum of a weight over the objects. -/
def total (w : α → ℕ) (es : List (κ × α)) : ℕ := (es.map fun e => w e.2).sum

variable {w : α → ℕ}

theorem total_erase (hnd : (keys es).Nodup) (h : find k es = some a) :
    total w es = total w (erase k es) + w a := by
  unfold total
  rw [((perm_cons_erase hnd h).map _).sum_nat, List.map_cons, List.sum_cons, Nat.add_comm]

theorem total_set_new (h : find k es = none) : total w (set k a es) = total w es + w a := by
  unfold total set
  rw [List.map_cons, List.sum_cons, erase_eq_self h, Nat.add_comm]

theorem total_set (hnd : (keys es).Nodup) (h : find k es = some b) (hw : w a = w b) :
    total w (set k a es) = total w es := by
  rw [total_erase hnd h, ← hw]
  unfold total set
  rw [List.map_cons, List.sum_cons, Nat.add_comm]

/-- What is seen of an object that is changed in place stays as it was. -/
theorem map_find_set {β : Type*} {f : α → β} (h : find k es = some b) (hf : f a = f b) (k' : κ) :
    (find k' (set k a es)).map f = (find k' es).map f := by
  by_cases hk : k' = k
  · rw [hk, find_set_self, h, Option.map_some, Option.map_some, hf]
  · rw [find_set_of_ne hk]

end DenseLite.Lib.Live
