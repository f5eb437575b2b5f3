import Mathlib.Data.List.Basic
import Mathlib.Tactic.Common

/-! # Lists that take in what they meet

A list of records is held against a sequence of things. The first record that fits a thing takes it in (`settle`): if
it is loose, it moves to the thing, and is not loose any more. A thing is claimed if the first record that fits it is
loose. Nothing becomes claimed: records only become settled, and a record that moves stands before no loose one that
it did not stand before (`not_claimed_settle`). -/

namespace DenseLite.Lib.Adoption

variable {α β : Type*} (fits : β → α → Bool) (loose : α → Bool) (move : β → α → α)

/-- The list after it has met a thing. -/
def settle (x : β) : List α → List α
  | [] => []
  | a :: as => if fits x a then (if loose a then move x a else a) :: as else a :: settle x as

/-- The first record that fits is loose. -/
def Claimed (x : β) (l : List α) : Prop := ∃ a, l.find? (fits x) = some a ∧ loose a = true

instance (x : β) (l : List α) : Decidable (Claimed fits loose x l) :=
  decidable_of_iff ((l.find? (fits x)).any loose = true) (by unfold Claimed; cases l.find? (fits x) <;> simp)

variable {fits loose move} {x y : β} {a b : α} {l as : List α}

theorem settle_of_fits (h : fits x a = true) :
    settle fits loose move x (a :: as) = (if loose a then move x a else a) :: as := by
  rw [settle, if_pos h]

theorem settle_of_not_fits (h : ¬ fits x a = true) :
    settle fits loose move x (a :: as) = a :: settle fits loose move x as := by
  rw [settle, if_neg h]

theorem claimed_cons_of_fits (h : fits x a = true) : Claimed fits loose x (a :: as) ↔ loose a = true := by
  unfold Claimed
  rw [List.find?_cons_of_pos h]
  simp

theorem claimed_cons_of_not_fits (h : ¬ fits x a = true) :
    Claimed fits loose x (a :: as) ↔ Claimed fits loose x as := by
  unfold Claimed
  rw [List.find?_cons_of_neg h]

/-- A thing that is not claimed changes nothing. -/
theorem settle_eq_self (h : ¬ Claimed fits loose x l) : settle fits loose move x l = l := by
  induction l with
  | nil => rfl
  | cons a as ih =>
    by_cases hfits : fits x a = true
    · rw [settle_of_fits hfits, if_neg fun hloose => h ((claimed_cons_of_fits hfits).mpr hloose)]
    · rw [settle_of_not_fits hfits, ih fun hclaimed => h ((claimed_cons_of_not_fits hfits).mpr hclaimed)]

/-- Every record is as it was, but for the one that the thing claims. -/
theorem mem_settle_cases (h : b ∈ settle fits loose move x l) :
    b ∈ l ∨ ∃ a, l.find? (fits x) = some a ∧ loose a = true ∧ b = move x a := by
  induction l with
  | nil => exact Or.inl h
  | cons a as ih =>
    by_cases hfits : fits x a = true
    · rw [settle_of_fits hfits] at h
      rw [List.find?_cons_of_pos hfits]
      rcases List.mem_cons.mp h with rfl | h
      · split_ifs with hloose
        · exact Or.inr ⟨a, rfl, hloose, rfl⟩
        · exact Or.inl List.mem_cons_self
      · exact Or.inl (List.mem_cons_of_mem a h)
    · rw [settle_of_not_fits hfits] at h
      rw [List.find?_cons_of_neg hfits]
      rcases List.mem_cons.mp h with rfl | h
      · exact Or.inl List.mem_cons_self
      · exact (ih h).imp_left (List.mem_cons_of_mem a)

/-- Only the record that the thing claims does not stay. -/
theorem mem_settle_or (h : b ∈ l) :
    b ∈ settle fits loose move x l ∨ l.find? (fits x) = some b ∧ loose b = true := by
  induction l with
  | nil => cases h
  | cons a as ih =>
    by_cases hfits : fits x a = true
    · rw [settle_of_fits hfits, List.find?_cons_of_pos hfits]
      rcases List.mem_cons.mp h with rfl | h
      · split_ifs with hloose
        · exact Or.inr ⟨rfl, hloose⟩
        · exact Or.inl List.mem_cons_self
      · exact Or.inl (List.mem_cons_of_mem _ h)
    · rw [settle_of_not_fits hfits, List.find?_cons_of_neg hfits]
      rcases List.mem_cons.mp h with rfl | h
      · exact Or.inl List.mem_cons_self
      · exact (ih h).imp_left (List.mem_cons_of_mem a)

/-- A record that is not loose stays. -/
theorem mem_settle_of_not_loose (h : b ∈ l) (hloose : ¬ loose b = true) : b ∈ settle fits loose move x l :=
  (mem_settle_or h).resolve_right fun hb => hloose hb.2

/-- The record that the thing claims is in the list, moved. -/
theorem move_mem_settle (h : l.find? (fits x) = some a) (hloose : loose a = true) :
    move x a ∈ settle fits loose move x l := by
  induction l with
  | nil => cases h
  | cons b as ih =>
    by_cases hfits : fits x b = true
    · rw [List.find?_cons_of_pos hfits] at h
      obtain rfl := Option.some.inj h
      rw [settle_of_fits hfits, if_pos hloose]
      exact List.mem_cons_self
    · rw [List.find?_cons_of_neg hfits] at h
      rw [settle_of_not_fits hfits]
      exact List.mem_cons_of_mem b (ih h)

/-- What a move does not change stays in its place. -/
theorem map_settle {κ : Type*} {key : α → κ} (hkey : ∀ a, key (move x a) = key a) :
    (settle fits loose move x l).map key = l.map key := by
  induction l with
  | nil => rfl
  | cons a as ih =>
    by_cases hfits : fits x a = true
    · rw [settle_of_fits hfits]
      split_ifs <;> simp [hkey]
    · rw [settle_of_not_fits hfits, List.map_cons, List.map_cons, ih]

/-- **Nothing becomes claimed** when the list meets a thing. -/
theorem not_claimed_settle (hmove : ∀ a, loose (move x a) = false) (h : ¬ Claimed fits loose y l) :
    ¬ Claimed fits loose y (settle fits loose move x l) := by
  induction l with
  | nil => exact h
  | cons a as ih =>
    by_cases hy : fits y a = true
    · -- the first record that fits `y` is settled, and stays where it is
      have hloose : ¬ loose a = true := fun hloose => h ((claimed_cons_of_fits hy).mpr hloose)
      have hsettle : ∃ as', settle fits loose move x (a :: as) = a :: as' := by
        by_cases hx : fits x a = true
        · exact ⟨as, by rw [settle_of_fits hx, if_neg hloose]⟩
        · exact ⟨_, settle_of_not_fits hx⟩
      obtain ⟨as', hsettle⟩ := hsettle
      rw [hsettle, claimed_cons_of_fits hy]
      exact hloose
    · rw [claimed_cons_of_not_fits hy] at h
      by_cases hx : fits x a = true
      · rw [settle_of_fits hx]
        split_ifs
        · by_cases hy' : fits y (move x a) = true
          · rw [claimed_cons_of_fits hy', hmove a]
            exact Bool.false_ne_true
          · rwa [claimed_cons_of_not_fits hy']
        · rwa [claimed_cons_of_not_fits hy]
      · rw [settle_of_not_fits hx, claimed_cons_of_not_fits hy]
        exact ih h

/-- What the list has met is not claimed. -/
theorem not_claimed_settle_self (hfits : ∀ a, fits x a = true → fits x (move x a) = true)
    (hmove : ∀ a, loose (move x a) = false) : ¬ Claimed fits loose x (settle fits loose move x l) := by
  induction l with
  | nil => simp [settle, Claimed]
  | cons a as ih =>
    by_cases hx : fits x a = true
    · rw [settle_of_fits hx]
      split_ifs with hloose
      · rw [claimed_cons_of_fits (hfits a hx), hmove a]
        exact Bool.false_ne_true
      · rwa [claimed_cons_of_fits hx]
    · rw [settle_of_not_fits hx, claimed_cons_of_not_fits hx]
      exact ih

/-- Settled records that are added claim nothing. -/
theorem claimed_append (h : ∀ b ∈ as, loose b = false) : Claimed fits loose x (l ++ as) ↔ Claimed fits loose x l := by
  induction l with
  | nil =>
    refine iff_of_false ?_ (by simp [Claimed])
    rintro ⟨a, hfind, ha⟩
    rw [h a (List.mem_of_find?_eq_some hfind)] at ha
    cases ha
  | cons a l ih =>
    by_cases hx : fits x a = true
    · rw [List.cons_append, claimed_cons_of_fits hx, claimed_cons_of_fits hx]
    · rw [List.cons_append, claimed_cons_of_not_fits hx, claimed_cons_of_not_fits hx, ih]

theorem not_claimed_concat (h : ¬ Claimed fits loose x l) (hloose : loose b = false) :
    ¬ Claimed fits loose x (l ++ [b]) := by
  rw [claimed_append fun a ha => List.mem_singleton.mp ha ▸ hloose]
  exact h

end DenseLite.Lib.Adoption
