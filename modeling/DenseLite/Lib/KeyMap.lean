import Mathlib.Data.List.Basic
import Mathlib.Data.List.Nodup
import Mathlib.Tactic.SplitIfs

/-! # Maps as lists of entries

A map in the order of its keys, as the list of its entries: `find`, `insertBy` an order of the keys, and
`erase`. What is needed of it is which entries it has (`mem_insertBy`, `mem_erase`) and that no key
occurs twice; the order decides only in which sequence a loop goes through the entries. -/

namespace DenseLite.Lib.KeyMap

variable {κ α : Type*}

/-- A new entry, before the first one with a greater key. -/
def insertBy (lt : κ → κ → Bool) (k : κ) (a : α) : List (κ × α) → List (κ × α)
  | [] => [(k, a)]
  | e :: es => if lt k e.1 then (k, a) :: e :: es else e :: insertBy lt k a es

/-- The keys of a map. -/
def keys (es : List (κ × α)) : List κ := es.map Prod.fst

theorem mem_keys {es : List (κ × α)} {k : κ} : k ∈ keys es ↔ ∃ a, (k, a) ∈ es := by
  unfold keys
  simp

/-- An entry is determined by its key. -/
theorem eq_of_mem {k : κ} {a b : α} : ∀ {es : List (κ × α)}, (keys es).Nodup → (k, a) ∈ es → (k, b) ∈ es →
    a = b
  | e :: es, hnd, ha, hb => by
    obtain ⟨hnot, hnd'⟩ := List.nodup_cons.mp hnd
    rcases List.mem_cons.mp ha with ha | ha <;> rcases List.mem_cons.mp hb with hb | hb
    · have := ha.trans hb.symm
      exact (Prod.mk.inj this).2
    · exact absurd (mem_keys.mpr ⟨b, hb⟩) (by rw [← ha] at hnot; exact hnot)
    · exact absurd (mem_keys.mpr ⟨a, ha⟩) (by rw [← hb] at hnot; exact hnot)
    · exact eq_of_mem hnd' ha hb

theorem insertBy_perm (lt : κ → κ → Bool) (k : κ) (a : α) : ∀ es : List (κ × α),
    (insertBy lt k a es).Perm ((k, a) :: es)
  | [] => List.Perm.refl _
  | e :: es => by
    unfold insertBy
    split_ifs
    · exact List.Perm.refl _
    · exact ((insertBy_perm lt k a es).cons e).trans (List.Perm.swap _ _ _)

theorem mem_insertBy {lt : κ → κ → Bool} {k : κ} {a : α} {es : List (κ × α)} {e : κ × α} :
    e ∈ insertBy lt k a es ↔ e = (k, a) ∨ e ∈ es := by
  rw [(insertBy_perm lt k a es).mem_iff, List.mem_cons]

theorem nodup_keys_insertBy {lt : κ → κ → Bool} {k : κ} {a : α} {es : List (κ × α)}
    (h : (keys es).Nodup) (hk : k ∉ keys es) : (keys (insertBy lt k a es)).Nodup := by
  have hperm := (insertBy_perm lt k a es).map Prod.fst
  exact hperm.nodup_iff.mpr (List.nodup_cons.mpr ⟨hk, h⟩)

theorem nodup_values_insertBy {lt : κ → κ → Bool} {k : κ} {a : α} {es : List (κ × α)}
    (h : (es.map Prod.snd).Nodup) (ha : a ∉ es.map Prod.snd) :
    ((insertBy lt k a es).map Prod.snd).Nodup := by
  have hperm := (insertBy_perm lt k a es).map Prod.snd
  exact hperm.nodup_iff.mpr (List.nodup_cons.mpr ⟨ha, h⟩)

variable [DecidableEq κ]

/-- The value of a key. -/
def find (k : κ) : List (κ × α) → Option α
  | [] => none
  | e :: es => if e.1 = k then some e.2 else find k es

/-- The map without a key. -/
def erase (k : κ) (es : List (κ × α)) : List (κ × α) := es.filter fun e => e.1 ≠ k

theorem find_eq_none_iff {k : κ} : ∀ {es : List (κ × α)}, find k es = none ↔ k ∉ keys es
  | [] => by simp [find, keys]
  | e :: es => by
    have ih : find k es = none ↔ k ∉ keys es := find_eq_none_iff
    unfold find
    by_cases h : e.1 = k
    · rw [if_pos h]
      refine iff_of_false (by simp) ?_
      rw [not_not]
      exact List.mem_cons.mpr (Or.inl h.symm)
    · rw [if_neg h, ih]
      unfold keys
      rw [List.map_cons, List.mem_cons, not_or]
      exact ⟨fun h' => ⟨fun h'' => h h''.symm, h'⟩, fun h' => h'.2⟩

theorem mem_of_find {k : κ} {a : α} : ∀ {es : List (κ × α)}, find k es = some a → (k, a) ∈ es
  | [], h => by simp [find] at h
  | e :: es, h => by
    unfold find at h
    split_ifs at h with he
    · rw [← he, ← Option.some.inj h]
      exact List.mem_cons_self
    · exact List.mem_cons_of_mem _ (mem_of_find h)

theorem mem_erase {k : κ} {es : List (κ × α)} {e : κ × α} : e ∈ erase k es ↔ e ∈ es ∧ e.1 ≠ k := by
  unfold erase
  simp

theorem erase_sublist (k : κ) (es : List (κ × α)) : (erase k es).Sublist es := List.filter_sublist

end DenseLite.Lib.KeyMap
