import Mathlib.Data.List.Basic
import Mathlib.Tactic.Common

/-! # Looking for a part of a text

`before part s` is what stands before the first occurrence of a part, and `splitLast c s` what stands on both sides of
the last `c`. A part that does not overlap with itself (`Unbordered`) is found right behind any text in which it does
not occur (`before_eq_some_iff`). -/

namespace DenseLite.Lib.Substring

variable {α : Type*} [DecidableEq α]

/-- What stands before the first occurrence of the part, if there is one. -/
def before (part : List α) : List α → Option (List α)
  | [] => if part = [] then some [] else none
  | c :: s => if part <+: c :: s then some [] else (before part s).map (c :: ·)

/-- What stands on both sides of the last `c`, if there is one. -/
def splitLast (c : α) : List α → Option (List α × List α)
  | [] => none
  | b :: s =>
    match splitLast c s with
    | some (p, q) => some (b :: p, q)
    | none => if b = c then some ([], s) else none

/-- No end of the part is a beginning of it, besides the part itself. -/
def Unbordered (part : List α) : Prop := ∀ x, x ≠ [] → x <+: part → x <:+ part → x = part

variable {part s p q : List α} {c : α}

theorem before_eq_none_iff (hpart : part ≠ []) : before part s = none ↔ ¬ part <:+: s := by
  induction s with
  | nil =>
    rw [before, if_neg hpart, List.infix_nil]
    exact iff_of_true rfl hpart
  | cons c s ih =>
    rw [before, List.infix_cons_iff, not_or, ← ih]
    by_cases h : part <+: c :: s
    · rw [if_pos h]
      exact iff_of_false (Option.some_ne_none _) fun h' => h'.1 h
    · rw [if_neg h, Option.map_eq_none_iff]
      exact ⟨fun h' => ⟨h, h'⟩, fun h' => h'.2⟩

/-- What stands before the first occurrence has none in it. -/
theorem eq_of_before : ∀ {s p : List α}, before part s = some p → part ≠ [] →
    (∃ t, s = p ++ part ++ t) ∧ ¬ part <:+: p
  | [], p, h, hpart => by
    rw [before, if_neg hpart] at h
    cases h
  | c :: s, p, h, hpart => by
    rw [before] at h
    split_ifs at h with hbegins
    · obtain rfl := Option.some.inj h
      obtain ⟨t, ht⟩ := hbegins
      exact ⟨⟨t, ht.symm⟩, fun hocc => hpart (List.infix_nil.mp hocc)⟩
    · obtain ⟨p', hp', rfl⟩ := Option.map_eq_some_iff.mp h
      obtain ⟨⟨t, rfl⟩, hnot⟩ := eq_of_before hp' hpart
      refine ⟨⟨t, rfl⟩, fun hocc => ?_⟩
      rcases List.infix_cons_iff.mp hocc with hfirst | hrest
      · exact hbegins (hfirst.trans ⟨part ++ t, by simp⟩)
      · exact hnot hrest

omit [DecidableEq α] in
/-- The part does not begin inside a text without it that stands before it. -/
theorem not_prefix_append (hpart : Unbordered part) {t : List α} (hp : p ≠ []) (h : ¬ part <:+: p) :
    ¬ part <+: p ++ part ++ t := by
  rintro hbegins
  have hp' : p <+: p ++ part ++ t := ⟨part ++ t, by simp⟩
  rcases List.prefix_or_prefix_of_prefix hbegins hp' with hle | ⟨x, rfl⟩
  · exact h hle.isInfix
  · -- the rest of the part is a beginning of it and an end of it
    rw [List.append_assoc, List.prefix_append_right_inj] at hbegins
    have hx : x <+: p ++ x :=
      List.prefix_of_prefix_length_le hbegins ⟨t, rfl⟩ (by rw [List.length_append]; omega)
    by_cases hnil : x = []
    · rw [hnil, List.append_nil] at h
      exact h List.infix_rfl
    · have heq := congrArg List.length (hpart x hnil hx ⟨p, rfl⟩)
      rw [List.length_append] at heq
      exact hp (List.eq_nil_of_length_eq_zero (by omega))

/-- **The first occurrence** of an unbordered part is right behind a text in which it does not occur. -/
theorem before_eq_some_iff (hne : part ≠ []) (hpart : Unbordered part) :
    before part s = some p ↔ (∃ t, s = p ++ part ++ t) ∧ ¬ part <:+: p := by
  refine ⟨fun h => eq_of_before h hne, ?_⟩
  rintro ⟨⟨t, rfl⟩, hnot⟩
  induction p with
  | nil =>
    obtain ⟨c, part, rfl⟩ := List.exists_cons_of_ne_nil hne
    exact if_pos ⟨t, rfl⟩
  | cons c p ih =>
    have hrest := ih fun h => hnot (List.infix_cons h)
    refine (if_neg (not_prefix_append hpart (List.cons_ne_nil c p) hnot)).trans ?_
    exact congrArg (Option.map (c :: ·)) hrest

theorem splitLast_eq_none_iff : splitLast c s = none ↔ c ∉ s := by
  induction s with
  | nil => simp [splitLast]
  | cons b s ih =>
    rw [splitLast, List.mem_cons, not_or]
    cases h : splitLast c s with
    | some pq => exact iff_of_false (Option.some_ne_none _) fun h' => by rw [ih.mpr h'.2] at h; cases h
    | none =>
      by_cases hb : b = c
      · simp [hb]
      · simp [hb, Ne.symm hb, ih.mp h]

theorem eq_of_splitLast : ∀ {s p q : List α}, splitLast c s = some (p, q) → s = p ++ c :: q ∧ c ∉ q
  | [], _, _, h => by cases h
  | b :: s, p, q, h => by
    rw [splitLast] at h
    cases hs : splitLast c s with
    | some pq =>
      rw [hs] at h
      obtain ⟨rfl, rfl⟩ := Prod.mk.inj (Option.some.inj h)
      obtain ⟨rfl, hq⟩ := eq_of_splitLast hs
      exact ⟨rfl, hq⟩
    | none =>
      rw [hs] at h
      dsimp only at h
      split_ifs at h with hb
      obtain ⟨rfl, rfl⟩ := Prod.mk.inj (Option.some.inj h)
      exact ⟨by rw [hb]; rfl, splitLast_eq_none_iff.mp hs⟩

/-- **The last occurrence** has none behind it. -/
theorem splitLast_eq_some_iff : splitLast c s = some (p, q) ↔ s = p ++ c :: q ∧ c ∉ q := by
  refine ⟨eq_of_splitLast, ?_⟩
  rintro ⟨rfl, hq⟩
  induction p with
  | nil => rw [List.nil_append, splitLast, splitLast_eq_none_iff.mpr hq, if_pos rfl]
  | cons b p ih => rw [List.cons_append, splitLast, ih]

end DenseLite.Lib.Substring
