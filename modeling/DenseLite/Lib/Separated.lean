import Mathlib.Data.List.Basic

/-! # Names with a separator before each

A list of names as one text. A text begins with the text of other names and a separator, or is that text, exactly if
the other names come first among its own (`eq_or_prefix_joined_iff`): names that only begin alike are told apart. -/

namespace DenseLite.Lib.Separated

variable {α : Type*} (sep : α)

/-- The names, with the separator before each. -/
def joined (names : List (List α)) : List α := names.flatMap (sep :: ·)

variable {sep}

theorem joined_cons (n : List α) (names : List (List α)) : joined sep (n :: names) = sep :: (n ++ joined sep names) :=
  rfl

theorem joined_append (names rest : List (List α)) :
    joined sep (names ++ rest) = joined sep names ++ joined sep rest :=
  List.flatMap_append

theorem joined_eq_nil_iff {names : List (List α)} : joined sep names = [] ↔ names = [] := by
  cases names <;> simp [joined]

variable [DecidableEq α] {names names' : List (List α)}

theorem splitOn_append_joined {n : List α} (hn : sep ∉ n) (h : ∀ m ∈ names, sep ∉ m) :
    (n ++ joined sep names).splitOn sep = n :: names := by
  induction names generalizing n with
  | nil =>
    rw [joined, List.flatMap_nil, List.append_nil]
    exact List.splitOn_eq_singleton hn
  | cons m names ih =>
    obtain ⟨hm, hrest⟩ := List.forall_mem_cons.mp h
    rw [joined_cons, List.splitOn_append_cons_self_of_not_mem hn, ih hm hrest]

/-- Splitting gives the names back, behind the empty text before the first separator. -/
theorem splitOn_joined (h : ∀ m ∈ names, sep ∉ m) : (joined sep names).splitOn sep = [] :: names :=
  splitOn_append_joined List.not_mem_nil h

theorem joined_injective (h : ∀ m ∈ names, sep ∉ m) (h' : ∀ m ∈ names', sep ∉ m)
    (heq : joined sep names = joined sep names') : names = names' := by
  have hsplit := congrArg (List.splitOn sep) heq
  rw [splitOn_joined h, splitOn_joined h'] at hsplit
  exact (List.cons.inj hsplit).2

/-- A part of a text has only what the text has. -/
theorem subset_of_mem_splitOn {part text : List α} (h : part ∈ text.splitOn sep) : part ⊆ text := by
  induction text generalizing part with
  | nil => simp_all
  | cons x text ih =>
    rw [List.splitOn_cons_eq_if_modifyHead] at h
    split_ifs at h
    · rcases List.mem_cons.mp h with rfl | h
      · exact List.nil_subset _
      · exact List.subset_cons_of_subset x (ih h)
    · obtain ⟨first, rest, hsplit⟩ := List.exists_cons_of_ne_nil (List.splitOn_ne_nil sep text)
      rw [hsplit] at h ih
      rcases List.mem_cons.mp h with rfl | h
      · exact List.cons_subset_cons x (ih List.mem_cons_self)
      · exact List.subset_cons_of_subset x (ih (List.mem_cons_of_mem _ h))

theorem eq_or_prefix_joined_iff (h : ∀ m ∈ names, sep ∉ m) (h' : ∀ m ∈ names', sep ∉ m) :
    joined sep names' = joined sep names ∨ joined sep names ++ [sep] <+: joined sep names' ↔ names <+: names' := by
  constructor
  · rintro (heq | ⟨t, ht⟩)
    · exact joined_injective h' h heq ▸ List.prefix_rfl
    · have hsplit := congrArg (List.splitOn sep) ht
      rw [List.append_assoc, List.singleton_append, List.splitOn_append_cons_self, splitOn_joined h, splitOn_joined h',
        List.cons_append] at hsplit
      exact ⟨t.splitOn sep, (List.cons.inj hsplit).2⟩
  · rintro ⟨_ | ⟨m, rest⟩, rfl⟩
    · exact .inl (by rw [List.append_nil])
    · refine .inr ⟨m ++ joined sep rest, ?_⟩
      rw [joined_append, joined_cons, List.append_assoc, List.singleton_append]

end DenseLite.Lib.Separated
