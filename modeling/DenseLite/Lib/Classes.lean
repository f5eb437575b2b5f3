import Mathlib.Data.List.Basic
import Mathlib.Data.List.Induction

/-! # Classes of duplicates

A pass over a list that merges each element into the first class it is a duplicate of, or lets it begin one. A merge
may change anything but the name of a class, and being a duplicate is a matter of names; it need not be transitive.
Then the names of the classes are those of their first elements (`map_collect`), no class is a duplicate of an earlier
one (`pairwise_collect`), and every element is found again in some class (`exists_mem_collect`). -/

namespace DenseLite.Lib.Classes

variable {α ι : Type*}

section Pass

variable (dup : α → α → Bool) (merge : α → α → α)

/-- A new element: it is merged into the first class it is a duplicate of, or is a class of its own. -/
def absorb : List α → α → List α
  | [], x => [x]
  | y :: ys, x => if dup y x then merge y x :: ys else y :: absorb ys x

/-- The classes of a list. -/
def collect (l : List α) : List α := l.foldl (absorb dup merge) []

/-- The elements that begin a class. -/
def leaders (l : List α) : List α := collect dup (fun y _ => y) l

/-- Being a duplicate is a matter of names, and a merge keeps the name of the class. -/
structure ByName (name : α → ι) (same : ι → ι → Bool) : Prop where
  dup : ∀ x y, dup x y = same (name x) (name y)
  merge : ∀ x y, name (merge x y) = name x

end Pass

theorem collect_concat (dup : α → α → Bool) (merge : α → α → α) (l : List α) (x : α) :
    collect dup merge (l ++ [x]) = absorb dup merge (collect dup merge l) x := by
  rw [collect, List.foldl_concat]
  rfl

/-! ### Leaders -/

section Leaders

variable {dup : α → α → Bool}

theorem absorb_leader (x : α) : ∀ ys : List α,
    absorb dup (fun y _ => y) ys x = if ys.any (dup · x) then ys else ys ++ [x]
  | [] => rfl
  | y :: ys => by
    rw [absorb, absorb_leader x ys, List.any_cons]
    by_cases hdup : dup y x = true
    · rw [if_pos hdup, hdup, Bool.true_or, if_pos rfl]
    · rw [if_neg hdup, eq_false_of_ne_true hdup, Bool.false_or]
      split_ifs
      · rfl
      · rfl

theorem leaders_concat (l : List α) (x : α) :
    leaders dup (l ++ [x]) = if (leaders dup l).any (dup · x) then leaders dup l else leaders dup l ++ [x] := by
  rw [leaders, collect_concat, absorb_leader]
  rfl

/-- No leader is a duplicate of an earlier one. -/
theorem pairwise_leaders (dup : α → α → Bool) (l : List α) : (leaders dup l).Pairwise fun x y => dup x y = false := by
  induction l using List.reverseRecOn with
  | nil => exact .nil
  | append_singleton l x ih =>
    rw [leaders_concat]
    split_ifs with hany
    · exact ih
    · refine List.pairwise_append.mpr ⟨ih, List.pairwise_singleton _ _, fun y hy z hz => ?_⟩
      rw [List.mem_singleton.mp hz]
      exact eq_false_of_ne_true fun hdup => hany (List.any_eq_true.mpr ⟨y, hy, hdup⟩)

/-- The leaders are the elements that are not duplicates of an earlier leader. -/
theorem mem_leaders_iff {l : List α} {x : α} : x ∈ leaders dup l ↔
    ∃ pre post, l = pre ++ x :: post ∧ ∀ y ∈ leaders dup pre, dup y x = false := by
  induction l using List.reverseRecOn with
  | nil =>
    refine iff_of_false List.not_mem_nil ?_
    rintro ⟨pre, post, hsplit, -⟩
    exact absurd hsplit.symm (by simp)
  | append_singleton l z ih =>
    rw [leaders_concat]
    constructor
    · intro hx
      have hcases : x ∈ leaders dup l ∨ x = z ∧ ¬ ((leaders dup l).any (dup · z)) = true := by
        split_ifs at hx with hany
        · exact Or.inl hx
        · exact (List.mem_append.mp hx).imp_right fun hin => ⟨List.mem_singleton.mp hin, hany⟩
      rcases hcases with hin | ⟨rfl, hany⟩
      · obtain ⟨pre, post, rfl, hfirst⟩ := ih.mp hin
        exact ⟨pre, post ++ [z], by simp, hfirst⟩
      · refine ⟨l, [], rfl, fun y hy => eq_false_of_ne_true fun hdup => hany ?_⟩
        exact List.any_eq_true.mpr ⟨y, hy, hdup⟩
    · rintro ⟨pre, post, hsplit, hfirst⟩
      rcases List.eq_nil_or_concat post with rfl | ⟨post, w, rfl⟩
      · -- it is the new one
        obtain ⟨rfl, hxz⟩ := List.append_inj' hsplit rfl
        cases hxz
        have hnot : ¬ ((leaders dup l).any (dup · x)) = true := by
          intro hany
          obtain ⟨y, hy, hdup⟩ := List.any_eq_true.mp hany
          rw [hfirst y hy] at hdup
          cases hdup
        rw [if_neg hnot]
        exact List.mem_append_right _ (List.mem_singleton_self x)
      · rw [List.concat_eq_append, ← List.cons_append, ← List.append_assoc] at hsplit
        have hin := ih.mpr ⟨pre, post, (List.append_inj' hsplit rfl).1, hfirst⟩
        split_ifs
        · exact hin
        · exact List.mem_append_left _ hin

/-- An element that is no duplicate of any other is a leader as often as it occurs. -/
theorem count_leaders [DecidableEq α] {x : α} (hx : ∀ y, dup y x = false) (l : List α) :
    (leaders dup l).count x = l.count x := by
  induction l using List.reverseRecOn with
  | nil => rfl
  | append_singleton l z ih =>
    rw [leaders_concat, List.count_append, ← ih]
    by_cases hz : z = x
    · subst hz
      have hnot : ¬ ((leaders dup l).any (dup · z)) = true := by
        intro hany
        obtain ⟨y, -, hdup⟩ := List.any_eq_true.mp hany
        rw [hx y] at hdup
        cases hdup
      rw [if_neg hnot, List.count_append]
    · have hzero : [z].count x = 0 := List.count_eq_zero.mpr fun hin => hz (List.mem_singleton.mp hin).symm
      split_ifs
      · rw [hzero, Nat.add_zero]
      · rw [List.count_append]

theorem leaders_subset_append (l m : List α) : leaders dup l ⊆ leaders dup (l ++ m) := by
  intro x hx
  obtain ⟨pre, post, rfl, hfirst⟩ := mem_leaders_iff.mp hx
  exact mem_leaders_iff.mpr ⟨pre, post ++ m, by simp, hfirst⟩

/-- The leaders of two lists: those of the first one, and those of the second one that are no duplicates before. -/
theorem mem_leaders_append {l m : List α} {x : α} : x ∈ leaders dup (l ++ m) ↔ x ∈ leaders dup l ∨
    ∃ pre post, m = pre ++ x :: post ∧ ∀ y ∈ leaders dup (l ++ pre), dup y x = false := by
  constructor
  · intro hx
    obtain ⟨pre, post, hsplit, hfirst⟩ := mem_leaders_iff.mp hx
    rcases List.append_eq_append_iff.mp hsplit with ⟨rest, rfl, hm⟩ | ⟨rest, rfl, hrest⟩
    · exact Or.inr ⟨rest, post, hm, hfirst⟩
    · cases rest with
      | nil =>
        exact Or.inr ⟨[], post, hrest.symm, by rwa [List.append_nil, List.append_nil]⟩
      | cons z rest =>
        rw [List.cons_append, List.cons.injEq] at hrest
        obtain ⟨rfl, -⟩ := hrest
        exact Or.inl (mem_leaders_iff.mpr ⟨pre, rest, rfl, hfirst⟩)
  · rintro (hx | ⟨pre, post, rfl, hfirst⟩)
    · exact leaders_subset_append l m hx
    · exact mem_leaders_iff.mpr ⟨l ++ pre, post, by simp, hfirst⟩

end Leaders

/-! ### Classes -/

section Classes

variable {dup : α → α → Bool} {merge : α → α → α} {name : α → ι} {same : ι → ι → Bool}

theorem map_absorb (h : ByName dup merge name same) (x : α) : ∀ ys : List α,
    (absorb dup merge ys x).map name = absorb same (fun y _ => y) (ys.map name) (name x)
  | [] => rfl
  | y :: ys => by
    rw [absorb, List.map_cons, absorb, ← h.dup]
    split_ifs
    · rw [List.map_cons, h.merge]
    · rw [List.map_cons, map_absorb h x ys]

/-- **The names of the classes** are those of the elements that begin them. -/
theorem map_collect (h : ByName dup merge name same) (l : List α) :
    (collect dup merge l).map name = leaders same (l.map name) := by
  induction l using List.reverseRecOn with
  | nil => rfl
  | append_singleton l x ih =>
    rw [collect_concat, map_absorb h, ih, List.map_append, List.map_singleton, leaders, leaders, collect_concat]

theorem map_leaders (h : ∀ x y, dup x y = same (name x) (name y)) (l : List α) :
    (leaders dup l).map name = leaders same (l.map name) :=
  map_collect ⟨h, fun _ _ => rfl⟩ l

/-- No class is a duplicate of an earlier one. -/
theorem pairwise_collect (h : ByName dup merge name same) (l : List α) :
    (collect dup merge l).Pairwise fun x y => dup x y = false := by
  have hnames := pairwise_leaders same (l.map name)
  rw [← map_collect h, List.pairwise_map] at hnames
  exact hnames.imp fun {x y} hxy => (h.dup x y).trans hxy

variable (le : α → α → Prop) (hrefl : ∀ x, le x x) (htrans : ∀ x y z, le x y → le y z → le x z)
  (hleft : ∀ x y, le x (merge x y)) (hright : ∀ x y, le y (merge x y))

include hrefl hleft hright

/-- What a new element leaves: it is in some class, and so is what was in one. -/
theorem absorb_spec (h : ByName dup merge name same) (x : α) : ∀ ys : List α,
    (∃ y ∈ absorb dup merge ys x, (dup y x = true ∨ name y = name x) ∧ le x y) ∧
      ∀ z ∈ ys, ∃ y ∈ absorb dup merge ys x, name y = name z ∧ le z y
  | [] => ⟨⟨x, List.mem_singleton_self x, Or.inr rfl, hrefl x⟩, by simp⟩
  | y :: ys => by
    rw [absorb]
    split_ifs with hdup
    · refine ⟨⟨merge y x, List.mem_cons_self, Or.inl ?_, hright y x⟩, fun z hz => ?_⟩
      · rw [h.dup, h.merge, ← h.dup, hdup]
      · rcases List.mem_cons.mp hz with rfl | hz
        · exact ⟨merge z x, List.mem_cons_self, h.merge z x, hleft z x⟩
        · exact ⟨z, List.mem_cons_of_mem _ hz, rfl, hrefl z⟩
    · obtain ⟨⟨w, hw, hnew⟩, hold⟩ := absorb_spec h x ys
      refine ⟨⟨w, List.mem_cons_of_mem y hw, hnew⟩, fun z hz => ?_⟩
      rcases List.mem_cons.mp hz with rfl | hz
      · exact ⟨z, List.mem_cons_self, rfl, hrefl z⟩
      · obtain ⟨v, hv, hsame⟩ := hold z hz
        exact ⟨v, List.mem_cons_of_mem y hv, hsame⟩

include htrans

/-- **Every element is in some class**: the class is a duplicate of it, or has its name, and is no less. -/
theorem exists_mem_collect (h : ByName dup merge name same) {l : List α} {x : α} (hx : x ∈ l) :
    ∃ y ∈ collect dup merge l, (dup y x = true ∨ name y = name x) ∧ le x y := by
  induction l using List.reverseRecOn with
  | nil => exact absurd hx List.not_mem_nil
  | append_singleton l z ih =>
    rw [collect_concat]
    obtain ⟨hnew, hold⟩ := absorb_spec le hrefl hleft hright h z (collect dup merge l)
    rcases List.mem_append.mp hx with hin | hin
    · obtain ⟨y, hy, hname, hle⟩ := ih hin
      obtain ⟨w, hw, hsame, hle'⟩ := hold y hy
      refine ⟨w, hw, ?_, htrans _ _ _ hle hle'⟩
      rw [h.dup, hsame, ← h.dup]
      exact hname
    · rw [List.mem_singleton.mp hin]
      exact hnew

end Classes

theorem length_absorb_le (dup : α → α → Bool) (merge : α → α → α) (x : α) : ∀ ys : List α,
    (absorb dup merge ys x).length ≤ ys.length + 1
  | [] => Nat.le_refl _
  | y :: ys => by
    rw [absorb]
    split_ifs
    · exact Nat.le_succ _
    · exact Nat.succ_le_succ (length_absorb_le dup merge x ys)

/-- There are no more classes than elements. -/
theorem length_collect_le (dup : α → α → Bool) (merge : α → α → α) (l : List α) :
    (collect dup merge l).length ≤ l.length := by
  induction l using List.reverseRecOn with
  | nil => exact Nat.le_refl _
  | append_singleton l x ih =>
    rw [collect_concat, List.length_append, List.length_singleton]
    exact Nat.le_trans (length_absorb_le dup merge x _) (Nat.succ_le_succ ih)

/-- Every element has a leader. -/
theorem exists_leader (dup : α → α → Bool) {l : List α} {x : α} (hx : x ∈ l) :
    ∃ y ∈ leaders dup l, dup y x = true ∨ y = x := by
  have hname : ByName dup (fun y _ => y) (fun x => x) dup := ⟨fun _ _ => rfl, fun _ _ => rfl⟩
  obtain ⟨y, hy, hsame, -⟩ := exists_mem_collect (fun _ _ => True) (fun _ => trivial) (fun _ _ _ _ _ => trivial)
    (fun _ _ => trivial) (fun _ _ => trivial) hname hx
  exact ⟨y, hy, hsame⟩

end DenseLite.Lib.Classes
