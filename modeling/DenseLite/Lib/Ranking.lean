import Mathlib.Data.List.Perm.Subperm
import Mathlib.Data.List.Sort
import Mathlib.Data.Prod.Lex
import Mathlib.Order.Basic

/-! # Lists in the order of a key

A list that is sorted by a key can have elements with equal keys in any order. `Top` says what the first `k` elements of
such a list are, and `le_countP_take_iff` how many elements of a kind are among the first `n`, whatever the order of
equal ones. -/

namespace DenseLite.Lib.Ranking

variable {α K : Type*} [LinearOrder K]

/-- The list has the best `k` elements of another one, the best of them first. -/
structure Top (key : α → K) (k : ℕ) (all top : List α) : Prop where
  sorted : top.Pairwise fun x y => key y ≤ key x
  length : top.length = min k all.length
  dropped : ∃ rest, all.Perm (top ++ rest) ∧ ∀ x ∈ rest, ∀ y ∈ top, key x ≤ key y

section Top

variable {key : α → K} {k : ℕ} {all top : List α}

/-- At most `k` elements of a list are its best `k` when they are all of it, or `k` ones that nothing else exceeds. -/
theorem top_iff (hall : all.Nodup) (htop : top.Nodup) (hsub : top ⊆ all) (hle : top.length ≤ k)
    (hsorted : top.Pairwise fun x y => key y ≤ key x) :
    Top key k all top ↔
      all ⊆ top ∨ top.length = k ∧ ∀ x ∈ all, x ∉ top → ∀ y ∈ top, key x ≤ key y := by
  obtain ⟨all', hperm, hsublist⟩ := List.subperm_iff.mp (htop.subperm hsub)
  obtain ⟨rest, hrest⟩ := hsublist.exists_perm_append
  have hsplit : all.Perm (top ++ rest) := hperm.symm.trans hrest
  have hlen := hsplit.length_eq
  rw [List.length_append] at hlen
  have hdisjoint := (List.nodup_append.mp (hsplit.nodup_iff.mp hall)).2.2
  constructor
  · intro h
    by_cases hshort : top.length = k
    · refine Or.inr ⟨hshort, fun x hx hnot y hy => ?_⟩
      obtain ⟨rest', hperm', hrest'⟩ := h.dropped
      rcases List.mem_append.mp (hperm'.mem_iff.mp hx) with hin | hin
      · exact absurd hin hnot
      · exact hrest' x hin y hy
    · -- fewer than `k` ones are all of them
      have hlength := h.length
      have hnone : rest = [] := List.eq_nil_of_length_eq_zero (by omega)
      rw [hnone, List.append_nil] at hsplit
      exact Or.inl hsplit.subset
  · rintro (hin | ⟨hlength, hbest⟩)
    · have hnone : rest = [] := by
        refine List.eq_nil_iff_forall_not_mem.mpr fun x hx => ?_
        have hmem : x ∈ top := hin (hsplit.mem_iff.mpr (List.mem_append_right top hx))
        exact hdisjoint x hmem x hx rfl
      rw [hnone, List.length_nil] at hlen
      exact ⟨hsorted, by omega, rest, hsplit, by simp [hnone]⟩
    · refine ⟨hsorted, by omega, rest, hsplit, fun x hx y hy => ?_⟩
      refine hbest x (hsplit.mem_iff.mpr (List.mem_append_right top hx)) (fun hmem => ?_) y hy
      exact hdisjoint x hmem x hx rfl

end Top

/-! ### Every order -/

/-- The list is in the order of the key, the greatest one first. -/
structure Ranked (key : α → K) (all l : List α) : Prop where
  perm : l.Perm all
  sorted : l.Pairwise fun x y => key y ≤ key x

section Ranked

variable {key : α → K} {k m n : ℕ} {all l : List α} {q : α → Bool}

/-- The first `k` elements are the best `k`. -/
theorem Ranked.top (h : Ranked key all l) (k : ℕ) : Top key k all (l.take k) := by
  have hsorted := h.sorted
  rw [← List.take_append_drop k l, List.pairwise_append] at hsorted
  refine ⟨hsorted.1, ?_, l.drop k, ?_, fun x hx y hy => hsorted.2.2 y hy x hx⟩
  · rw [List.length_take, h.perm.length_eq]
  · rw [List.take_append_drop]
    exact h.perm.symm

theorem ranked_mergeSort (key : α → K) (all : List α) :
    Ranked key all (all.mergeSort fun x y => decide (key y ≤ key x)) := by
  have htrans : ∀ x y z : α, decide (key y ≤ key x) = true → decide (key z ≤ key y) = true →
      decide (key z ≤ key x) = true := by
    intro x y z hxy hyz
    rw [decide_eq_true_eq] at *
    exact hyz.trans hxy
  have htotal : ∀ x y : α, (decide (key y ≤ key x) || decide (key x ≤ key y)) = true := by
    intro x y
    rw [Bool.or_eq_true, decide_eq_true_eq, decide_eq_true_eq]
    exact le_total _ _
  have hsorted := List.pairwise_mergeSort htrans htotal all
  exact ⟨List.mergeSort_perm all _, hsorted.imp of_decide_eq_true⟩

/-- An order in which elements of a kind come last among equal ones. -/
theorem exists_ranked_last (key : α → K) (q : α → Bool) (all : List α) :
    ∃ l, Ranked key all l ∧ l.Pairwise fun x y => key x = key y → q x = true → q y = true := by
  obtain ⟨hperm, hsorted⟩ := ranked_mergeSort (K := K ×ₗ Bool) (fun x => toLex (key x, !q x)) all
  refine ⟨_, ⟨hperm, hsorted.imp fun h => Prod.Lex.monotone_fst _ _ h⟩, hsorted.imp fun {x y} h heq hx => ?_⟩
  rcases Prod.Lex.toLex_le_toLex.mp h with hlt | ⟨-, hle⟩
  · exact absurd heq hlt.ne'
  · dsimp only at hle
    rw [hx] at hle
    cases hy : q y with
    | true => rfl
    | false =>
      rw [hy] at hle
      exact absurd hle (by decide)

/-- A list with more than `m` elements of a kind has one that `m` others of the kind stand before. -/
theorem exists_append_of_lt_countP : ∀ {m : ℕ} {l : List α}, m < l.countP q →
    ∃ a x b, l = a ++ x :: b ∧ q x = true ∧ a.countP q = m
  | m, [], h => absurd h (Nat.not_lt_zero m)
  | m, y :: l, h => by
    by_cases hy : q y = true
    · rw [List.countP_cons_of_pos hy] at h
      cases m with
      | zero => exact ⟨[], y, l, rfl, hy, rfl⟩
      | succ m =>
        obtain ⟨a, x, b, rfl, hx, ha⟩ := exists_append_of_lt_countP (Nat.lt_of_succ_lt_succ h)
        exact ⟨y :: a, x, b, rfl, hx, by rw [List.countP_cons_of_pos hy, ha]⟩
    · rw [List.countP_cons_of_neg hy] at h
      obtain ⟨a, x, b, rfl, hx, ha⟩ := exists_append_of_lt_countP h
      exact ⟨y :: a, x, b, rfl, hx, by rw [List.countP_cons_of_neg hy, ha]⟩

theorem length_eq_countP (l : List α) (q : α → Bool) : l.length = l.countP q + l.countP fun y => !q y := by
  simpa using List.length_eq_countP_add_countP q (l := l)

/-- There is an element `x` of the kind such that `m` of the kind are as good as it, and so few of the others that they
leave room for them among the first `n`. -/
def AtLeast (key : α → K) (q : α → Bool) (all : List α) (n m : ℕ) : Prop :=
  m = 0 ∨ ∃ x ∈ all, q x = true ∧ m ≤ (all.countP fun y => q y && decide (key x ≤ key y)) ∧
    (all.countP fun y => !q y && decide (key x ≤ key y)) + m ≤ n

/-- No more than `m` are of the kind or among the first `n`, or there is an element `x` of another kind such that no
more than `m` of the kind are as good as it, and so many of the others that they fill the rest of the first `n`. -/
def AtMost (key : α → K) (q : α → Bool) (all : List α) (n m : ℕ) : Prop :=
  all.countP q ≤ m ∨ n ≤ m ∨ ∃ x ∈ all, q x = false ∧ (all.countP fun y => q y && decide (key x ≤ key y)) ≤ m ∧
    n ≤ (all.countP fun y => !q y && decide (key x ≤ key y)) + m

/-- In every order the first `n` have `m` elements of a kind when `m` ones of the kind are so good that no more than
`n - m` others are as good as one of them. -/
theorem le_countP_take (h : Ranked key all l) {x : α} (hkind : m ≤ all.countP fun y => q y && decide (key x ≤ key y))
    (hothers : (all.countP fun y => !q y && decide (key x ≤ key y)) + m ≤ n) : m ≤ (l.take n).countP q := by
  by_contra hfew
  rw [← h.perm.countP_eq] at hkind hothers
  have hsplit := List.take_append_drop n l
  have hsorted := h.sorted
  rw [← hsplit, List.pairwise_append] at hsorted
  rw [← hsplit, List.countP_append] at hkind hothers
  -- one of them is behind the first `n`
  have hfirst : (l.take n).countP (fun y => q y && decide (key x ≤ key y)) ≤ (l.take n).countP q :=
    List.countP_mono_left fun y _ hy => (Bool.and_eq_true_iff.mp hy).1
  have hbehind : 0 < (l.drop n).countP fun y => q y && decide (key x ≤ key y) := by omega
  obtain ⟨y, hy, hgood⟩ := List.countP_pos_iff.mp hbehind
  have hle : key x ≤ key y := of_decide_eq_true (Bool.and_eq_true_iff.mp hgood).2
  have hfull : (l.take n).length = n := by
    have hpos := List.length_pos_of_mem hy
    rw [List.length_drop] at hpos
    rw [List.length_take]
    omega
  have hall : (l.take n).countP (fun y => !q y && decide (key x ≤ key y)) = (l.take n).countP fun y => !q y := by
    refine List.countP_congr fun z hz => ?_
    have hle' : key x ≤ key z := hle.trans (hsorted.2.2 z hz y hy)
    simp [hle']
  have hlen := length_eq_countP (l.take n) q
  omega

/-- **The first `n` have `m` elements of a kind in every order** exactly when `AtLeast`. -/
theorem le_countP_take_iff : (∀ l, Ranked key all l → m ≤ (l.take n).countP q) ↔ AtLeast key q all n m := by
  constructor
  · intro hall
    obtain ⟨l, hl, hlast⟩ := exists_ranked_last key q all
    cases m with
    | zero => exact Or.inl rfl
    | succ m =>
      obtain ⟨a, x, b, htake, hx, ha⟩ := exists_append_of_lt_countP (hall l hl)
      have hsplit : l = a ++ x :: (b ++ l.drop n) := by
        rw [← List.cons_append, ← List.append_assoc, ← htake, List.take_append_drop]
      have hroom : (l.take n).length ≤ n := List.length_take_le n l
      rw [htake, List.length_append, List.length_cons] at hroom
      have hsorted := hl.sorted
      rw [hsplit, List.pairwise_append, List.pairwise_cons] at hsorted hlast
      have hbefore : ∀ y ∈ a, key x ≤ key y := fun y hy => hsorted.2.2 y hy x List.mem_cons_self
      have hafter : ∀ y ∈ b ++ l.drop n, key x ≤ key y → q y = true := fun y hy hle =>
        hlast.2.1.1 y hy (le_antisymm hle (hsorted.2.1.1 y hy)) hx
      refine Or.inr ⟨x, hl.perm.mem_iff.mp ?_, hx, ?_, ?_⟩
      · rw [hsplit]
        exact List.mem_append_right a List.mem_cons_self
      · have hsame : a.countP (fun y => q y && decide (key x ≤ key y)) = a.countP q :=
          List.countP_congr fun y hy => by simp [hbefore y hy]
        rw [← hl.perm.countP_eq, hsplit, List.countP_append, hsame, ha, List.countP_cons_of_pos (by simp [hx])]
        omega
      · have hfew : a.countP (fun y => !q y && decide (key x ≤ key y)) ≤ a.countP fun y => !q y :=
          List.countP_mono_left fun y _ hy => (Bool.and_eq_true_iff.mp hy).1
        have hnone : (b ++ l.drop n).countP (fun y => !q y && decide (key x ≤ key y)) = 0 := by
          refine List.countP_eq_zero.mpr fun y hy h => ?_
          obtain ⟨hnot, hle⟩ := Bool.and_eq_true_iff.mp h
          rw [hafter y hy (of_decide_eq_true hle)] at hnot
          cases hnot
        have hlen := length_eq_countP a q
        rw [← hl.perm.countP_eq, hsplit, List.countP_append, List.countP_cons_of_neg (by simp [hx]), hnone]
        omega
  · rintro (rfl | ⟨x, -, -, hkind, hothers⟩) l hl
    · exact Nat.zero_le _
    · exact le_countP_take hl hkind hothers

/-- **The first `n` have no more than `m` elements of a kind in every order** exactly when `AtMost`. -/
theorem countP_take_le_iff : (∀ l, Ranked key all l → (l.take n).countP q ≤ m) ↔ AtMost key q all n m := by
  have hsum : ∀ l, Ranked key all l →
      min n all.length = (l.take n).countP q + (l.take n).countP fun y => !q y := by
    intro l hl
    rw [← length_eq_countP, List.length_take, hl.perm.length_eq]
  constructor
  · intro hall
    have hmany : ∀ l, Ranked key all l → min n all.length - m ≤ (l.take n).countP fun y => !q y := by
      intro l hl
      have hle := hall l hl
      have hlen := hsum l hl
      omega
    have hlen := length_eq_countP all q
    rcases le_countP_take_iff.mp hmany with hzero | ⟨x, hx, hkind, hgood, hroom⟩
    · by_cases hshort : n ≤ all.length
      · exact Or.inr (Or.inl (by omega))
      · exact Or.inl (by omega)
    · beta_reduce at hgood
      simp only [Bool.not_not] at hroom
      have hfew : (all.countP fun y => !q y && decide (key x ≤ key y)) ≤ all.countP fun y => !q y :=
        List.countP_mono_left fun y _ hy => (Bool.and_eq_true_iff.mp hy).1
      by_cases hmost : all.countP q ≤ m
      · exact Or.inl hmost
      · exact Or.inr (Or.inr ⟨x, hx, by simpa using hkind, by omega, by omega⟩)
  · rintro (hfew | hshort | ⟨x, -, -, hgood, hroom⟩) l hl
    · have hle := (List.take_sublist n l).countP_le (p := q)
      rw [hl.perm.countP_eq] at hle
      exact hle.trans hfew
    · exact (List.countP_le_length.trans (List.length_take_le n l)).trans hshort
    · have hlen := hsum l hl
      have hothers : n - m ≤ (l.take n).countP fun y => !q y := by
        by_cases hall : m ≤ n
        · refine le_countP_take (x := x) hl (by omega) ?_
          simp only [Bool.not_not]
          omega
        · omega
      omega

end Ranked

end DenseLite.Lib.Ranking
