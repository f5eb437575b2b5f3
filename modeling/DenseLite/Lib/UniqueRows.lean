import Mathlib.Data.List.Pairwise
import Mathlib.Tactic.Common

/-! # Rows with unique columns

`INSERT OR REPLACE` takes away every row that clashes with the new one, whichever of the unique columns it clashes in.
Rows without a clash stay without one (`pairwise_insertOrReplace`), and a row is lost exactly when it clashes with the
new row (`mem_insertOrReplace`). Of rows inserted one after another and ignored where they clash, those are kept that
clash with no row before them (`mem_insertAll`). -/

namespace DenseLite.Lib.UniqueRows

variable {α : Type*} (clash : α → α → Prop) [DecidableRel clash]

/-- `INSERT OR REPLACE`. -/
def insertOrReplace (r : α) (rows : List α) : List α := r :: rows.filter fun x => ¬ clash r x

/-- `INSERT OR IGNORE`. -/
def insertOrIgnore (r : α) (rows : List α) : List α := if ∃ x ∈ rows, clash r x then rows else r :: rows

variable {clash} {r x : α} {rows : List α}

theorem mem_insertOrReplace : x ∈ insertOrReplace clash r rows ↔ x = r ∨ x ∈ rows ∧ ¬ clash r x := by
  simp [insertOrReplace]

theorem mem_insertOrReplace_self : r ∈ insertOrReplace clash r rows := List.mem_cons_self

theorem pairwise_insertOrReplace (h : rows.Pairwise fun x y => ¬ clash x y) :
    (insertOrReplace clash r rows).Pairwise fun x y => ¬ clash x y := by
  refine List.pairwise_cons.mpr ⟨fun x hx => ?_, h.sublist List.filter_sublist⟩
  simpa using (List.mem_filter.mp hx).2

theorem pairwise_insertOrIgnore (h : rows.Pairwise fun x y => ¬ clash x y) :
    (insertOrIgnore clash r rows).Pairwise fun x y => ¬ clash x y := by
  unfold insertOrIgnore
  split_ifs with hclash
  · exact h
  · exact List.pairwise_cons.mpr ⟨fun x hx hc => hclash ⟨x, hx, hc⟩, h⟩

theorem mem_insertOrIgnore : x ∈ insertOrIgnore clash r rows ↔ x ∈ rows ∨ x = r ∧ ∀ y ∈ rows, ¬ clash r y := by
  unfold insertOrIgnore
  split_ifs with hclash
  · exact ⟨.inl, fun h => h.elim id fun ⟨_, hno⟩ => absurd hclash fun ⟨y, hy, hc⟩ => hno y hy hc⟩
  · rw [List.mem_cons, or_comm]
    exact or_congr_right ⟨fun h => ⟨h, fun y hy hc => hclash ⟨y, hy, hc⟩⟩, And.left⟩

variable (clash) in
/-- The rows after an `INSERT OR IGNORE` of each of the new rows. -/
def insertAll (rows : List α) (news : List α) : List α :=
  news.foldl (fun rows r => insertOrIgnore clash r rows) rows

variable (clash) in
/-- The row is in the list, with no row before it that it clashes with. -/
def FirstIn (x : α) (news : List α) : Prop := ∃ earlier later, news = earlier ++ x :: later ∧ ∀ y ∈ earlier, ¬ clash x y

omit [DecidableRel clash] in
theorem firstIn_cons {news : List α} :
    FirstIn clash x (r :: news) ↔ x = r ∨ ¬ clash x r ∧ FirstIn clash x news := by
  constructor
  · rintro ⟨_ | ⟨y, earlier⟩, later, heq, hno⟩
    · exact .inl (List.cons.inj heq).1.symm
    · obtain ⟨rfl, rfl⟩ := List.cons.inj heq
      exact .inr ⟨hno r List.mem_cons_self, earlier, later, rfl, fun y hy => hno y (List.mem_cons_of_mem _ hy)⟩
  · rintro (rfl | ⟨hr, earlier, later, rfl, hno⟩)
    · exact ⟨[], news, rfl, by simp⟩
    · exact ⟨r :: earlier, later, rfl, List.forall_mem_cons.mpr ⟨hr, hno⟩⟩

omit [DecidableRel clash] in
theorem FirstIn.mem {news : List α} (h : FirstIn clash x news) : x ∈ news := by
  obtain ⟨earlier, later, rfl, -⟩ := h
  simp

theorem pairwise_insertAll {news : List α} (h : rows.Pairwise fun x y => ¬ clash x y) :
    (insertAll clash rows news).Pairwise fun x y => ¬ clash x y := by
  induction news generalizing rows with
  | nil => exact h
  | cons r news ih => exact ih (pairwise_insertOrIgnore h)

theorem mem_insertAll {news : List α} (heq : Equivalence clash) :
    x ∈ insertAll clash rows news ↔ x ∈ rows ∨ (∀ y ∈ rows, ¬ clash x y) ∧ FirstIn clash x news := by
  induction news generalizing rows with
  | nil => simp [insertAll, FirstIn]
  | cons r news ih =>
    have hstep : insertAll clash rows (r :: news) = insertAll clash (insertOrIgnore clash r rows) news := rfl
    rw [hstep, ih, mem_insertOrIgnore, firstIn_cons]
    constructor
    · rintro ((hx | ⟨rfl, hno⟩) | ⟨hno, hfirst⟩)
      · exact .inl hx
      · exact .inr ⟨hno, .inl rfl⟩
      · refine .inr ⟨fun y hy => hno y (mem_insertOrIgnore.mpr (.inl hy)), .inr ⟨fun hc => ?_, hfirst⟩⟩
        -- `r` was ignored for a row that clashes with `x` as well
        by_cases hr : ∀ y ∈ rows, ¬ clash r y
        · exact hno r (mem_insertOrIgnore.mpr (.inr ⟨rfl, hr⟩)) hc
        · push Not at hr
          obtain ⟨y, hy, hry⟩ := hr
          exact hno y (mem_insertOrIgnore.mpr (.inl hy)) (heq.trans hc hry)
    · rintro (hx | ⟨hno, rfl | ⟨hr, hfirst⟩⟩)
      · exact .inl (.inl hx)
      · exact .inl (.inr ⟨rfl, hno⟩)
      · refine .inr ⟨fun y hy => ?_, hfirst⟩
        rcases mem_insertOrIgnore.mp hy with hy | ⟨rfl, -⟩
        · exact hno y hy
        · exact hr

/-- A key of the new rows is there afterwards. -/
theorem exists_firstIn {news : List α} (heq : Equivalence clash) (hx : x ∈ news) :
    ∃ y, FirstIn clash y news ∧ clash x y := by
  induction news with
  | nil => simp at hx
  | cons r news ih =>
    by_cases hc : clash x r
    · exact ⟨r, firstIn_cons.mpr (.inl rfl), hc⟩
    · have hmem : x ∈ news := (List.mem_cons.mp hx).resolve_left fun h => hc (h ▸ heq.refl x)
      obtain ⟨y, hy, hxy⟩ := ih hmem
      exact ⟨y, firstIn_cons.mpr (.inr ⟨fun h => hc (heq.trans hxy h), hy⟩), hxy⟩

end DenseLite.Lib.UniqueRows
