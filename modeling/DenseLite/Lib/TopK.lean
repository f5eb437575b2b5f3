import Mathlib.Data.List.Sort
import Mathlib.Order.Basic

/-! # The best `k`

A bounded queue keeps the best `k` elements of a sequence: the smallest one is at its front, and gives way to a new
element with a greater key. What is kept has `k` elements or all, and nothing that was dropped has a greater key than
anything kept (`best_foldl`), whatever the order of elements with equal keys. -/

namespace DenseLite.Lib.TopK

variable {α K : Type*} [LinearOrder α] [LinearOrder K]

/-- A new element, for a queue of at most `k` elements with the smallest one first. -/
def push (key : α → K) (k : ℕ) (queue : List α) (a : α) : List α :=
  if queue.length < k then queue.orderedInsert (· ≤ ·) a
  else
    match queue with
    | [] => []
    | m :: rest => if key m < key a then rest.orderedInsert (· ≤ ·) a else m :: rest

/-- The queue keeps the best `k` of the elements seen. -/
structure Best (key : α → K) (k : ℕ) (seen queue : List α) : Prop where
  sorted : queue.Pairwise (· ≤ ·)
  length : queue.length = min k seen.length
  dropped : ∃ rest, seen.Perm (queue ++ rest) ∧ ∀ x ∈ rest, ∀ y ∈ queue, key x ≤ key y

section Best

variable {key : α → K} {k : ℕ} {seen queue : List α}

theorem best_nil : Best key k [] [] := ⟨.nil, by simp, [], .nil, by simp⟩

theorem Best.mem (h : Best key k seen queue) {y : α} (hy : y ∈ queue) : y ∈ seen := by
  obtain ⟨rest, hperm, -⟩ := h.dropped
  exact hperm.mem_iff.mpr (List.mem_append_left rest hy)

/-- What is kept has no more repetitions than what was seen. -/
theorem Best.nodup_map (h : Best key k seen queue) {β : Type*} {f : α → β} (hseen : (seen.map f).Nodup) :
    (queue.map f).Nodup := by
  obtain ⟨rest, hperm, -⟩ := h.dropped
  have hboth := (hperm.map f).nodup_iff.mp hseen
  rw [List.map_append] at hboth
  exact (List.nodup_append.mp hboth).1

/-- What is not kept has no greater key than what is. -/
theorem Best.key_le (h : Best key k seen queue) {x y : α} (hx : x ∈ seen) (hnot : x ∉ queue) (hy : y ∈ queue) :
    key x ≤ key y := by
  obtain ⟨rest, hperm, hrest⟩ := h.dropped
  rcases List.mem_append.mp (hperm.mem_iff.mp hx) with hin | hin
  · exact absurd hin hnot
  · exact hrest x hin y hy

/-- One element more. -/
theorem Best.push (hkey : Monotone key) (h : Best key k seen queue) (a : α) :
    Best key k (seen ++ [a]) (push key k queue a) := by
  obtain ⟨rest, hperm, hrest⟩ := h.dropped
  have hlen := h.length
  have hsplit := hperm.length_eq
  rw [List.length_append] at hsplit
  unfold TopK.push
  split_ifs with hroom
  · -- there is room, so nothing was dropped yet
    have hnone : rest = [] := List.eq_nil_of_length_eq_zero (by omega)
    subst hnone
    rw [List.append_nil] at hperm
    refine ⟨h.sorted.orderedInsert a _, ?_, [], ?_, by simp⟩
    · rw [List.orderedInsert_length, List.length_append, List.length_singleton]
      omega
    · rw [List.append_nil]
      exact ((List.perm_append_singleton a seen).trans (hperm.cons a)).trans (List.perm_orderedInsert _ a queue).symm
  · cases queue with
    | nil =>
      -- a queue without room is empty for `k = 0` alone
      refine ⟨.nil, ?_, seen ++ [a], .refl _, by simp⟩
      rw [List.length_nil] at hroom
      show 0 = min k (seen ++ [a]).length
      omega
    | cons m queue =>
      obtain ⟨hmin, hsorted⟩ := List.pairwise_cons.mp h.sorted
      rw [List.length_cons] at hlen hsplit hroom
      have hseen : (seen ++ [a]).length = seen.length + 1 := by rw [List.length_append, List.length_singleton]
      dsimp only
      split_ifs with hgreater
      · -- the smallest one gives way
        refine ⟨hsorted.orderedInsert a _, ?_, m :: rest, ?_, fun x hx y hy => ?_⟩
        · rw [List.orderedInsert_length, hseen]
          omega
        · have hfront : (m :: queue ++ rest).Perm (queue ++ m :: rest) := List.perm_middle.symm
          have hinsert := (List.perm_orderedInsert (· ≤ ·) a queue).symm.append_right (m :: rest)
          exact ((List.perm_append_singleton a seen).trans ((hperm.trans hfront).cons a)).trans hinsert
        · have hle : key m ≤ key y := by
            rcases (List.mem_orderedInsert _).mp hy with rfl | hy
            · exact hgreater.le
            · exact hkey (hmin y hy)
          rcases List.mem_cons.mp hx with rfl | hx
          · exact hle
          · exact (hrest x hx m List.mem_cons_self).trans hle
      · refine ⟨h.sorted, ?_, rest ++ [a], ?_, fun x hx y hy => ?_⟩
        · rw [List.length_cons, hseen]
          omega
        · rw [← List.append_assoc]
          exact hperm.append_right [a]
        · rcases List.mem_append.mp hx with hx | hx
          · exact hrest x hx y hy
          · have hfirst : key m ≤ key y := by
              rcases List.mem_cons.mp hy with rfl | hy
              · exact le_rfl
              · exact hkey (hmin y hy)
            rw [List.mem_singleton.mp hx]
            exact (not_lt.mp hgreater).trans hfirst

/-- **All elements, one after the other.** -/
theorem best_foldl (hkey : Monotone key) : ∀ (l : List α) {seen queue : List α}, Best key k seen queue →
    Best key k (seen ++ l) (l.foldl (TopK.push key k) queue)
  | [], _, _, h => by
    rw [List.append_nil]
    exact h
  | a :: l, seen, queue, h => by
    have hrest := best_foldl hkey l (h.push hkey a)
    rwa [List.append_assoc] at hrest

end Best

end DenseLite.Lib.TopK
