import Mathlib.Data.List.Perm.Basic
import Mathlib.Tactic.Common

/-! # Traversals

Forests that are traversed depth first: the trees of the forest one after the other, and the entries of a node in any
order. `Yields` are the orders in which the leaves of a tree may come. All of them have the same leaves (`Yields.perm`),
and every leaf comes first in one of them (`exists_yields_cons`). -/

namespace DenseLite.Lib.Traversal

variable {α : Type*}

/-- A tree, which is a leaf or has entries. -/
inductive RoseTree (α : Type*)
  | leaf (a : α)
  | node (entries : List (RoseTree α))

mutual

/-- The leaves of a tree. -/
def RoseTree.leaves : RoseTree α → List α
  | .leaf a => [a]
  | .node entries => leavesAll entries

/-- The leaves of a forest. -/
def leavesAll : List (RoseTree α) → List α
  | [] => []
  | t :: ts => t.leaves ++ leavesAll ts

end

mutual

/-- The leaves of the tree may come in this order. -/
inductive Yields : RoseTree α → List α → Prop
  | leaf (a : α) : Yields (.leaf a) [a]
  | node {entries order : List (RoseTree α)} {l : List α} (h : order.Perm entries) (hl : YieldsAll order l) :
    Yields (.node entries) l

/-- The leaves of the forest may come in this order, tree after tree. -/
inductive YieldsAll : List (RoseTree α) → List α → Prop
  | nil : YieldsAll [] []
  | cons {t : RoseTree α} {ts : List (RoseTree α)} {l l' : List α} (h : Yields t l) (hs : YieldsAll ts l') :
    YieldsAll (t :: ts) (l ++ l')

end

variable {a : α} {t : RoseTree α} {ts ts' : List (RoseTree α)} {l l' : List α}

/-! ### Leaves -/

theorem leavesAll_append : leavesAll (ts ++ ts') = leavesAll ts ++ leavesAll ts' := by
  induction ts with
  | nil => rfl
  | cons t ts ih => rw [List.cons_append, leavesAll, leavesAll, ih, List.append_assoc]

theorem leavesAll_perm (h : ts.Perm ts') : (leavesAll ts).Perm (leavesAll ts') := by
  induction h with
  | nil => exact List.Perm.refl _
  | cons t _ ih => exact ih.append_left t.leaves
  | swap t t' ts =>
    simp only [leavesAll]
    exact List.perm_append_comm_assoc _ _ _
  | trans _ _ ih ih' => exact ih.trans ih'

mutual

theorem Yields.perm : ∀ {t : RoseTree α} {l : List α}, Yields t l → l.Perm t.leaves
  | _, _, .leaf _ => List.Perm.refl _
  | _, _, .node h hl => hl.perm.trans (leavesAll_perm h)

theorem YieldsAll.perm : ∀ {ts : List (RoseTree α)} {l : List α}, YieldsAll ts l → l.Perm (leavesAll ts)
  | _, _, .nil => List.Perm.refl _
  | _, _, .cons h hs => h.perm.append hs.perm

end

/-! ### Orders -/

mutual

/-- The entries may come in their order. -/
theorem yields_leaves : ∀ t : RoseTree α, Yields t t.leaves
  | .leaf a => .leaf a
  | .node entries => .node (List.Perm.refl entries) (yieldsAll_leavesAll entries)

theorem yieldsAll_leavesAll : ∀ ts : List (RoseTree α), YieldsAll ts (leavesAll ts)
  | [] => .nil
  | t :: ts => .cons (yields_leaves t) (yieldsAll_leavesAll ts)

end

theorem YieldsAll.append (h : YieldsAll ts l) (h' : YieldsAll ts' l') : YieldsAll (ts ++ ts') (l ++ l') := by
  induction ts generalizing l with
  | nil =>
    cases h
    exact h'
  | cons t ts ih =>
    cases h with
    | cons ht hs =>
      rw [List.append_assoc]
      exact .cons ht (ih hs)

mutual

/-- **Every leaf may come first.** -/
theorem exists_yields_cons : ∀ {t : RoseTree α}, a ∈ t.leaves → ∃ rest, Yields t (a :: rest)
  | .leaf b, h => by
    rw [List.mem_singleton.mp h]
    exact ⟨[], .leaf b⟩
  | .node entries, h => by
    -- the entry of the leaf is visited first
    obtain ⟨before, t, after, rest, rfl, ht⟩ := exists_entry_yields_cons h
    exact ⟨rest ++ leavesAll (before ++ after), .node List.perm_middle.symm (.cons ht (yieldsAll_leavesAll _))⟩

theorem exists_entry_yields_cons : ∀ {ts : List (RoseTree α)}, a ∈ leavesAll ts →
    ∃ before t after rest, ts = before ++ t :: after ∧ Yields t (a :: rest)
  | t :: ts, h => by
    rcases List.mem_append.mp h with h | h
    · obtain ⟨rest, ht⟩ := exists_yields_cons h
      exact ⟨[], t, ts, rest, rfl, ht⟩
    · obtain ⟨before, t', after, rest, rfl, ht'⟩ := exists_entry_yields_cons h
      exact ⟨t :: before, t', after, rest, rfl, ht'⟩

end

end DenseLite.Lib.Traversal
