import Mathlib.Order.Basic
import Mathlib.Data.List.Basic

/-! # Outlines

The entries of a walk over a tree, in the order in which they are met: each entry covers a range and names the entry that
it belongs to. In an outline (`Outlined`) that is the innermost entry around it. Outlines that follow each other form an
outline, and an outline may be put under an entry around it. -/

namespace DenseLite.Lib.Outline

variable {α β : Type*} [Preorder α]

/-- A range with a name, and the name of what is around it. -/
structure Entry (α β : Type*) where
  first : α
  last : α
  name : β
  parent : β

/-- The range lies in the range of the other entry. -/
def Entry.Inside (x outer : Entry α β) : Prop := outer.first ≤ x.first ∧ x.last ≤ outer.last

/-- The entry ends before the other one begins. -/
def Entry.Before (x y : Entry α β) : Prop := x.last ≤ y.first

/-- An entry belongs to one that was met before, that lies around it, and after which only entries were met that end
before it begins; or all that was met before ends before it begins, and it belongs to what is around all entries. -/
def Outlined (parent : β) (xs : List (Entry α β)) : Prop :=
  ∀ before x after, xs = before ++ x :: after →
    (x.parent = parent ∧ ∀ y ∈ before, y.Before x) ∨
    ∃ earlier outer between, before = earlier ++ outer :: between ∧ x.parent = outer.name ∧ x.Inside outer ∧
      ∀ y ∈ between, y.Before x

namespace Outlined

variable {parent : β} {xs ys : List (Entry α β)} {e : Entry α β}

theorem nil : Outlined parent ([] : List (Entry α β)) := by
  intro before x after h
  simp at h

/-- Outlines that follow each other. -/
theorem append (hx : Outlined parent xs) (hy : Outlined parent ys) (h : ∀ x ∈ xs, ∀ y ∈ ys, x.Before y) :
    Outlined parent (xs ++ ys) := by
  intro before x after heq
  rcases List.append_eq_append_iff.mp heq with ⟨rest, rfl, hrest⟩ | ⟨rest, rfl, hrest⟩
  · have hmem : x ∈ ys := by simp [hrest]
    rcases hy rest x after hrest with ⟨hparent, hbefore⟩ | ⟨earlier, outer, between, rfl, hinner⟩
    · refine .inl ⟨hparent, fun y hy => ?_⟩
      rcases List.mem_append.mp hy with hy | hy
      · exact h y hy x hmem
      · exact hbefore y hy
    · exact .inr ⟨xs ++ earlier, outer, between, by rw [List.append_assoc], hinner⟩
  · cases rest with
    | nil =>
      have hhead : ys = [] ++ x :: after := hrest.symm
      have hmem : x ∈ ys := by simp [hhead]
      rcases hy [] x after hhead with ⟨hparent, -⟩ | ⟨earlier, outer, between, hnil, -⟩
      · rw [List.append_nil] at h
        exact .inl ⟨hparent, fun y hy => h y hy x hmem⟩
      · simp at hnil
    | cons x' rest =>
      obtain ⟨rfl, rfl⟩ := List.cons.inj hrest
      exact hx before x rest rfl

/-- An outline under an entry. -/
theorem cons (hparent : e.parent = parent) (h : Outlined e.name xs) (hinside : ∀ x ∈ xs, x.Inside e) :
    Outlined parent (e :: xs) := by
  intro before x after heq
  cases before with
  | nil =>
    obtain ⟨rfl, -⟩ := List.cons.inj heq
    exact .inl ⟨hparent, by simp⟩
  | cons e' before =>
    obtain ⟨rfl, rfl⟩ := List.cons.inj heq
    rcases h before x after rfl with ⟨hname, hbefore⟩ | ⟨earlier, outer, between, rfl, hinner⟩
    · exact .inr ⟨[], e, before, rfl, hname, hinside x (by simp), hbefore⟩
    · exact .inr ⟨e :: earlier, outer, between, rfl, hinner⟩

end Outlined

end DenseLite.Lib.Outline
