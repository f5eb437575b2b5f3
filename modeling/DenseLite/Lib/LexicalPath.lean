import Mathlib.Data.List.Induction

/-! # Paths in lexical normal form

A path is a list of parts: empty parts and single dots, steps up, and names. Its normal form is a walk over the parts
on a stack of names (`Location.walk`). A walk from a directory is the directory joined with the normal form of the
parts alone (`walk_eq_join`), so it comes back to the directory if and only if the parts climb so many directories
and then name the same directories again (`walk_eq_self_iff`). -/

namespace DenseLite.Lib.LexicalPath

/-- A part of a path. -/
inductive PathPart (ν : Type*)
  | here | up | name (n : ν)
deriving DecidableEq

/-- The part is a name. -/
def PathPart.isName {ν : Type*} : PathPart ν → Bool
  | .name _ => true
  | _ => false

/-- A path in normal form: from the root or not, first steps up, then names. -/
structure Location (ν : Type*) where
  rooted : Bool
  ups : ℕ
  names : List ν
deriving DecidableEq

variable {ν : Type*}

/-- The location after a part. From the root no step leads up. -/
def Location.go (p : Location ν) : PathPart ν → Location ν
  | .here => p
  | .name n => { p with names := p.names ++ [n] }
  | .up =>
    match p.names with
    | [] => { p with ups := if p.rooted then p.ups else p.ups + 1 }
    | _ :: _ => { p with names := p.names.dropLast }

/-- The location after some parts. -/
def Location.walk (p : Location ν) (parts : List (PathPart ν)) : Location ν := parts.foldl Location.go p

/-- The normal form of parts alone. -/
def relative (parts : List (PathPart ν)) : Location ν := Location.walk ⟨false, 0, []⟩ parts

/-- A file or directory in a directory. -/
def Location.child (p : Location ν) (n : ν) : Location ν := { p with names := p.names ++ [n] }

/-- A path that goes on at a location: its steps up take the last names away. -/
def Location.join (p r : Location ν) : Location ν where
  rooted := p.rooted
  ups := if p.rooted then p.ups else p.ups + (r.ups - p.names.length)
  names := p.names.take (p.names.length - r.ups) ++ r.names

variable {p : Location ν} {parts : List (PathPart ν)} {n : ν}

@[simp] theorem walk_nil (p : Location ν) : p.walk [] = p := rfl

theorem walk_append (p : Location ν) (parts parts' : List (PathPart ν)) :
    p.walk (parts ++ parts') = (p.walk parts).walk parts' :=
  List.foldl_append

theorem walk_concat (p : Location ν) (parts : List (PathPart ν)) (q : PathPart ν) :
    p.walk (parts ++ [q]) = (p.walk parts).go q :=
  walk_append p parts [q]

theorem child_injective {p q : Location ν} {n m : ν} : p.child n = q.child m ↔ p = q ∧ n = m := by
  obtain ⟨rooted, ups, names⟩ := p
  obtain ⟨rooted', ups', names'⟩ := q
  simp only [Location.child, Location.mk.injEq]
  constructor
  · rintro ⟨rfl, rfl, hnames⟩
    obtain ⟨rfl, hlast⟩ := List.append_inj' hnames rfl
    exact ⟨⟨rfl, rfl, rfl⟩, List.singleton_inj.mp hlast⟩
  · rintro ⟨⟨rfl, rfl, rfl⟩, rfl⟩
    exact ⟨rfl, rfl, rfl⟩

theorem child_ne_self : p.child n ≠ p := by
  intro h
  have hlen := congrArg (fun q => q.names.length) h
  simp [Location.child] at hlen

@[simp] theorem rooted_go (p : Location ν) (q : PathPart ν) : (p.go q).rooted = p.rooted := by
  cases q with
  | here => rfl
  | name n => rfl
  | up =>
    unfold Location.go
    cases p.names with
    | nil => rfl
    | cons n rest => rfl

@[simp] theorem rooted_walk (p : Location ν) (parts : List (PathPart ν)) : (p.walk parts).rooted = p.rooted := by
  induction parts using List.reverseRecOn with
  | nil => rfl
  | append_singleton parts q ih => rw [walk_concat, rooted_go, ih]

@[simp] theorem rooted_relative (parts : List (PathPart ν)) : (relative parts).rooted = false :=
  rooted_walk _ parts

/-- One more part of the path that goes on is one more part of the whole. -/
theorem join_go (p : Location ν) {r : Location ν} (hr : r.rooted = false) (q : PathPart ν) :
    p.join (r.go q) = (p.join r).go q := by
  obtain ⟨rooted, ups, names⟩ := p
  obtain ⟨rooted', ups', names'⟩ := r
  subst hr
  cases q with
  | here => rfl
  | name n => simp [Location.go, Location.join]
  | up =>
    cases names' with
    | cons n rest =>
      have hne : names.take (names.length - ups') ++ n :: rest ≠ [] := by simp
      obtain ⟨a, l, hl⟩ := List.exists_cons_of_ne_nil hne
      simp only [Location.go, Location.join, hl]
      rw [← hl, List.dropLast_append_of_ne_nil (List.cons_ne_nil n rest)]
    | nil =>
      rcases Nat.lt_or_ge ups' names.length with hlt | hge
      · -- a name of the first location is taken away
        obtain ⟨k, hk⟩ : ∃ k, names.length - ups' = k + 1 := ⟨names.length - ups' - 1, by omega⟩
        have hne : names.take (k + 1) ≠ [] := by
          rw [Ne, List.take_eq_nil_iff]
          rintro (h | h)
          · omega
          · rw [h] at hlt
            simp at hlt
        obtain ⟨a, rest, htake⟩ := List.exists_cons_of_ne_nil hne
        have hdrop : (names.take (k + 1)).dropLast = names.take k := by
          rw [List.dropLast_eq_take, List.length_take, List.take_take]
          congr 1
          omega
        have hk' : names.length - (ups' + 1) = k := by omega
        have hups : ups' - names.length = 0 := by omega
        have hups' : ups' + 1 - names.length = 0 := by omega
        simp only [Location.go, Location.join, hk, hk', hups, hups', List.append_nil, htake, Bool.false_eq_true,
          if_false]
        rw [← htake, hdrop]
      · -- all names are gone already
        have hk : names.length - ups' = 0 := by omega
        have hk' : names.length - (ups' + 1) = 0 := by omega
        cases rooted with
        | true => simp [Location.go, Location.join, hk, hk']
        | false =>
          simp only [Location.go, Location.join, hk, hk', List.take_zero, List.nil_append, Bool.false_eq_true,
            if_false, Location.mk.injEq, and_true, true_and]
          omega

/-- **A walk from a location** is the location joined with the normal form of the parts. -/
theorem walk_eq_join (p : Location ν) (parts : List (PathPart ν)) : p.walk parts = p.join (relative parts) := by
  induction parts using List.reverseRecOn with
  | nil =>
    obtain ⟨rooted, ups, names⟩ := p
    simp [relative, Location.walk, Location.join]
  | append_singleton parts q ih =>
    have hrel : relative (parts ++ [q]) = (relative parts).go q := walk_concat _ parts q
    rw [walk_concat, ih, hrel, join_go p (rooted_relative parts)]

/-- **A walk comes back** if and only if it climbs so many directories and then names the same ones again. -/
theorem walk_eq_self_iff : p.walk parts = p ↔
    (p.rooted = true ∨ (relative parts).ups ≤ p.names.length) ∧
      (relative parts).names = p.names.drop (p.names.length - (relative parts).ups) := by
  rw [walk_eq_join]
  generalize relative parts = r
  obtain ⟨rooted, ups, names⟩ := p
  have hnames : names.take (names.length - r.ups) ++ r.names = names ↔
      r.names = names.drop (names.length - r.ups) := by
    constructor
    · intro h
      exact List.append_cancel_left (h.trans (List.take_append_drop (names.length - r.ups) names).symm)
    · intro h
      rw [h, List.take_append_drop]
  simp only [Location.join, Location.mk.injEq, true_and, hnames]
  refine and_congr_left fun _ => ?_
  cases rooted with
  | true => simp
  | false =>
    simp only [Bool.false_eq_true, if_false, false_or]
    omega

end DenseLite.Lib.LexicalPath
