import Mathlib.Data.List.Basic

/-! # Maximal munch

A dictionary gives some words a label. A text is cut into words of the dictionary from its front: the longest
word that the text begins with is taken, and a letter that begins no word is left out (`munch`). A scan that goes
over a text once and keeps the best word so far finds the longest one (`scan_eq`), so a tokenizer that walks along a
trie is right as soon as its trie has the words of the dictionary. -/

namespace DenseLite.Lib.Munch

variable {α ι κ : Type*}

/-! ### The longest word -/

/-- The longest word of at most `n` letters that a text begins with: its label and its length. The empty word is
no candidate. -/
def longestUpTo (dict : List α → Option ι) (l : List α) : ℕ → Option (ι × ℕ)
  | 0 => none
  | n + 1 =>
    match dict (l.take (n + 1)) with
    | some i => some (i, n + 1)
    | none => longestUpTo dict l n

/-- The longest word that a text begins with. -/
def longest (dict : List α → Option ι) (l : List α) : Option (ι × ℕ) := longestUpTo dict l l.length

section Longest

variable {dict : List α → Option ι} {l : List α} {i : ι} {n k : ℕ}

theorem longestUpTo_eq_some_iff : longestUpTo dict l n = some (i, k) ↔
    0 < k ∧ k ≤ n ∧ dict (l.take k) = some i ∧ ∀ m, k < m → m ≤ n → dict (l.take m) = none := by
  induction n with
  | zero =>
    refine iff_of_false (by simp [longestUpTo]) fun h => ?_
    omega
  | succ n ih =>
    unfold longestUpTo
    cases hd : dict (l.take (n + 1)) with
    | some j =>
      constructor
      · intro h
        obtain ⟨rfl, rfl⟩ : j = i ∧ n + 1 = k := by simpa using h
        exact ⟨by omega, (Nat.le_refl _), hd, fun m _ _ => by omega⟩
      · rintro ⟨_, hle, hk, hmax⟩
        have hkn : k = n + 1 := by
          by_contra hne
          have hnone := hmax (n + 1) (by omega) (Nat.le_refl _)
          rw [hd] at hnone
          simp at hnone
        subst hkn
        rw [hd] at hk
        simp [Option.some_inj.mp hk]
    | none =>
      rw [show (match (none : Option ι) with
        | some j => some (j, n + 1)
        | none => longestUpTo dict l n) = longestUpTo dict l n from rfl, ih]
      constructor
      · rintro ⟨hpos, hle, hk, hmax⟩
        refine ⟨hpos, by omega, hk, fun m hlt hm => ?_⟩
        rcases Nat.lt_or_ge n m with h | h
        · rw [show m = n + 1 by omega]
          exact hd
        · exact hmax m hlt h
      · rintro ⟨hpos, hle, hk, hmax⟩
        have hne : k ≠ n + 1 := by
          rintro rfl
          rw [hd] at hk
          simp at hk
        exact ⟨hpos, by omega, hk, fun m hlt hm => hmax m hlt (by omega)⟩

theorem longest_pos (h : longest dict l = some (i, k)) : 0 < k := (longestUpTo_eq_some_iff.mp h).1

/-- The longest word is all of the text, where that is a word. -/
theorem longest_of_word {i : ι} (hne : l ≠ []) (h : dict l = some i) : longest dict l = some (i, l.length) := by
  refine longestUpTo_eq_some_iff.mpr ⟨List.length_pos_iff.mpr hne, (Nat.le_refl _), ?_, fun m hlt hm => ?_⟩
  · rw [List.take_length]
    exact h
  · omega

end Longest

/-- The words of a dictionary that go on after a letter. -/
def after (dict : List α → Option ι) (a : α) : List α → Option ι := fun w => dict (a :: w)

theorem longestUpTo_cons (dict : List α → Option ι) (a : α) (l : List α) : ∀ n,
    longestUpTo dict (a :: l) (n + 1) =
      ((longestUpTo (after dict a) l n).map fun p => (p.1, p.2 + 1)).or ((dict [a]).map fun i => (i, 1))
  | 0 => by
    cases hd : dict [a] with
    | none => simp [longestUpTo, hd]
    | some i => simp [longestUpTo, hd]
  | n + 1 => by
    have ih := longestUpTo_cons dict a l n
    unfold longestUpTo
    rw [List.take_succ_cons, show after dict a (l.take (n + 1)) = dict (a :: l.take (n + 1)) from rfl, ih]
    cases dict (a :: l.take (n + 1)) with
    | none => rfl
    | some i => rfl

/-- The longest word after one letter: it goes on, or it is the letter. -/
theorem longest_cons (dict : List α → Option ι) (a : α) (l : List α) :
    longest dict (a :: l) =
      ((longest (after dict a) l).map fun p => (p.1, p.2 + 1)).or ((dict [a]).map fun i => (i, 1)) :=
  longestUpTo_cons dict a l l.length

/-! ### One scan -/

/-- A scan of a text that has gone over `len` letters, with the best word so far. -/
def scan : (List α → Option ι) → ℕ → Option (ι × ℕ) → List α → Option (ι × ℕ)
  | _, _, best, [] => best
  | dict, len, best, a :: l => scan (after dict a) (len + 1) (((dict [a]).map fun i => (i, len + 1)).or best) l

theorem scan_eq_or (l : List α) : ∀ (dict : List α → Option ι) (len : ℕ) (best : Option (ι × ℕ)),
    scan dict len best l = ((longest dict l).map fun p => (p.1, len + p.2)).or best := by
  induction l with
  | nil => intro dict len best; rfl
  | cons a l ih =>
    intro dict len best
    unfold scan
    rw [ih, longest_cons]
    cases longest (after dict a) l with
    | some p => simp [Nat.add_assoc, Nat.add_comm 1]
    | none =>
      cases dict [a] with
      | some i => rfl
      | none => rfl

/-- **One scan finds the longest word.** -/
theorem scan_eq (dict : List α → Option ι) (l : List α) : scan dict 0 none l = longest dict l := by
  rw [scan_eq_or, Option.or_none]
  simp

/-- Nothing is found where there are no words. -/
theorem scan_none (l : List α) : ∀ (len : ℕ) (best : Option (ι × ℕ)), scan (fun _ => none) len best l = best := by
  induction l with
  | nil => intro len best; rfl
  | cons a l ih => intro len best; exact ih (len + 1) best

/-! ### The words of a text -/

/-- The labels of the words that a text is cut into. -/
def munch (dict : List α → Option ι) (l : List α) : List ι :=
  match _hlong : longest dict l with
  | some (i, k) => i :: munch dict (l.drop k)
  | none =>
    match l with
    | [] => []
    | _ :: rest => munch dict rest
termination_by l.length
decreasing_by
  · have hspec := longestUpTo_eq_some_iff.mp _hlong
    rw [List.length_drop]
    omega
  · simp

variable {dict : List α → Option ι}

@[simp] theorem munch_nil : munch dict [] = [] := by
  unfold munch
  rfl

theorem munch_of_some {l : List α} {i : ι} {k : ℕ} (h : longest dict l = some (i, k)) :
    munch dict l = i :: munch dict (l.drop k) := by
  rw [munch]
  split
  · next j m hjm =>
    rw [h] at hjm
    obtain ⟨rfl, rfl⟩ : i = j ∧ k = m := by simpa using hjm
    rfl
  · next hnone =>
    rw [h] at hnone
    simp at hnone

theorem munch_of_none {a : α} {l : List α} (h : longest dict (a :: l) = none) :
    munch dict (a :: l) = munch dict l := by
  rw [munch]
  split
  · next j m hjm =>
    rw [h] at hjm
    simp at hjm
  · rfl

/-- A word is one word of itself. -/
theorem munch_of_word {l : List α} {i : ι} (hne : l ≠ []) (h : dict l = some i) : munch dict l = [i] := by
  rw [munch_of_some (longest_of_word hne h), List.drop_length, munch_nil]

/-! ### What is left out -/

/-- The letters that `munch` leaves out. -/
def skipped (dict : List α → Option ι) (l : List α) : List α :=
  match _hlong : longest dict l with
  | some (_, k) => skipped dict (l.drop k)
  | none =>
    match l with
    | [] => []
    | a :: rest => a :: skipped dict rest
termination_by l.length
decreasing_by
  · have hspec := longestUpTo_eq_some_iff.mp _hlong
    rw [List.length_drop]
    omega
  · simp

@[simp] theorem skipped_nil : skipped dict [] = [] := by
  unfold skipped
  rfl

theorem skipped_of_some {l : List α} {i : ι} {k : ℕ} (h : longest dict l = some (i, k)) :
    skipped dict l = skipped dict (l.drop k) := by
  rw [skipped]
  split
  · next j m hjm =>
    rw [h] at hjm
    obtain ⟨rfl, rfl⟩ : i = j ∧ k = m := by simpa using hjm
    rfl
  · next hnone =>
    rw [h] at hnone
    simp at hnone

theorem skipped_of_none {a : α} {l : List α} (h : longest dict (a :: l) = none) :
    skipped dict (a :: l) = a :: skipped dict l := by
  rw [skipped]
  split
  · next j m hjm =>
    rw [h] at hjm
    simp at hjm
  · rfl

/-- A text is these words one after the other, each the longest that the rest begins with. -/
inductive Cuts (dict : List α → Option ι) : List α → List (List α) → Prop
  | nil : Cuts dict [] []
  | cons {w l : List α} {ws : List (List α)} {i : ι} (h : longest dict (w ++ l) = some (i, w.length))
      (rest : Cuts dict l ws) : Cuts dict (w ++ l) (w :: ws)

theorem cuts_cons_iff {l w : List α} {ws : List (List α)} : Cuts dict l (w :: ws) ↔
    ∃ l', l = w ++ l' ∧ (∃ i, longest dict (w ++ l') = some (i, w.length)) ∧ Cuts dict l' ws := by
  constructor
  · rintro (_ | ⟨h, rest⟩)
    exact ⟨_, rfl, ⟨_, h⟩, rest⟩
  · rintro ⟨l', rfl, ⟨i, h⟩, rest⟩
    exact .cons h rest

/-- The longest word is a word. -/
theorem word_of_longest {w l : List α} {i : ι} (h : longest dict (w ++ l) = some (i, w.length)) :
    dict w = some i := by
  have hword := (longestUpTo_eq_some_iff.mp h).2.2.1
  rwa [List.take_left' rfl] at hword

theorem Cuts.flatten_eq {l : List α} {ws : List (List α)} (h : Cuts dict l ws) : ws.flatten = l := by
  induction h with
  | nil => rfl
  | cons _ _ ih => rw [List.flatten_cons, ih]

/-- A text that is cut into words is cut into these by `munch`, and nothing is left out. -/
theorem Cuts.spec {l : List α} {ws : List (List α)} (h : Cuts dict l ws) :
    munch dict l = ws.filterMap dict ∧ skipped dict l = [] := by
  induction h with
  | nil => exact ⟨munch_nil, skipped_nil⟩
  | cons h _ ih =>
    rw [munch_of_some h, skipped_of_some h, List.drop_left' rfl, ih.1, ih.2,
      List.filterMap_cons_some (word_of_longest h)]
    exact ⟨rfl, rfl⟩

/-- **Nothing is left out** of a text exactly when it is cut into words. -/
theorem skipped_eq_nil_iff (l : List α) : skipped dict l = [] ↔ ∃ ws, Cuts dict l ws := by
  refine ⟨fun h => ?_, fun ⟨_, h⟩ => h.spec.2⟩
  induction hn : l.length using Nat.strongRecOn generalizing l with
  | _ n ih =>
    cases l with
    | nil => exact ⟨[], .nil⟩
    | cons a rest =>
      cases hlong : longest dict (a :: rest) with
      | none =>
        rw [skipped_of_none hlong] at h
        exact absurd h (List.cons_ne_nil _ _)
      | some p =>
        obtain ⟨i, k⟩ := p
        obtain ⟨hpos, hle, -, -⟩ := longestUpTo_eq_some_iff.mp hlong
        rw [skipped_of_some hlong] at h
        obtain ⟨ws, hws⟩ := ih ((a :: rest).drop k).length (by rw [List.length_drop]; omega) _ h rfl
        refine ⟨(a :: rest).take k :: ws, ?_⟩
        have hcut := @Cuts.cons _ _ dict ((a :: rest).take k) ((a :: rest).drop k) ws i
        rw [List.take_append_drop, List.length_take, Nat.min_eq_left hle] at hcut
        exact hcut hlong hws

/-! ### Two dictionaries -/

section Map

variable {dict' : List α → Option κ} {g : ι → κ}

theorem longestUpTo_map {l : List α} : ∀ {n : ℕ},
    (∀ m, 0 < m → m ≤ n → dict' (l.take m) = (dict (l.take m)).map g) →
      longestUpTo dict' l n = (longestUpTo dict l n).map fun p => (g p.1, p.2)
  | 0, _ => rfl
  | n + 1, h => by
    have ih := longestUpTo_map fun m hpos hm => h m hpos (Nat.le_succ_of_le hm)
    unfold longestUpTo
    rw [h (n + 1) (Nat.succ_pos n) (Nat.le_refl _), ih]
    cases dict (l.take (n + 1)) with
    | none => rfl
    | some i => rfl

/-- Dictionaries with the same words up to a map of the labels cut a text in the same way. It is enough that they
agree on the words over the letters of the text. -/
theorem munch_map {P : α → Prop} (h : ∀ w : List α, w ≠ [] → (∀ a ∈ w, P a) → dict' w = (dict w).map g) :
    ∀ (n : ℕ) (l : List α), l.length ≤ n → (∀ a ∈ l, P a) → munch dict' l = (munch dict l).map g
  | _, [], _, _ => by rw [munch_nil, munch_nil, List.map_nil]
  | 0, _ :: _, hn, _ => absurd hn (by simp)
  | n + 1, a :: l, hn, hP => by
    have hlong : longest dict' (a :: l) = (longest dict (a :: l)).map fun p => (g p.1, p.2) := by
      refine longestUpTo_map fun m hpos _ => h _ ?_ fun b hb => hP b (List.mem_of_mem_take hb)
      cases m with
      | zero => omega
      | succ m => simp
    rw [List.length_cons] at hn
    cases hd : longest dict (a :: l) with
    | none =>
      rw [hd] at hlong
      rw [munch_of_none hlong, munch_of_none hd]
      exact munch_map h n l (by omega) fun b hb => hP b (List.mem_cons_of_mem a hb)
    | some p =>
      obtain ⟨i, k⟩ := p
      rw [hd] at hlong
      have hk : 0 < k := longest_pos hd
      rw [munch_of_some hlong, munch_of_some hd, List.map_cons,
        munch_map h n ((a :: l).drop k) (by rw [List.length_drop, List.length_cons]; omega)
          fun b hb => hP b (List.mem_of_mem_drop hb)]

end Map

end DenseLite.Lib.Munch
