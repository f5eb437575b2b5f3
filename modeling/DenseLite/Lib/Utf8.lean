import Mathlib.Data.List.Infix
import Mathlib.Tactic.Common

/-! # UTF-8

The machine that reads UTF-8 byte by byte. Its state is what the character that has begun still needs: a range for
each of its bytes to come. A text is valid if no byte falls out of its range and no character is left unfinished.
An ASCII byte is a character of its own, so a text is valid exactly when its parts before and after one are
(`valid_append_cons`). -/

namespace DenseLite.Lib.Utf8

/-- The ranges of the bytes that the character still needs. -/
abbrev State := List (UInt8 × UInt8)

/-- A byte that continues a character, whichever it is. -/
def tail : UInt8 × UInt8 := (0x80, 0xbf)

/-- The state after the first byte of a character. -/
def first (b : UInt8) : Option State :=
  if b < 0x80 then some []
  else if 0xc2 ≤ b ∧ b ≤ 0xdf then some [tail]
  else if b = 0xe0 then some [(0xa0, 0xbf), tail]
  else if b = 0xed then some [(0x80, 0x9f), tail]
  else if 0xe1 ≤ b ∧ b ≤ 0xef then some [tail, tail]
  else if b = 0xf0 then some [(0x90, 0xbf), tail, tail]
  else if 0xf1 ≤ b ∧ b ≤ 0xf3 then some [tail, tail, tail]
  else if b = 0xf4 then some [(0x80, 0x8f), tail, tail]
  else none

/-- The state after a byte, or nothing when it falls out of its range. -/
def step : State → UInt8 → Option State
  | [], b => first b
  | r :: rest, b => if r.1 ≤ b ∧ b ≤ r.2 then some rest else none

/-- The state after a text. -/
def run : State → List UInt8 → Option State
  | q, [] => some q
  | q, b :: text => (step q b).bind fun q' => run q' text

/-- The text is valid UTF-8. -/
def valid (text : List UInt8) : Bool := run [] text = some []

@[simp] theorem valid_nil : valid [] = true := rfl

theorem run_append : ∀ (q : State) (s t : List UInt8), run q (s ++ t) = (run q s).bind fun q' => run q' t
  | _, [], _ => rfl
  | q, b :: s, t => by
    rw [List.cons_append, run, run]
    cases step q b with
    | none => rfl
    | some q' => exact run_append q' s t

/-! ### States of a run -/

/-- The bytes that a character still needs are none of ASCII. -/
def Proper (q : State) : Prop := ∀ r ∈ q, 0x80 ≤ r.1

/-- After a first byte, all that the character needs are continuations, and something if it is not ASCII. -/
theorem first_spec {b : UInt8} {q : State} (h : first b = some q) :
    (∀ r ∈ q, 0x80 ≤ r.1 ∧ r.2 ≤ 0xbf) ∧ (0x80 ≤ b → q ≠ []) := by
  have hbytes : ∀ n < 256, ∀ q ∈ first (.ofNat n), (q.all fun r => 0x80 ≤ r.1 ∧ r.2 ≤ 0xbf) = true ∧
      (0x80 ≤ UInt8.ofNat n → q ≠ []) := by decide +kernel
  rw [← UInt8.ofNat_toNat (x := b)] at h ⊢
  obtain ⟨hall, hne⟩ := hbytes b.toNat b.toNat_lt q h
  exact ⟨fun r hr => of_decide_eq_true (List.all_eq_true.mp hall r hr), hne⟩

theorem proper_of_first {b : UInt8} {q : State} (h : first b = some q) : Proper q :=
  fun r hr => ((first_spec h).1 r hr).1

theorem proper_of_step {q q' : State} {b : UInt8} (hq : Proper q) (h : step q b = some q') : Proper q' := by
  cases q with
  | nil => exact proper_of_first h
  | cons r rest =>
    rw [step] at h
    split_ifs at h
    cases h
    exact fun x hx => hq x (List.mem_cons_of_mem _ hx)

theorem proper_of_run : ∀ {q q' : State} {text : List UInt8}, Proper q → run q text = some q' → Proper q'
  | _, _, [], hq, h => by
    cases h
    exact hq
  | _, _, _ :: _, hq, h => by
    obtain ⟨q₁, hstep, hrun⟩ := Option.bind_eq_some_iff.mp h
    exact proper_of_run (proper_of_step hq hstep) hrun

/-- An ASCII byte is read only between characters, and leaves the machine there. -/
theorem step_ascii {q : State} (hq : Proper q) {b : UInt8} (hb : b < 0x80) :
    step q b = if q = [] then some [] else none := by
  cases q with
  | nil => rw [step, first, if_pos hb, if_pos rfl]
  | cons r rest =>
    have hlow : b < r.1 := UInt8.lt_of_lt_of_le hb (hq r List.mem_cons_self)
    rw [if_neg (List.cons_ne_nil _ _), step, if_neg]
    exact fun h => UInt8.not_le.mpr hlow h.1

/-- A byte that begins a longer character is read only between characters, and no character ends with it. -/
theorem step_lead {q q' : State} (hq : ∀ r ∈ q, r.2 ≤ 0xbf) {b : UInt8} (hb : 0xc0 ≤ b) (h : step q b = some q') :
    q = [] ∧ q' ≠ [] := by
  cases q with
  | nil =>
    exact ⟨rfl, (first_spec h).2 (UInt8.le_trans (by decide) hb)⟩
  | cons r rest =>
    rw [step] at h
    split_ifs at h with hin
    exact absurd (UInt8.le_trans hb (UInt8.le_trans hin.2 (hq r List.mem_cons_self))) (by decide)

theorem bounded_of_run : ∀ {q q' : State} {text : List UInt8}, (∀ r ∈ q, r.2 ≤ 0xbf) → run q text = some q' →
    ∀ r ∈ q', r.2 ≤ 0xbf
  | _, _, [], hq, h => by
    cases h
    exact hq
  | q, _, b :: text, hq, h => by
    obtain ⟨q₁, hstep, hrun⟩ := Option.bind_eq_some_iff.mp h
    refine bounded_of_run ?_ hrun
    cases q with
    | nil => exact fun r hr => ((first_spec hstep).1 r hr).2
    | cons r rest =>
      rw [step] at hstep
      split_ifs at hstep
      cases hstep
      exact fun x hx => hq x (List.mem_cons_of_mem _ hx)

/-! ### Parts of a text -/

/-- A text behind a valid one. -/
theorem valid_append {s : List UInt8} (hs : valid s = true) (t : List UInt8) : valid (s ++ t) = valid t := by
  rw [valid, valid, run_append, of_decide_eq_true hs, Option.bind_some]

/-- A valid text does not end with a byte that begins a longer character. -/
theorem valid_concat_lead (s : List UInt8) {b : UInt8} (hb : 0xc0 ≤ b) : valid (s ++ [b]) = false := by
  refine decide_eq_false fun h => ?_
  rw [run_append] at h
  obtain ⟨q, hrun, hlast⟩ := Option.bind_eq_some_iff.mp h
  rw [run] at hlast
  obtain ⟨q', hstep, hq'⟩ := Option.bind_eq_some_iff.mp hlast
  have hne := (step_lead (bounded_of_run (by simp) hrun) hb hstep).2
  rw [run, Option.some_inj] at hq'
  exact hne hq'

/-- A character: a valid text of which no part but all of it is one. -/
structure IsChar (c : List UInt8) : Prop where
  ne_nil : c ≠ []
  isValid : valid c = true
  minimal : ∀ p, p <+: c → p ≠ [] → valid p = true → p = c

instance (c : List UInt8) : Decidable (IsChar c) :=
  decidable_of_iff (c ≠ [] ∧ valid c = true ∧ ∀ p ∈ c.inits, p ≠ [] → valid p = true → p = c)
    ⟨fun h => ⟨h.1, h.2.1, fun p hp => h.2.2 p ((List.mem_inits p c).mpr hp)⟩,
      fun h => ⟨h.ne_nil, h.isValid, fun p hp => h.minimal p ((List.mem_inits p c).mp hp)⟩⟩

/-- A valid text at the front of a sequence of characters is some of them. -/
theorem exists_take_of_valid_prefix : ∀ {cs : List (List UInt8)} {u : List UInt8}, (∀ c ∈ cs, IsChar c) →
    valid u = true → u <+: cs.flatten → ∃ k, u = (cs.take k).flatten
  | [], u, _, _, hu => ⟨0, by simpa using hu⟩
  | c :: cs, u, hcs, hvalid, hu => by
    have hc := hcs c List.mem_cons_self
    by_cases hempty : u = []
    · exact ⟨0, by simpa using hempty⟩
    rw [List.flatten_cons] at hu
    rcases List.prefix_or_prefix_of_prefix hu (List.prefix_append c cs.flatten) with huc | ⟨v, rfl⟩
    · exact ⟨1, by simpa using hc.minimal u huc hempty hvalid⟩
    · rw [valid_append hc.isValid] at hvalid
      obtain ⟨k, rfl⟩ := exists_take_of_valid_prefix (fun x hx => hcs x (List.mem_cons_of_mem c hx)) hvalid
        ((List.prefix_append_right_inj c).mp hu)
      exact ⟨k + 1, by rw [List.take_succ_cons, List.flatten_cons]⟩

/-- **A text is valid exactly when its parts before and after an ASCII byte are.** -/
theorem valid_append_cons (s : List UInt8) {b : UInt8} (hb : b < 0x80) (t : List UInt8) :
    valid (s ++ b :: t) = (valid s && valid t) := by
  unfold valid
  rw [run_append]
  cases hs : run [] s with
  | none => simp
  | some q =>
    rw [Option.bind_some, run, step_ascii (proper_of_run (by simp [Proper]) hs) hb]
    by_cases hq : q = [] <;> simp [hq]

theorem valid_cons {b : UInt8} (hb : b < 0x80) (t : List UInt8) : valid (b :: t) = valid t := by
  rw [← List.nil_append (b :: t), valid_append_cons [] hb, valid_nil, Bool.true_and]

/-- A text with an ASCII text before it. -/
theorem valid_ascii_append {s : List UInt8} (hs : ∀ b ∈ s, b < 0x80) (t : List UInt8) :
    valid (s ++ t) = valid t := by
  induction s with
  | nil => rfl
  | cons b s ih =>
    rw [List.cons_append, valid_cons (hs b List.mem_cons_self), ih fun x hx => hs x (List.mem_cons_of_mem b hx)]

/-- A text with an ASCII text in the middle. -/
theorem valid_append_ascii_append (s : List UInt8) {a : List UInt8} (hne : a ≠ []) (ha : ∀ b ∈ a, b < 0x80)
    (t : List UInt8) : valid (s ++ (a ++ t)) = (valid s && valid t) := by
  obtain ⟨b, a, rfl⟩ := List.exists_cons_of_ne_nil hne
  rw [List.cons_append, valid_append_cons s (ha b List.mem_cons_self),
    valid_ascii_append fun x hx => ha x (List.mem_cons_of_mem b hx)]

/-- A text with an ASCII text after it. -/
theorem valid_append_ascii (s : List UInt8) {t : List UInt8} (ht : ∀ b ∈ t, b < 0x80) : valid (s ++ t) = valid s := by
  cases t with
  | nil => rw [List.append_nil]
  | cons b t =>
    have htail := valid_ascii_append (fun x hx => ht x (List.mem_cons_of_mem b hx)) []
    rw [List.append_nil, valid_nil] at htail
    rw [valid_append_cons s (ht b List.mem_cons_self), htail, Bool.and_true]

/-! ### ASCII bytes that are written otherwise -/

theorem run_ascii {q : State} (hq : Proper q) : ∀ {s : List UInt8}, s ≠ [] → (∀ b ∈ s, b < 0x80) →
    run q s = if q = [] then some [] else none
  | b :: s, _, hs => by
    rw [run, step_ascii hq (hs b List.mem_cons_self)]
    by_cases hempty : q = []
    · rw [if_pos hempty, Option.bind_some]
      cases s with
      | nil => rfl
      | cons c s => exact run_ascii (by simp [Proper]) (List.cons_ne_nil c s) fun x hx => hs x (List.mem_cons_of_mem b hx)
    · rw [if_neg hempty, Option.bind_none]

/-- A way to write bytes that keeps all but ASCII, and writes ASCII as ASCII. -/
def KeepsCharacters (f : UInt8 → List UInt8) : Prop :=
  ∀ c, f c = [c] ∨ c < 0x80 ∧ f c ≠ [] ∧ ∀ b ∈ f c, b < 0x80

theorem run_flatMap {f : UInt8 → List UInt8} (hf : KeepsCharacters f) : ∀ {q : State} (s : List UInt8), Proper q →
    run q (s.flatMap f) = run q s
  | _, [], _ => rfl
  | q, c :: s, hq => by
    have hfirst : run q (f c) = step q c := by
      rcases hf c with h | ⟨hc, hne, hascii⟩
      · rw [h, run]
        cases step q c <;> rfl
      · rw [run_ascii hq hne hascii, step_ascii hq hc]
    rw [List.flatMap_cons, run_append, hfirst, run]
    cases hstep : step q c with
    | none => rfl
    | some q' => exact run_flatMap hf s (proper_of_step hq hstep)

theorem valid_flatMap {f : UInt8 → List UInt8} (hf : KeepsCharacters f) (s : List UInt8) :
    valid (s.flatMap f) = valid s := by
  rw [valid, valid, run_flatMap hf s (by simp [Proper])]

end DenseLite.Lib.Utf8
