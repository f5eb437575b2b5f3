import Mathlib.Data.List.Infix
import Mathlib.Tactic.Common

/-! # Messages between markers

Messages of a tag and a body, written one after the other between fixed markers. The markers stand in the text
itself, so a body can look like several messages; it cannot if it does not contain the end of a message with the
beginning of the next one (`encode_injective`). What is needed of the markers is that this boundary has no border:
no proper beginning of it is also an end of it. -/

namespace DenseLite.Lib.Framing

variable {α : Type*}

/-- No proper beginning of the word is an end of it. -/
def Unbordered (w : List α) : Prop := ∀ k < w.length, 0 < k → w.take k ≠ w.drop (w.length - k)

instance [DecidableEq α] (w : List α) : Decidable (Unbordered w) :=
  inferInstanceAs (Decidable (∀ k < w.length, 0 < k → w.take k ≠ w.drop (w.length - k)))

/-- The markers around the tag and the body of a message. The middle marker has a separator that ends the tag. -/
structure Frame (α : Type*) where
  opening : List α
  beforeSep : List α
  sep : α
  afterSep : List α
  closing : List α

namespace Frame

variable (f : Frame α)

/-- A tag with the markers around it. -/
def header (tag : List α) : List α := f.opening ++ (tag ++ f.beforeSep ++ f.sep :: f.afterSep)

/-- A message. -/
def message (m : List α × List α) : List α := f.header m.1 ++ m.2 ++ f.closing

/-- The messages, and a header after them. -/
def encode (last : List α) (ms : List (List α × List α)) : List α := ms.flatMap f.message ++ f.header last

/-- The end of a message and the beginning of the next one. -/
def boundary : List α := f.closing ++ f.opening

/-- A frame whose boundary has no border, and whose separator ends a tag. -/
structure Proper : Prop where
  unbordered : Unbordered f.boundary
  sep_not_mem : f.sep ∉ f.beforeSep
  closing_ne : f.closing ≠ []

/-- A message whose tag has no separator and whose body has no boundary. -/
def Plain (m : List α × List α) : Prop := f.sep ∉ m.1 ∧ ¬ f.boundary <:+: m.2

end Frame

/-! ### Cuts -/

/-- Two words that are cut at the first place of an element are cut at the same place. -/
theorem cut_at_element {c : α} : ∀ {a b x y : List α}, c ∉ a → c ∉ b → a ++ c :: x = b ++ c :: y → a = b ∧ x = y
  | [], [], _, _, _, _, h => ⟨rfl, (List.cons.inj h).2⟩
  | [], d :: b, _, _, _, hb, h => absurd (List.cons.inj h).1 fun heq => hb (heq ▸ List.mem_cons_self)
  | d :: a, [], _, _, ha, _, h => absurd (List.cons.inj h).1 fun heq => ha (heq ▸ List.mem_cons_self)
  | d :: a, e :: b, x, y, ha, hb, h => by
    obtain ⟨rfl, hrest⟩ := List.cons.inj h
    obtain ⟨rfl, hxy⟩ := cut_at_element (fun hmem => ha (List.mem_cons_of_mem d hmem))
      (fun hmem => hb (List.mem_cons_of_mem d hmem)) hrest
    exact ⟨rfl, hxy⟩

/-- A word without border does not begin inside its own first place, unless it is found before. -/
theorem infix_of_append_eq {w a x y : List α} (hw : Unbordered w) (ha : a ≠ []) (h : w ++ x = a ++ (w ++ y)) :
    w <:+: a := by
  have hpos := List.length_pos_iff.mpr ha
  rcases Nat.lt_or_ge a.length w.length with hlt | hge
  · -- the word overlaps itself by what is left of it after `a`
    refine absurd ?_ (hw (w.length - a.length) (by omega) (by omega))
    have hdrop := congrArg (fun l => (l.drop a.length).take (w.length - a.length)) h
    simp only [List.drop_left] at hdrop
    rw [List.drop_append_of_le_length hlt.le, List.take_append_of_le_length (by rw [List.length_drop]),
      List.take_of_length_le (by rw [List.length_drop]), List.take_append_of_le_length (by omega)] at hdrop
    rw [← hdrop]
    congr 1
    omega
  · have hprefixes : w <+: w ++ x ∧ a <+: w ++ x := ⟨List.prefix_append w x, h ▸ List.prefix_append a (w ++ y)⟩
    exact (List.prefix_of_prefix_length_le hprefixes.1 hprefixes.2 hge).isInfix

theorem cut_at_word_of_le {w a b x y : List α} (hw : Unbordered w) (hb : ¬ w <:+: b) (hle : a.length ≤ b.length)
    (h : a ++ (w ++ x) = b ++ (w ++ y)) : a = b ∧ x = y := by
  obtain ⟨c, rfl⟩ : a <+: b := List.prefix_of_prefix_length_le (h ▸ List.prefix_append a _)
    (List.prefix_append b _) hle
  rw [List.append_assoc, List.append_cancel_left_eq] at h
  by_cases hc : c = []
  · subst hc
    rw [List.nil_append, List.append_cancel_left_eq] at h
    exact ⟨by rw [List.append_nil], h⟩
  · exact absurd ((infix_of_append_eq hw hc h).trans (List.suffix_append a c).isInfix) hb

/-- **Two words that are cut at the first place of a word without border are cut at the same place.** -/
theorem cut_at_word {w a b x y : List α} (hw : Unbordered w) (ha : ¬ w <:+: a) (hb : ¬ w <:+: b)
    (h : a ++ (w ++ x) = b ++ (w ++ y)) : a = b ∧ x = y := by
  rcases Nat.le_total a.length b.length with hle | hle
  · exact cut_at_word_of_le hw hb hle h
  · obtain ⟨heq, hxy⟩ := cut_at_word_of_le hw ha hle h.symm
    exact ⟨heq.symm, hxy.symm⟩

/-! ### The messages are recovered -/

namespace Frame

variable {f : Frame α}

@[simp] theorem encode_nil (last : List α) : f.encode last [] = f.header last := rfl

@[simp] theorem encode_cons (last : List α) (m : List α × List α) (ms : List (List α × List α)) :
    f.encode last (m :: ms) = f.header m.1 ++ m.2 ++ f.closing ++ f.encode last ms := by
  rw [encode, List.flatMap_cons, List.append_assoc, message, encode]

/-- A body that holds the end of a message and a header reads as two messages. -/
theorem message_forged (s c t d : List α) :
    f.message (s, c ++ (f.closing ++ (f.header t ++ d))) = f.message (s, c) ++ f.message (t, d) := by
  simp only [message, List.append_assoc]

/-- What is encoded begins with a header. -/
theorem exists_encode_eq (last : List α) (ms : List (List α × List α)) :
    ∃ x, f.encode last ms = f.opening ++ x := by
  cases ms with
  | nil => exact ⟨_, rfl⟩
  | cons m ms => exact ⟨_, by rw [encode_cons, header, List.append_assoc, List.append_assoc, List.append_assoc]⟩

/-- Of two texts that begin with a header, the tags are the same, and what follows. -/
theorem Proper.header_append_inj (hf : f.Proper) {s t x y : List α} (hs : f.sep ∉ s) (ht : f.sep ∉ t)
    (h : f.header s ++ x = f.header t ++ y) : s = t ∧ x = y := by
  simp only [header, List.append_assoc, List.append_cancel_left_eq, List.cons_append] at h
  simp only [← List.append_assoc] at h
  obtain ⟨htag, hrest⟩ := cut_at_element (by simp [hs, hf.sep_not_mem]) (by simp [ht, hf.sep_not_mem]) h
  exact ⟨List.append_cancel_right htag, List.append_cancel_left hrest⟩

/-- A header alone is no message followed by others. -/
theorem Proper.header_ne_encode (hf : f.Proper) {last : List α} (hlast : f.sep ∉ last) {m : List α × List α}
    (hm : f.sep ∉ m.1) (ms : List (List α × List α)) : f.header last ≠ f.encode last (m :: ms) := by
  intro h
  rw [encode_cons, List.append_assoc, List.append_assoc, ← List.append_nil (f.header last)] at h
  have hrest := (hf.header_append_inj hlast hm h).2
  simp only [List.nil_eq, List.append_eq_nil_iff] at hrest
  exact hf.closing_ne hrest.2.1

/-- **Plain messages are recovered from their text.** -/
theorem Proper.encode_injective (hf : f.Proper) {last : List α} (hlast : f.sep ∉ last) :
    ∀ {ms ms' : List (List α × List α)}, (∀ m ∈ ms, f.Plain m) → (∀ m ∈ ms', f.Plain m) →
      f.encode last ms = f.encode last ms' → ms = ms'
  | [], [], _, _, _ => rfl
  | [], m :: ms, _, h', h => absurd h (hf.header_ne_encode hlast (h' m List.mem_cons_self).1 ms)
  | m :: ms, [], h', _, h => absurd h.symm (hf.header_ne_encode hlast (h' m List.mem_cons_self).1 ms)
  | (s, c) :: ms, (t, d) :: ms', hms, hms', h => by
    obtain ⟨hs, hc⟩ := hms _ List.mem_cons_self
    obtain ⟨ht, hd⟩ := hms' _ List.mem_cons_self
    rw [encode_cons, encode_cons, List.append_assoc, List.append_assoc, List.append_assoc, List.append_assoc] at h
    obtain ⟨rfl, hbody⟩ := hf.header_append_inj hs ht h
    -- the end of the body, with the beginning of what follows it, is the boundary
    obtain ⟨x, hx⟩ := f.exists_encode_eq last ms
    obtain ⟨y, hy⟩ := f.exists_encode_eq last ms'
    have hcut : c ++ (f.boundary ++ x) = d ++ (f.boundary ++ y) := by
      simpa only [boundary, List.append_assoc, ← hx, ← hy] using hbody
    obtain ⟨rfl, hxy⟩ := cut_at_word hf.unbordered hc hd hcut
    have hrest := hf.encode_injective hlast (fun m hm => hms m (List.mem_cons_of_mem _ hm))
      (fun m hm => hms' m (List.mem_cons_of_mem _ hm)) (by rw [hx, hy, hxy])
    rw [hrest]

end Frame

end DenseLite.Lib.Framing
