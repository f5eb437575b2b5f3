import DenseLite.Lib.JsonUnique

/-! # Writing JSON texts

A writer puts a text together from parts that scan to their tokens in front of any bracket, brace, colon or comma
(`Scans`). A part that is written so (`Printed`) is UTF-8 and has no control characters, line ends included; there is one
rule for each form of a value. -/

namespace DenseLite.Lib.JsonText

/-! ### Parts of a text -/

theorem begin_punct {c : UInt8} (hc : isPunct c = true) : begin c = (.out, [.punct c]) := by
  have hall : ∀ d ∈ [0x7b, 0x7d, 0x5b, 0x5d, 0x3a, 0x2c], begin d = (.out, [.punct d]) := by decide +kernel
  simp only [isPunct, decide_eq_true_eq] at hc
  exact hall c (by simpa using hc)

theorem scan_punct {c : UInt8} (hc : isPunct c = true) (rest : List UInt8) :
    scan .out (c :: rest) = ((scan .out rest).1, .punct c :: (scan .out rest).2) := by
  rw [scan, step, begin_punct hc]
  rfl

/-- The text is scanned to the tokens in front of a bracket, a brace, a colon or a comma. -/
def Scans (text : List UInt8) (ts : List Token) : Prop :=
  ∀ c, isPunct c = true → ∀ rest,
    scan .out (text ++ c :: rest) = ((scan .out (c :: rest)).1, ts ++ (scan .out (c :: rest)).2)

namespace Scans

theorem word {w : List UInt8} (hne : w ≠ []) (hw : ∀ c ∈ w, isWordByte c = true) : Scans w [.word w] := by
  intro c hc rest
  rw [scan_out_word hne hw, scan_punct hc, scan, step, begin_punct hc]
  rfl

theorem string {body s : List UInt8} (h : Decodes body s) : Scans (0x22 :: body ++ [0x22]) [.string body] := by
  intro c hc rest
  have hopen : scan .out (0x22 :: (body ++ 0x22 :: c :: rest)) = scan (.str []) (body ++ 0x22 :: c :: rest) := rfl
  rw [List.append_assoc, List.cons_append, List.singleton_append, hopen, scan_append, h.scan, List.nil_append]
  rfl

theorem punct {c : UInt8} (hc : isPunct c = true) : Scans [c] [.punct c] := by
  intro d _ rest
  rw [List.singleton_append, scan_punct hc]
  rfl

theorem cons {c : UInt8} (hc : isPunct c = true) {text : List UInt8} {ts : List Token} (h : Scans text ts) :
    Scans (c :: text) (.punct c :: ts) := by
  intro d hd rest
  rw [List.cons_append, scan_punct hc, h d hd]
  rfl

theorem append_cons {text text' : List UInt8} {ts ts' : List Token} (h : Scans text ts) {c : UInt8}
    (hc : isPunct c = true) (h' : Scans text' ts') : Scans (text ++ c :: text') (ts ++ .punct c :: ts') := by
  intro d hd rest
  rw [List.append_assoc, List.cons_append, h c hc, ← List.cons_append, h'.cons hc d hd, List.append_assoc]

/-- The tokens of a text that ends where a bracket may stand. -/
theorem tokens {text : List UInt8} {ts : List Token} (h : Scans text ts) : tokens text = some ts := by
  have hcomma := h 0x2c rfl []
  rw [scan_append] at hcomma
  obtain ⟨hstate, htokens⟩ := Prod.mk.inj hcomma
  simp only [JsonText.tokens]
  rcases hscan : scan .out text with ⟨q, us⟩
  rw [hscan] at hstate htokens
  cases q with
  | out => exact congrArg some (List.append_cancel_right htokens)
  | word w =>
    have : us ++ [Token.word w] ++ [.punct 0x2c] = ts ++ [.punct 0x2c] := (List.append_assoc ..).trans htokens
    exact congrArg some (List.append_cancel_right this)
  | str | esc => cases hstate

end Scans

/-! ### Control characters -/

theorem le_of_isNumberByte {c : UInt8} (h : isNumberByte c = true) : 0x20 ≤ c ∧ c < 0x80 ∧ isWordByte c = true := by
  have hall : ∀ n < 256, isNumberByte (.ofNat n) = true →
      0x20 ≤ UInt8.ofNat n ∧ UInt8.ofNat n < 0x80 ∧ isWordByte (.ofNat n) = true := by decide +kernel
  simpa using hall c.toNat c.toNat_lt (by simpa using h)

theorem le_of_hexDigit {c : UInt8} {n : ℕ} (h : hexDigit c = some n) : 0x20 ≤ c := by
  have hall : ∀ m < 256, (hexDigit (.ofNat m)).isSome = true → 0x20 ≤ UInt8.ofNat m := by decide +kernel
  simpa using hall c.toNat c.toNat_lt (by simp [h])

theorem le_of_hex4 {a b c d : UInt8} {u : ℕ} (h : hex4 a b c d = some u) : ∀ x ∈ [a, b, c, d], 0x20 ≤ x := by
  obtain ⟨_, ha, h⟩ := Option.bind_eq_some_iff.mp h
  obtain ⟨_, hb, h⟩ := Option.bind_eq_some_iff.mp h
  obtain ⟨_, hc, h⟩ := Option.bind_eq_some_iff.mp h
  obtain ⟨_, hd, -⟩ := Option.bind_eq_some_iff.mp h
  simp [le_of_hexDigit ha, le_of_hexDigit hb, le_of_hexDigit hc, le_of_hexDigit hd]

/-- Control characters are escaped. -/
theorem Decodes.le {body s : List UInt8} (h : Decodes body s) : ∀ c ∈ body, 0x20 ≤ c := by
  have hletters : ∀ p ∈ shortEscapes, 0x20 ≤ p.1 := by simp [shortEscapes]
  induction h with
  | nil => simp
  | plain hcontrol _ _ _ ih => simpa using ⟨hcontrol, ih⟩
  | short he _ ih => simpa using ⟨hletters _ he, ih⟩
  | unicode hu _ _ ih =>
    have hdigits := le_of_hex4 hu
    simp only [List.mem_cons, List.not_mem_nil, or_false, forall_eq_or_imp, forall_eq] at hdigits
    simpa [hdigits] using ih
  | pair hu _ hv _ _ ih =>
    have hdigits := le_of_hex4 hu
    have hdigits' := le_of_hex4 hv
    simp only [List.mem_cons, List.not_mem_nil, or_false, forall_eq_or_imp, forall_eq] at hdigits hdigits'
    simpa [hdigits, hdigits'] using ih

theorem le_of_isPunct {c : UInt8} (h : isPunct c = true) : 0x20 ≤ c ∧ c < 0x80 := by
  have hall : ∀ d ∈ [0x7b, 0x7d, 0x5b, 0x5d, 0x3a, 0x2c], (0x20 : UInt8) ≤ d ∧ d < 0x80 := by decide +kernel
  simp only [isPunct, decide_eq_true_eq] at h
  exact hall c (by simpa using h)

/-! ### Rules -/

/-- A text without control characters, scanned to tokens of which `P` holds. -/
structure Printed (P : List Token → Prop) (text : List UInt8) : Prop where
  valid : Utf8.valid text = true
  le : ∀ c ∈ text, 0x20 ≤ c
  scans : ∃ ts, Scans text ts ∧ P ts

/-- The text of a value, of the elements of an array, of the members of an object. -/
abbrev Writes (v : Value) : List UInt8 → Prop := Printed (Denotes · v)

abbrev WritesItems (items : List Value) : List UInt8 → Prop := Printed (Elements · items)

abbrev WritesMembers (members : List (List UInt8 × Value)) : List UInt8 → Prop := Printed (Members · members)

namespace Printed

variable {P Q R : List Token → Prop} {text text' : List UInt8} {c : UInt8}

theorem mono (h : Printed P text) (hPQ : ∀ ts, P ts → Q ts) : Printed Q text := by
  obtain ⟨ts, hscans, hts⟩ := h.scans
  exact ⟨h.valid, h.le, ts, hscans, hPQ ts hts⟩

theorem cons (hc : isPunct c = true) (h : Printed P text) (hPQ : ∀ ts, P ts → Q (.punct c :: ts)) :
    Printed Q (c :: text) := by
  obtain ⟨ts, hscans, hts⟩ := h.scans
  refine ⟨?_, ?_, _, hscans.cons hc, hPQ ts hts⟩
  · rw [Utf8.valid_cons (le_of_isPunct hc).2, h.valid]
  · simpa using ⟨(le_of_isPunct hc).1, h.le⟩

theorem append_cons (h : Printed P text) (hc : isPunct c = true) (h' : Printed Q text')
    (hR : ∀ ts us, P ts → Q us → R (ts ++ .punct c :: us)) : Printed R (text ++ c :: text') := by
  obtain ⟨ts, hscans, hts⟩ := h.scans
  obtain ⟨us, hscans', hus⟩ := h'.scans
  refine ⟨?_, ?_, _, hscans.append_cons hc hscans', hR ts us hts hus⟩
  · rw [Utf8.valid_append h.valid, Utf8.valid_cons (le_of_isPunct hc).2, h'.valid]
  · intro d hd
    rcases List.mem_append.mp hd with hd | hd
    · exact h.le d hd
    rcases List.mem_cons.mp hd with rfl | hd
    · exact (le_of_isPunct hc).1
    · exact h'.le d hd

/-- What ends with a bracket or a brace. -/
theorem concat (h : Printed P text) (hc : isPunct c = true) (hQ : ∀ ts, P ts → Q (ts ++ [.punct c])) :
    Printed Q (text ++ [c]) :=
  h.append_cons (Q := (· = [])) hc ⟨rfl, by simp, [], fun _ _ _ => rfl, rfl⟩ fun ts _ hts hus => hus ▸ hQ ts hts

end Printed

section Rules

variable {text text' body key w : List UInt8} {v : Value} {items : List Value} {members : List (List UInt8 × Value)}

theorem printed_word (hne : w ≠ []) (hw : ∀ c ∈ w, 0x20 ≤ c ∧ c < 0x80 ∧ isWordByte c = true)
    (h : Denotes [.word w] v) : Writes v w := by
  refine ⟨?_, fun c hc => (hw c hc).1, _, .word hne fun c hc => (hw c hc).2.2, h⟩
  have := Utf8.valid_append_ascii [] fun b hb => (hw b hb).2.1
  rwa [List.nil_append] at this

theorem writes_null : Writes .null nullWord := printed_word (by decide) (by decide +kernel) .null

theorem writes_bool (b : Bool) : Writes (.bool b) (boolWord b) := by
  have hword : ∀ b, boolWord b ≠ [] ∧ ∀ c ∈ boolWord b, 0x20 ≤ c ∧ c < 0x80 ∧ isWordByte c = true := by decide +kernel
  exact printed_word (hword b).1 (hword b).2 (.bool b)

theorem writes_number (h : isNumber w = true) : Writes (.number w) w := by
  have hne : w ≠ [] := by rintro rfl; cases h
  exact printed_word hne (fun c hc => le_of_isNumberByte (isNumberByte_of_isNumber h c hc)) (.number h)

theorem printed_string {s : List UInt8} (hvalid : Utf8.valid body = true) (h : Decodes body s) :
    Printed (· = [.string body]) (0x22 :: body ++ [0x22]) := by
  refine ⟨?_, ?_, _, .string h, rfl⟩
  · rw [List.cons_append, Utf8.valid_cons (by decide), Utf8.valid_append hvalid]
    rfl
  · simpa [or_imp, forall_and] using h.le

theorem writes_string {s : List UInt8} (hvalid : Utf8.valid body = true) (h : Decodes body s) :
    Writes (.string s) (0x22 :: body ++ [0x22]) :=
  (printed_string hvalid h).mono fun _ hts => hts ▸ .string h

theorem writesItems_last (h : Writes v text) : WritesItems [v] text := h.mono fun _ => .last

theorem writesItems_more (h : Writes v text) (hrest : WritesItems items text') :
    WritesItems (v :: items) (text ++ 0x2c :: text') :=
  h.append_cons rfl hrest fun _ _ => .more

theorem printed_punct {c : UInt8} (hc : isPunct c = true) : Printed (· = [.punct c]) [c] :=
  ⟨by rw [Utf8.valid_cons (le_of_isPunct hc).2]; rfl, by simpa using (le_of_isPunct hc).1, _, .punct hc, rfl⟩

theorem writes_emptyArray : Writes (.array []) [0x5b, 0x5d] :=
  (printed_punct (c := 0x5d) rfl).cons rfl fun _ hts => hts ▸ .emptyArray

theorem writes_array (h : WritesItems items text) : Writes (.array items) (0x5b :: text ++ [0x5d]) := by
  refine (h.cons (c := 0x5b) (Q := fun us => ∃ ts, us = .punct 0x5b :: ts ∧ Elements ts items) rfl fun ts hts =>
    ⟨ts, rfl, hts⟩).concat rfl ?_
  rintro _ ⟨ts, rfl, hts⟩
  exact .array hts

theorem writesMembers_last (hvalid : Utf8.valid body = true) (hkey : Decodes body key) (h : Writes v text) :
    WritesMembers [(key, v)] (0x22 :: body ++ [0x22] ++ 0x3a :: text) :=
  (printed_string hvalid hkey).append_cons rfl h fun _ _ hts hus => hts ▸ .last hkey hus

theorem writesMembers_more (hvalid : Utf8.valid body = true) (hkey : Decodes body key) (h : Writes v text)
    (hrest : WritesMembers members text') :
    WritesMembers ((key, v) :: members) (0x22 :: body ++ [0x22] ++ 0x3a :: text ++ 0x2c :: text') := by
  refine ((printed_string hvalid hkey).append_cons rfl h (R := fun us => ∃ ts,
    us = .string body :: .punct 0x3a :: ts ∧ Denotes ts v) fun _ us hts hus => ⟨us, hts ▸ rfl, hus⟩).append_cons rfl
      hrest ?_
  rintro _ us ⟨ts, rfl, hts⟩ hus
  exact .more hkey hts hus

theorem writes_emptyObject : Writes (.object []) [0x7b, 0x7d] :=
  (printed_punct (c := 0x7d) rfl).cons rfl fun _ hts => hts ▸ .emptyObject

theorem writes_object (h : WritesMembers members text) : Writes (.object members) (0x7b :: text ++ [0x7d]) := by
  refine (h.cons (c := 0x7b) (Q := fun us => ∃ ts, us = .punct 0x7b :: ts ∧ Members ts members) rfl fun ts hts =>
    ⟨ts, rfl, hts⟩).concat rfl ?_
  rintro _ ⟨ts, rfl, hts⟩
  exact .object hts

/-- **What is written for a value is a document, and the value is the only one that it has.** -/
theorem document_iff (h : Writes v text) (w : Value) : Document text w ↔ w = v := by
  obtain ⟨ts, hscans, hts⟩ := h.scans
  have hdocument : Document text v := ⟨h.valid, ts, hscans.tokens, hts⟩
  exact ⟨fun hw => hw.unique hdocument, fun hw => hw ▸ hdocument⟩

end Rules

end DenseLite.Lib.JsonText
