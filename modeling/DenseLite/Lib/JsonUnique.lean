import DenseLite.Lib.JsonText

/-! # A JSON text has one value

The tokens of a value are no proper beginning of the tokens of another one (`Denotes.cancel`), and what stands between
the quotes of a string stands for one string (`Decodes.unique`); so a text is a document with at most one value
(`Document.unique`). -/

namespace DenseLite.Lib.JsonText

/-! ### Strings -/

/-- What stands between the quotes stands for one string. -/
theorem Decodes.unique {body s : List UInt8} (h : Decodes body s) : ∀ {s' : List UInt8}, Decodes body s' → s = s' := by
  have hletters : ∀ e c, (e, c) ∈ shortEscapes → e ≠ 0x75 ∧ ∀ c', (e, c') ∈ shortEscapes → c' = c := by
    simp only [shortEscapes, List.mem_cons, List.not_mem_nil, or_false, Prod.mk.injEq]
    rintro e c (⟨rfl, rfl⟩ | ⟨rfl, rfl⟩ | ⟨rfl, rfl⟩ | ⟨rfl, rfl⟩ | ⟨rfl, rfl⟩ | ⟨rfl, rfl⟩ | ⟨rfl, rfl⟩ | ⟨rfl, rfl⟩) <;>
      simp
  induction h with
  | nil =>
    rintro s' (_ | _)
    rfl
  | plain hcontrol hquote hbackslash _ ih =>
    intro s' h'
    cases h' with
    | plain _ _ _ h' => rw [ih h']
    | short | unicode | pair => exact absurd rfl hbackslash
  | short he _ ih =>
    intro s' h'
    cases h' with
    | plain _ _ hbackslash => exact absurd rfl hbackslash
    | short he' h' => rw [ih h', (hletters _ _ he).2 _ he']
    | unicode | pair => exact absurd rfl (hletters _ _ he).1
  | unicode hu hsingle _ ih =>
    intro s' h'
    cases h' with
    | plain _ _ hbackslash => exact absurd rfl hbackslash
    | short he' => exact absurd rfl (hletters _ _ he').1
    | unicode hu' _ h' => rw [ih h', Option.some.inj (hu.symm.trans hu')]
    | pair hu' hhigh =>
      have := Option.some.inj (hu.symm.trans hu')
      omega
  | pair hu hhigh hv _ _ ih =>
    intro s' h'
    cases h' with
    | plain _ _ hbackslash => exact absurd rfl hbackslash
    | short he' => exact absurd rfl (hletters _ _ he').1
    | unicode hu' hsingle =>
      have := Option.some.inj (hu.symm.trans hu')
      omega
    | pair hu' _ hv' _ h' =>
      rw [ih h', Option.some.inj (hu.symm.trans hu'), Option.some.inj (hv.symm.trans hv')]

/-! ### Words -/

/-- A number has digits, so it is no literal name. -/
theorem not_isNumber_literal : isNumber nullWord = false ∧ ∀ b, isNumber (boolWord b) = false := by decide

/-- A byte of a number. -/
def isNumberByte (c : UInt8) : Bool := isDigit c ∨ c ∈ [0x2d, 0x2b, 0x2e, 0x65, 0x45]

theorem isNumberByte_of_areDigits {w : List UInt8} (h : areDigits w = true) : ∀ c ∈ w, isNumberByte c = true := by
  intro c hc
  simp only [areDigits, decide_eq_true_eq, List.all_eq_true] at h
  simp [isNumberByte, h.2 c hc]

theorem isNumberByte_of_isExponent : ∀ {w : List UInt8}, isExponent w = true → ∀ c ∈ w, isNumberByte c = true
  | [], _, c, hc => absurd hc List.not_mem_nil
  | e :: w, h, c, hc => by
    simp only [isExponent, decide_eq_true_eq] at h
    rcases List.mem_cons.mp hc with rfl | hc
    · rcases h.1 with rfl | rfl <;> rfl
    split_ifs at h with hsign
    · cases w with
      | nil => cases hc
      | cons d w =>
        rcases List.mem_cons.mp hc with rfl | hc
        · simp only [List.head?_cons, Option.some.injEq] at hsign
          rcases hsign with rfl | rfl <;> rfl
        · exact isNumberByte_of_areDigits h.2 c hc
    · exact isNumberByte_of_areDigits h.2 c hc

theorem isNumberByte_of_isFraction {w : List UInt8} (h : isFraction w = true) : ∀ c ∈ w, isNumberByte c = true := by
  unfold isFraction at h
  split at h
  · rename_i w
    simp only [decide_eq_true_eq] at h
    intro c hc
    rcases List.mem_cons.mp hc with rfl | hc
    · rfl
    rw [← List.takeWhile_append_dropWhile (p := isDigit) (l := w)] at hc
    rcases List.mem_append.mp hc with hc | hc
    · exact isNumberByte_of_areDigits h.1 c hc
    · exact isNumberByte_of_isExponent h.2 c hc
  · exact isNumberByte_of_isExponent h

theorem isNumberByte_of_isNumber {w : List UInt8} (h : isNumber w = true) : ∀ c ∈ w, isNumberByte c = true := by
  have hunsigned : ∀ u : List UInt8, (areDigits (u.takeWhile isDigit) ∧
      ((u.takeWhile isDigit).length = 1 ∨ (u.takeWhile isDigit).head? ≠ some 0x30) ∧
      isFraction (u.dropWhile isDigit)) → ∀ c ∈ u, isNumberByte c = true := by
    rintro u ⟨hint, -, hfraction⟩ c hc
    rw [← List.takeWhile_append_dropWhile (p := isDigit) (l := u)] at hc
    rcases List.mem_append.mp hc with hc | hc
    · exact isNumberByte_of_areDigits hint c hc
    · exact isNumberByte_of_isFraction hfraction c hc
  simp only [isNumber, decide_eq_true_eq] at h
  split_ifs at h with hsign
  · cases w with
    | nil => exact hunsigned [] h
    | cons d w =>
      intro c hc
      rcases List.mem_cons.mp hc with rfl | hc
      · simp only [List.head?_cons, Option.some.injEq] at hsign
        exact hsign ▸ rfl
      · exact hunsigned w h c hc
  · exact hunsigned w h

/-- A word has one value. -/
theorem Denotes.word_unique {w : List UInt8} {v v' : Value} (h : Denotes [.word w] v) (h' : Denotes [.word w] v') :
    v = v' := by
  have hbool : ∀ b, boolWord b ≠ nullWord := by decide
  have hinj : ∀ b b', boolWord b = boolWord b' → b = b' := by decide
  cases h with
  | null =>
    generalize hw : nullWord = w at h'
    cases h' with
    | null => rfl
    | bool b => exact absurd hw.symm (hbool b)
    | number hn => rw [← hw, not_isNumber_literal.1] at hn; cases hn
  | bool b =>
    generalize hw : boolWord b = w at h'
    cases h' with
    | null => exact absurd hw (hbool b)
    | bool b' => rw [hinj b b' hw]
    | number hn => rw [← hw, not_isNumber_literal.2] at hn; cases hn
  | number hn =>
    cases h' with
    | null => rw [not_isNumber_literal.1] at hn; cases hn
    | bool b => rw [not_isNumber_literal.2] at hn; cases hn
    | number _ => rfl

/-! ### Values -/

/-- The first token of a value closes nothing. -/
theorem Denotes.exists_cons {ts : List Token} {v : Value} (h : Denotes ts v) :
    ∃ t rest, ts = t :: rest ∧ t ≠ .punct 0x5d := by
  cases h <;> exact ⟨_, _, rfl, by simp⟩

theorem Elements.exists_cons {ts : List Token} {items : List Value} (h : Elements ts items) :
    ∃ t rest, ts = t :: rest ∧ t ≠ .punct 0x5d := by
  cases h with
  | last h => exact h.exists_cons
  | more h _ =>
    obtain ⟨t, rest, rfl, ht⟩ := h.exists_cons
    exact ⟨t, _, rfl, ht⟩

theorem Members.exists_cons {ts : List Token} {members : List (List UInt8 × Value)} (h : Members ts members) :
    ∃ body rest, ts = .string body :: rest := by
  cases h <;> exact ⟨_, _, rfl⟩

theorem Denotes.of_word {w : List UInt8} {ts : List Token} {v : Value} (h : Denotes (.word w :: ts) v) : ts = [] := by
  cases h <;> rfl

theorem Denotes.of_string {body : List UInt8} {ts : List Token} {v : Value} (h : Denotes (.string body :: ts) v) :
    ts = [] ∧ ∃ s, v = .string s ∧ Decodes body s := by
  cases h with
  | string h => exact ⟨rfl, _, rfl, h⟩

theorem Denotes.of_punct {c : UInt8} {ts : List Token} {v : Value} (h : Denotes (.punct c :: ts) v) :
    (c = 0x5b ∧ (ts = [.punct 0x5d] ∧ v = .array [] ∨
      ∃ us items, ts = us ++ [.punct 0x5d] ∧ v = .array items ∧ Elements us items)) ∨
    (c = 0x7b ∧ (ts = [.punct 0x7d] ∧ v = .object [] ∨
      ∃ us members, ts = us ++ [.punct 0x7d] ∧ v = .object members ∧ Members us members)) := by
  cases h with
  | emptyArray => exact .inl ⟨rfl, .inl ⟨rfl, rfl⟩⟩
  | array h => exact .inl ⟨rfl, .inr ⟨_, _, rfl, rfl, h⟩⟩
  | emptyObject => exact .inr ⟨rfl, .inl ⟨rfl, rfl⟩⟩
  | object h => exact .inr ⟨rfl, .inr ⟨_, _, rfl, rfl, h⟩⟩

/-- Two values whose tokens begin in the same way have the first token in common. -/
theorem Denotes.cons_of_append {t : Token} {ts' r r' us : List Token} {v' : Value} (h' : Denotes ts' v')
    (heq : t :: us ++ r = ts' ++ r') : ∃ us', ts' = t :: us' ∧ us ++ r = us' ++ r' := by
  obtain ⟨t', us', rfl, -⟩ := h'.exists_cons
  simp only [List.cons_append, List.cons.injEq] at heq
  exact ⟨us', by rw [heq.1], heq.2⟩

mutual

/-- **The tokens of a value are no proper beginning of the tokens of another one.** -/
theorem Denotes.cancel : ∀ {ts ts' : List Token} {v v' : Value}, Denotes ts v → Denotes ts' v' →
    ∀ {r r' : List Token}, ts ++ r = ts' ++ r' → v = v' ∧ r = r'
  | _, _, _, _, .null, h', _, _, heq => by
    obtain ⟨us', rfl, hrest⟩ := h'.cons_of_append heq
    obtain rfl := h'.of_word
    exact ⟨Denotes.null.word_unique h', hrest⟩
  | _, _, _, _, .bool b, h', _, _, heq => by
    obtain ⟨us', rfl, hrest⟩ := h'.cons_of_append heq
    obtain rfl := h'.of_word
    exact ⟨(Denotes.bool b).word_unique h', hrest⟩
  | _, _, _, _, .number h, h', _, _, heq => by
    obtain ⟨us', rfl, hrest⟩ := h'.cons_of_append heq
    obtain rfl := h'.of_word
    exact ⟨(Denotes.number h).word_unique h', hrest⟩
  | _, _, _, _, .string h, h', _, _, heq => by
    obtain ⟨us', rfl, hrest⟩ := h'.cons_of_append heq
    obtain ⟨rfl, s', rfl, hs'⟩ := h'.of_string
    exact ⟨by rw [h.unique hs'], hrest⟩
  | _, _, _, _, .emptyArray, h', _, _, heq => by
    obtain ⟨us', rfl, hrest⟩ := h'.cons_of_append heq
    rcases h'.of_punct with ⟨-, ⟨rfl, rfl⟩ | ⟨us, items, rfl, rfl, hitems⟩⟩ | ⟨hc, -⟩
    · exact ⟨rfl, (List.cons.inj hrest).2⟩
    · obtain ⟨t, rest, rfl, ht⟩ := hitems.exists_cons
      exact absurd (List.cons.inj hrest).1.symm ht
    · cases hc
  | _, _, _, _, .array h, h', r, r', heq => by
    rw [List.cons_append] at heq
    obtain ⟨us', rfl, hrest⟩ := h'.cons_of_append heq
    rcases h'.of_punct with ⟨-, ⟨rfl, rfl⟩ | ⟨us, items, rfl, rfl, hitems⟩⟩ | ⟨hc, -⟩
    · obtain ⟨t, rest, rfl, ht⟩ := h.exists_cons
      exact absurd (List.cons.inj hrest).1 ht
    · rw [List.append_assoc, List.append_assoc] at hrest
      obtain ⟨rfl, rfl⟩ := h.cancel hitems hrest
      exact ⟨rfl, rfl⟩
    · cases hc
  | _, _, _, _, .emptyObject, h', _, _, heq => by
    obtain ⟨us', rfl, hrest⟩ := h'.cons_of_append heq
    rcases h'.of_punct with ⟨hc, -⟩ | ⟨-, ⟨rfl, rfl⟩ | ⟨us, members, rfl, rfl, hmembers⟩⟩
    · cases hc
    · exact ⟨rfl, (List.cons.inj hrest).2⟩
    · obtain ⟨body, rest, rfl⟩ := hmembers.exists_cons
      cases (List.cons.inj hrest).1
  | _, _, _, _, .object h, h', r, r', heq => by
    rw [List.cons_append] at heq
    obtain ⟨us', rfl, hrest⟩ := h'.cons_of_append heq
    rcases h'.of_punct with ⟨hc, -⟩ | ⟨-, ⟨rfl, rfl⟩ | ⟨us, members, rfl, rfl, hmembers⟩⟩
    · cases hc
    · obtain ⟨body, rest, rfl⟩ := h.exists_cons
      cases (List.cons.inj hrest).1
    · rw [List.append_assoc, List.append_assoc] at hrest
      obtain ⟨rfl, rfl⟩ := h.cancel hmembers hrest
      exact ⟨rfl, rfl⟩

theorem Elements.cancel : ∀ {ts ts' : List Token} {items items' : List Value}, Elements ts items →
    Elements ts' items' → ∀ {r r' : List Token}, ts ++ ([.punct 0x5d] ++ r) = ts' ++ ([.punct 0x5d] ++ r') →
    items = items' ∧ r = r'
  | _, _, _, _, .last h, h', _, _, heq => by
    cases h' with
    | last h' =>
      obtain ⟨rfl, heq⟩ := h.cancel h' heq
      exact ⟨rfl, (List.cons.inj heq).2⟩
    | more h' hrest' =>
      rw [List.append_assoc] at heq
      obtain ⟨-, heq⟩ := h.cancel h' heq
      cases heq
  | _, _, _, _, .more h hrest, h', _, _, heq => by
    rw [List.append_assoc] at heq
    cases h' with
    | last h' =>
      obtain ⟨-, heq⟩ := h.cancel h' heq
      cases heq
    | more h' hrest' =>
      rw [List.append_assoc] at heq
      obtain ⟨rfl, heq⟩ := h.cancel h' heq
      obtain ⟨rfl, rfl⟩ := hrest.cancel hrest' (List.cons.inj heq).2
      exact ⟨rfl, rfl⟩

theorem Members.cancel : ∀ {ts ts' : List Token} {members members' : List (List UInt8 × Value)}, Members ts members →
    Members ts' members' → ∀ {r r' : List Token}, ts ++ ([.punct 0x7d] ++ r) = ts' ++ ([.punct 0x7d] ++ r') →
    members = members' ∧ r = r'
  | _, _, _, _, .last hkey h, h', _, _, heq => by
    cases h' with
    | last hkey' h' =>
      simp only [List.cons_append, List.cons.injEq, Token.string.injEq] at heq
      obtain ⟨rfl, -, heq⟩ := heq
      obtain ⟨rfl, heq⟩ := h.cancel h' heq
      exact ⟨by rw [hkey.unique hkey'], (List.cons.inj heq).2⟩
    | more hkey' h' hrest' =>
      simp only [List.cons_append, List.append_assoc, List.cons.injEq, Token.string.injEq] at heq
      obtain ⟨-, -, heq⟩ := heq
      obtain ⟨-, heq⟩ := h.cancel h' heq
      cases heq
  | _, _, _, _, .more hkey h hrest, h', _, _, heq => by
    cases h' with
    | last hkey' h' =>
      simp only [List.cons_append, List.append_assoc, List.cons.injEq, Token.string.injEq] at heq
      obtain ⟨-, -, heq⟩ := heq
      obtain ⟨-, heq⟩ := h.cancel h' heq
      cases heq
    | more hkey' h' hrest' =>
      simp only [List.cons_append, List.append_assoc, List.cons.injEq, Token.string.injEq] at heq
      obtain ⟨rfl, -, heq⟩ := heq
      obtain ⟨rfl, heq⟩ := h.cancel h' heq
      obtain ⟨rfl, rfl⟩ := hrest.cancel hrest' (List.cons.inj heq).2
      exact ⟨by rw [hkey.unique hkey'], rfl⟩

end

/-- **A text is a document with at most one value.** -/
theorem Document.unique {text : List UInt8} {v w : Value} (hv : Document text v) (hw : Document text w) : v = w := by
  obtain ⟨-, ts, hts, hv⟩ := hv
  obtain ⟨-, us, hus, hw⟩ := hw
  rw [hts, Option.some.injEq] at hus
  exact (@Denotes.cancel ts ts v w hv (hus ▸ hw) [] [] rfl).1

end DenseLite.Lib.JsonText
