import DenseLite.Lib.Utf8
import Mathlib.Data.List.Basic

/-! # JSON texts

When a text is a JSON document, and which value it has: the text is UTF-8, a scanner divides it into tokens, and the
tokens are those of a value. The scanner is a machine that reads byte by byte and never fails, so what it does with a
text that is put together of parts is put together as well (`scan_append`). The grammar and the decoding of strings
are relations. -/

namespace DenseLite.Lib.JsonText

/-! ### Values -/

/-- A JSON value; a number is its text. -/
inductive Value
  | null
  | bool (b : Bool)
  | number (text : List UInt8)
  | string (s : List UInt8)
  | array (items : List Value)
  | object (members : List (List UInt8 × Value))

namespace Value

/-- The last member of an object that has the key. -/
def get? : Value → List UInt8 → Option Value
  | .object members, key => (members.reverse.find? (·.1 = key)).map (·.2)
  | _, _ => none

/-- The first element of an array. -/
def head? : Value → Option Value
  | .array items => items.head?
  | _ => none

end Value

/-! ### The scanner -/

/-- A token: one of `{}[]:,`, what stands between the quotes of a string, or a literal name or number. -/
inductive Token
  | punct (c : UInt8)
  | string (body : List UInt8)
  | word (text : List UInt8)
deriving DecidableEq, Repr

/-- Where the scanner is: between tokens, in a word, in a string, or behind a backslash in a string. -/
inductive State
  | out
  | word (text : List UInt8)
  | str (body : List UInt8)
  | esc (body : List UInt8)
deriving DecidableEq, Repr

def isSpace (c : UInt8) : Bool := c = 0x20 ∨ c = 0x09 ∨ c = 0x0a ∨ c = 0x0d

def isPunct (c : UInt8) : Bool := c = 0x7b ∨ c = 0x7d ∨ c = 0x5b ∨ c = 0x5d ∨ c = 0x3a ∨ c = 0x2c

/-- A byte between tokens. -/
def begin (c : UInt8) : State × List Token :=
  if isSpace c then (.out, [])
  else if c = 0x22 then (.str [], [])
  else if isPunct c then (.out, [.punct c])
  else (.word [c], [])

/-- One byte: the state after it, and the tokens that it completes. -/
def step : State → UInt8 → State × List Token
  | .out, c => begin c
  | .word w, c =>
    match begin c with
    | (.word _, _) => (.word (w ++ [c]), [])
    | (q, ts) => (q, .word w :: ts)
  | .str b, c =>
    if c = 0x22 then (.out, [.string b]) else if c = 0x5c then (.esc (b ++ [c]), []) else (.str (b ++ [c]), [])
  | .esc b, c => (.str (b ++ [c]), [])

/-- The bytes of a text. -/
def scan : State → List UInt8 → State × List Token
  | q, [] => (q, [])
  | q, c :: text => ((scan (step q c).1 text).1, (step q c).2 ++ (scan (step q c).1 text).2)

/-- The tokens of a text, if it does not end within a string. -/
def tokens (text : List UInt8) : Option (List Token) :=
  match scan .out text with
  | (.out, ts) => some ts
  | (.word w, ts) => some (ts ++ [.word w])
  | _ => none

theorem scan_append (q : State) (s t : List UInt8) :
    scan q (s ++ t) = ((scan (scan q s).1 t).1, (scan q s).2 ++ (scan (scan q s).1 t).2) := by
  induction s generalizing q with
  | nil => rfl
  | cons c s ih => rw [List.cons_append, scan, ih, scan, List.append_assoc]

/-- The character that a letter after a backslash stands for. -/
def shortEscapes : List (UInt8 × UInt8) :=
  [(0x22, 0x22), (0x5c, 0x5c), (0x2f, 0x2f), (0x62, 0x08), (0x66, 0x0c), (0x6e, 0x0a), (0x72, 0x0d), (0x74, 0x09)]

/-- The value of a hexadecimal digit. -/
def hexDigit (c : UInt8) : Option ℕ :=
  if 0x30 ≤ c ∧ c ≤ 0x39 then some (c.toNat - 0x30)
  else if 0x61 ≤ c ∧ c ≤ 0x66 then some (c.toNat - 0x61 + 10)
  else if 0x41 ≤ c ∧ c ≤ 0x46 then some (c.toNat - 0x41 + 10)
  else none

/-- The number of four hexadecimal digits. -/
def hex4 (a b c d : UInt8) : Option ℕ := do
  some ((((← hexDigit a) * 16 + (← hexDigit b)) * 16 + (← hexDigit c)) * 16 + (← hexDigit d))

/-- The UTF-8 bytes of a code point. -/
def encode (u : ℕ) : List UInt8 :=
  if u < 0x80 then [.ofNat u]
  else if u < 0x800 then [.ofNat (0xc0 + u / 64), .ofNat (0x80 + u % 64)]
  else if u < 0x10000 then [.ofNat (0xe0 + u / 4096), .ofNat (0x80 + u / 64 % 64), .ofNat (0x80 + u % 64)]
  else [.ofNat (0xf0 + u / 262144), .ofNat (0x80 + u / 4096 % 64), .ofNat (0x80 + u / 64 % 64), .ofNat (0x80 + u % 64)]

/-- What stands between the quotes of a string stands for the string. -/
inductive Decodes : List UInt8 → List UInt8 → Prop
  | nil : Decodes [] []
  | plain {c : UInt8} {body s : List UInt8} (hcontrol : 0x20 ≤ c) (hquote : c ≠ 0x22) (hbackslash : c ≠ 0x5c)
    (h : Decodes body s) : Decodes (c :: body) (c :: s)
  | short {e c : UInt8} {body s : List UInt8} (he : (e, c) ∈ shortEscapes) (h : Decodes body s) :
    Decodes (0x5c :: e :: body) (c :: s)
  | unicode {a b c d : UInt8} {u : ℕ} {body s : List UInt8} (hu : hex4 a b c d = some u)
    (hsingle : ¬ (0xd800 ≤ u ∧ u < 0xe000)) (h : Decodes body s) :
    Decodes (0x5c :: 0x75 :: a :: b :: c :: d :: body) (encode u ++ s)
  | pair {a b c d a' b' c' d' : UInt8} {u v : ℕ} {body s : List UInt8} (hu : hex4 a b c d = some u)
    (hhigh : 0xd800 ≤ u ∧ u < 0xdc00) (hv : hex4 a' b' c' d' = some v) (hlow : 0xdc00 ≤ v ∧ v < 0xe000)
    (h : Decodes body s) :
    Decodes (0x5c :: 0x75 :: a :: b :: c :: d :: 0x5c :: 0x75 :: a' :: b' :: c' :: d' :: body)
      (encode (0x10000 + (u - 0xd800) * 1024 + (v - 0xdc00)) ++ s)

/-! ### The grammar -/

def isDigit (c : UInt8) : Bool := 0x30 ≤ c ∧ c ≤ 0x39

/-- At least one digit. -/
def areDigits (w : List UInt8) : Bool := w ≠ [] ∧ w.all isDigit

/-- An exponent, or nothing. -/
def isExponent : List UInt8 → Bool
  | [] => true
  | e :: w => (e = 0x65 ∨ e = 0x45) ∧ areDigits (if w.head? = some 0x2b ∨ w.head? = some 0x2d then w.tail else w)

/-- Decimals and an exponent, or what of them is there. -/
def isFraction : List UInt8 → Bool
  | 0x2e :: w => areDigits (w.takeWhile isDigit) ∧ isExponent (w.dropWhile isDigit)
  | w => isExponent w

/-- A number. -/
def isNumber (w : List UInt8) : Bool :=
  let w := if w.head? = some 0x2d then w.tail else w
  let int := w.takeWhile isDigit
  areDigits int ∧ (int.length = 1 ∨ int.head? ≠ some 0x30) ∧ isFraction (w.dropWhile isDigit)

/-- The literal names. -/
def nullWord : List UInt8 := [0x6e, 0x75, 0x6c, 0x6c]

def boolWord (b : Bool) : List UInt8 := if b then [0x74, 0x72, 0x75, 0x65] else [0x66, 0x61, 0x6c, 0x73, 0x65]

mutual

/-- The tokens of a value. -/
inductive Denotes : List Token → Value → Prop
  | null : Denotes [.word nullWord] .null
  | bool (b : Bool) : Denotes [.word (boolWord b)] (.bool b)
  | number {w : List UInt8} (h : isNumber w) : Denotes [.word w] (.number w)
  | string {body s : List UInt8} (h : Decodes body s) : Denotes [.string body] (.string s)
  | emptyArray : Denotes [.punct 0x5b, .punct 0x5d] (.array [])
  | array {ts : List Token} {items : List Value} (h : Elements ts items) :
    Denotes (.punct 0x5b :: ts ++ [.punct 0x5d]) (.array items)
  | emptyObject : Denotes [.punct 0x7b, .punct 0x7d] (.object [])
  | object {ts : List Token} {members : List (List UInt8 × Value)} (h : Members ts members) :
    Denotes (.punct 0x7b :: ts ++ [.punct 0x7d]) (.object members)

/-- The tokens between the brackets of an array. -/
inductive Elements : List Token → List Value → Prop
  | last {ts : List Token} {v : Value} (h : Denotes ts v) : Elements ts [v]
  | more {ts rest : List Token} {v : Value} {items : List Value} (h : Denotes ts v) (hrest : Elements rest items) :
    Elements (ts ++ .punct 0x2c :: rest) (v :: items)

/-- The tokens between the braces of an object. -/
inductive Members : List Token → List (List UInt8 × Value) → Prop
  | last {body key : List UInt8} {ts : List Token} {v : Value} (hkey : Decodes body key) (h : Denotes ts v) :
    Members (.string body :: .punct 0x3a :: ts) [(key, v)]
  | more {body key : List UInt8} {ts rest : List Token} {v : Value} {members : List (List UInt8 × Value)}
    (hkey : Decodes body key) (h : Denotes ts v) (hrest : Members rest members) :
    Members (.string body :: .punct 0x3a :: ts ++ .punct 0x2c :: rest) ((key, v) :: members)

end

/-- The text is a JSON document with this value. -/
def Document (text : List UInt8) (v : Value) : Prop :=
  Utf8.valid text = true ∧ ∃ ts, tokens text = some ts ∧ Denotes ts v

/-! ### Plain strings -/

/-- Every byte stands for itself in a string. -/
def Plain (s : List UInt8) : Prop := ∀ c ∈ s, 0x20 ≤ c ∧ c ≠ 0x22 ∧ c ≠ 0x5c

instance (s : List UInt8) : Decidable (Plain s) := inferInstanceAs (Decidable (∀ c ∈ s, _))

theorem Plain.decodes : ∀ {s : List UInt8}, Plain s → Decodes s s
  | [], _ => .nil
  | c :: _, h =>
    have hc := h c List.mem_cons_self
    .plain hc.1 hc.2.1 hc.2.2 (Plain.decodes fun x hx => h x (List.mem_cons_of_mem c hx))

theorem length_encode_le (u : ℕ) : (encode u).length ≤ 4 := by
  unfold encode
  split_ifs <;> simp

/-- A string is not longer than what stands between its quotes, and shorter if that has an escape. -/
theorem Decodes.length_le {body s : List UInt8} (h : Decodes body s) :
    s.length ≤ body.length ∧ (s.length = body.length → s = body ∧ Plain body) := by
  induction h with
  | nil => exact ⟨Nat.le_refl _, fun _ => ⟨rfl, fun _ h => absurd h List.not_mem_nil⟩⟩
  | @plain c body s hcontrol hquote hbackslash _ ih =>
    simp only [List.length_cons, Nat.add_le_add_iff_right, Nat.add_right_cancel_iff]
    refine ⟨ih.1, fun hlen => ?_⟩
    obtain ⟨rfl, hplain⟩ := ih.2 hlen
    exact ⟨rfl, fun x hx => (List.mem_cons.mp hx).elim (fun heq => heq ▸ ⟨hcontrol, hquote, hbackslash⟩) (hplain x)⟩
  | short _ _ ih =>
    simp only [List.length_cons]
    omega
  | @unicode a b c d u _ _ _ _ _ ih =>
    have := length_encode_le u
    simp only [List.length_cons, List.length_append]
    omega
  | @pair a b c d a' b' c' d' u v _ _ _ _ _ _ _ ih =>
    have := length_encode_le (0x10000 + (u - 0xd800) * 1024 + (v - 0xdc00))
    simp only [List.length_cons, List.length_append]
    omega

theorem scan_str_plain {c : UInt8} (hquote : c ≠ 0x22) (hbackslash : c ≠ 0x5c) (b text : List UInt8) :
    scan (.str b) (c :: text) = scan (.str (b ++ [c])) text := by
  simp [scan, step, hquote, hbackslash]

theorem scan_str_escape (c : UInt8) (b text : List UInt8) :
    scan (.str b) (0x5c :: c :: text) = scan (.str (b ++ [0x5c, c])) text := by
  simp [scan, step]

theorem hexDigit_plain {c : UInt8} {n : ℕ} (h : hexDigit c = some n) : c ≠ 0x22 ∧ c ≠ 0x5c := by
  constructor <;> rintro rfl <;> cases h

/-- The four digits of a code point are no end of a string. -/
theorem scan_str_hex4 {a b c d : UInt8} {u : ℕ} (h : hex4 a b c d = some u) (body text : List UInt8) :
    scan (.str body) (a :: b :: c :: d :: text) = scan (.str (body ++ [a, b, c, d])) text := by
  obtain ⟨_, ha, h⟩ := Option.bind_eq_some_iff.mp h
  obtain ⟨_, hb, h⟩ := Option.bind_eq_some_iff.mp h
  obtain ⟨_, hc, h⟩ := Option.bind_eq_some_iff.mp h
  obtain ⟨_, hd, -⟩ := Option.bind_eq_some_iff.mp h
  rw [scan_str_plain (hexDigit_plain ha).1 (hexDigit_plain ha).2,
    scan_str_plain (hexDigit_plain hb).1 (hexDigit_plain hb).2,
    scan_str_plain (hexDigit_plain hc).1 (hexDigit_plain hc).2,
    scan_str_plain (hexDigit_plain hd).1 (hexDigit_plain hd).2]
  simp only [List.append_assoc, List.cons_append, List.nil_append]

/-- The scanner stays in a string. -/
theorem Decodes.scan {body s : List UInt8} (h : Decodes body s) (b : List UInt8) :
    scan (.str b) body = (.str (b ++ body), []) := by
  induction h generalizing b with
  | nil => simp [JsonText.scan]
  | plain _ hquote hbackslash _ ih => rw [scan_str_plain hquote hbackslash, ih]; simp
  | short _ _ ih => rw [scan_str_escape, ih]; simp
  | unicode hu _ _ ih => rw [scan_str_escape, scan_str_hex4 hu, ih]; simp
  | pair hu _ hv _ _ ih => rw [scan_str_escape, scan_str_hex4 hu, scan_str_escape, scan_str_hex4 hv, ih]; simp

/-! ### What is scanned of a part -/

/-- The length of the string that has begun. -/
def State.size : State → ℕ
  | .str b | .esc b => b.length
  | .out | .word _ => 0

/-- What the scanner may make of a text that follows `b` in a string: the string goes on to the end of the text, or
every string is shorter than the two together. -/
def FromString (b text : List UInt8) (r : State × List Token) : Prop :=
  r.2 = [] ∧ (r.1 = .str (b ++ text) ∨ r.1 = .esc (b ++ text)) ∨
    r.1.size < b.length + text.length ∧ ∀ x, .string x ∈ r.2 → x.length < b.length + text.length

theorem FromString.cons {b text : List UInt8} {c : UInt8} {r : State × List Token}
    (h : FromString (b ++ [c]) text r) : FromString b (c :: text) r := by
  have hlen : (b ++ [c]).length + text.length = b.length + (c :: text).length := by
    simp only [List.length_append, List.length_cons, List.length_nil]
    omega
  unfold FromString at h ⊢
  rwa [hlen, List.append_assoc, List.singleton_append] at h

/-- A byte of a word. -/
def isWordByte (c : UInt8) : Bool := begin c = (.word [c], [])

theorem scan_word {c : UInt8} (hc : isWordByte c) (w text : List UInt8) :
    scan (.word w) (c :: text) = scan (.word (w ++ [c])) text := by
  rw [scan, step, of_decide_eq_true hc]
  rfl

theorem scan_word_append : ∀ (w : List UInt8) {s : List UInt8} (_ : ∀ c ∈ s, isWordByte c) (text : List UInt8),
    scan (.word w) (s ++ text) = scan (.word (w ++ s)) text
  | w, [], _, text => by rw [List.nil_append, List.append_nil]
  | w, c :: s, hs, text => by
    rw [List.cons_append, scan_word (hs c List.mem_cons_self),
      scan_word_append (w ++ [c]) (fun x hx => hs x (List.mem_cons_of_mem c hx)), List.append_assoc,
      List.singleton_append]

/-- A word between tokens. -/
theorem scan_out_word {s : List UInt8} (hne : s ≠ []) (hs : ∀ c ∈ s, isWordByte c) (text : List UInt8) :
    scan .out (s ++ text) = scan (.word s) text := by
  obtain ⟨c, s, rfl⟩ := List.exists_cons_of_ne_nil hne
  have hc := of_decide_eq_true (hs c List.mem_cons_self)
  rw [List.cons_append, scan, step, hc, List.nil_append,
    scan_word_append [c] fun x hx => hs x (List.mem_cons_of_mem c hx)]
  rfl

/-- A literal name or a number. -/
def IsWord (w : List UInt8) : Prop := w = nullWord ∨ (∃ b, w = boolWord b) ∨ isNumber w = true

mutual

/-- The words of a document are literal names and numbers. -/
theorem Denotes.isWord : ∀ {ts : List Token} {v : Value}, Denotes ts v → ∀ {w : List UInt8}, .word w ∈ ts → IsWord w
  | _, _, .null, w, hw => Or.inl (by simpa using hw)
  | _, _, .bool b, w, hw => Or.inr (Or.inl ⟨b, by simpa using hw⟩)
  | _, _, .number h, w, hw => Or.inr (Or.inr (by simpa [List.mem_singleton.mp hw |> Token.word.inj] using h))
  | _, _, .string _, w, hw => by simp at hw
  | _, _, .emptyArray, w, hw => by simp at hw
  | _, _, .array h, w, hw => h.isWord (by simpa using hw)
  | _, _, .emptyObject, w, hw => by simp at hw
  | _, _, .object h, w, hw => h.isWord (by simpa using hw)

theorem Elements.isWord : ∀ {ts : List Token} {items : List Value}, Elements ts items →
    ∀ {w : List UInt8}, .word w ∈ ts → IsWord w
  | _, _, .last h, w, hw => h.isWord hw
  | _, _, .more h hrest, w, hw => by
    simp only [List.mem_append, List.mem_cons, reduceCtorEq, false_or] at hw
    exact hw.elim h.isWord hrest.isWord

theorem Members.isWord : ∀ {ts : List Token} {members : List (List UInt8 × Value)}, Members ts members →
    ∀ {w : List UInt8}, .word w ∈ ts → IsWord w
  | _, _, .last _ h, w, hw => h.isWord (by simpa using hw)
  | _, _, .more _ h hrest, w, hw => by
    simp only [List.cons_append, List.mem_append, List.mem_cons, reduceCtorEq, false_or] at hw
    exact hw.elim h.isWord hrest.isWord

end

/-- The tokens of a key and of a string as its value stand next to each other. -/
def Pair (key body : List UInt8) (ts : List Token) : Prop :=
  [.string key, .punct 0x3a, .string body] <:+: ts

section Parts

variable {key body : List UInt8} {ts ts' : List Token}

end Parts

end DenseLite.Lib.JsonText
