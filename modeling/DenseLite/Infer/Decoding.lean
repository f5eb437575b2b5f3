import DenseLite.Infer.Tokenizers
import DenseLite.Lib.Utf8
import Mathlib.Data.List.MinMax

/-! # Decoding what was encoded

`detokenize` and `Tokenizer::decode` put space and newline back into every token by itself. A text comes back
from its tokens exactly when it can be cut into parts whose expansions are the tokens (`lossless_iff_cut`); that a
vocabulary has the symbols of all bytes or the characters of the text is not enough (`covers_not_lossless`). Where
the tokens are valid UTF-8 and every character of the expanded text is one, the greedy cut is such a cut
(`decode_encode`). -/

namespace DenseLite.Infer.Decoding

open DenseLite.Lib.ByteStream DenseLite.Lib.Munch DenseLite.Lib.Utf8 DenseLite.Infer.Local
open DenseLite.Infer.Tokenizers DenseLite.Gguf.Fields
open DenseLite.Gguf.Loader (TrieNode Vocab)
open DenseLite.Infer.State (Token ascii)

/-! ### Decoding -/

/-- The loop that replaces every `0xc4 b` by `r`, and goes on behind it. -/
def replacePair (b r : UInt8) : Bytes → Bytes
  | [] => []
  | [x] => [x]
  | x :: y :: rest =>
    if x = 0xc4 ∧ y = b then r :: replacePair b r rest else x :: replacePair b r (y :: rest)

/-- A token as text: first the spaces, then the newlines. -/
def tokenText (s : Bytes) : Bytes := replacePair 0x8a 0x0a (replacePair 0xa0 0x20 s)

/-- `detokenize`, and `Tokenizer::decode` of one token. -/
def detokenize (tokens : List Bytes) (tokenId : Token) : Bytes :=
  if 0 ≤ tokenId.toInt ∧ tokenId.toInt < int32OfU32 (UInt32.ofNat tokens.length) then
    tokenText (tokens.getD tokenId.toInt.toNat [])
  else []

/-- `Tokenizer::decode` of a list of tokens. -/
def Tokenizer.decode (t : Tokenizer) (ids : List Token) : Bytes :=
  match t.vocab with
  | none => []
  | some v => ids.flatMap (detokenize v.tokens)

/-- The bytes of a text of which `skip` are taken already that the loop of the tokenizers leaves out: `tokenize`
reports each of them as unmatched. -/
def unmatchedAfter (root : TrieNode) : (skip : ℕ) → Bytes → Bytes
  | _, [] => []
  | skip + 1, _ :: cs => unmatchedAfter root skip cs
  | 0, c :: cs =>
    match longestMatch root 0 none (c :: cs) with
    | none => c :: unmatchedAfter root 0 cs
    | some (_, len) => unmatchedAfter root (len - 1) cs

/-- The bytes of the expanded text that no token covers. -/
def unmatched (root : TrieNode) (text : Bytes) : Bytes := unmatchedAfter root 0 (bpeText text)

/-- Every byte of the text is covered by a token that is emitted, and the tokens decode to the text. -/
def Lossless (tokens : List Bytes) (text : Bytes) : Prop :=
  unmatched (loadedVocab tokens).root text = [] ∧
    Tokenizer.decode ⟨some (loadedVocab tokens)⟩ (Tokenizer.encode ⟨some (loadedVocab tokens)⟩ text) = text

/-! ### Cuts of a text -/

/-- The text has no bytes that would be read as a space or a newline: as valid UTF-8, no U+0120 and no U+010A. -/
def Plain (text : Bytes) : Prop := ¬ [0xc4, 0xa0] <:+: text ∧ ¬ [0xc4, 0x8a] <:+: text

/-- The text is cut into plain parts whose expansions are tokens, each of them the longest token that the
expansion of the rest begins with. -/
inductive Cut (tokens : List Bytes) : Bytes → Prop
  | nil : Cut tokens []
  | part {t rest : Bytes} (hne : t ≠ []) (hplain : Plain t) (hmem : bpeText t ∈ tokens)
      (hlong : ∀ w ∈ tokens, w <+: bpeText (t ++ rest) → w.length ≤ (bpeText t).length)
      (hrest : Cut tokens rest) : Cut tokens (t ++ rest)

/-! ### Replacing -/

section Replace

/-- The two loops as one. -/
def unexpand : Bytes → Bytes
  | [] => []
  | [x] => [x]
  | x :: y :: rest =>
    if x = 0xc4 ∧ y = 0xa0 then 0x20 :: unexpand rest
    else if x = 0xc4 ∧ y = 0x8a then 0x0a :: unexpand rest
    else x :: unexpand (y :: rest)

theorem replacePair_of_ne {b r x : UInt8} (hx : x ≠ 0xc4) (s : Bytes) :
    replacePair b r (x :: s) = x :: replacePair b r s := by
  cases s with
  | nil => rfl
  | cons y rest => rw [replacePair, if_neg fun h => hx h.1]

/-- What stands first is kept or replaced. -/
theorem replacePair_cons (b r y : UInt8) (rest : Bytes) :
    ∃ z s, replacePair b r (y :: rest) = z :: s ∧ (z = y ∨ z = r) := by
  cases rest with
  | nil => exact ⟨y, [], rfl, Or.inl rfl⟩
  | cons x rest =>
    rw [replacePair]
    split_ifs
    · exact ⟨r, _, rfl, Or.inr rfl⟩
    · exact ⟨y, _, rfl, Or.inl rfl⟩

theorem tokenText_eq_unexpand : ∀ s : Bytes, tokenText s = unexpand s
  | [] => rfl
  | [x] => rfl
  | x :: y :: rest => by
    unfold tokenText
    rw [replacePair, unexpand]
    by_cases hspace : x = 0xc4 ∧ y = 0xa0
    · rw [if_pos hspace, if_pos hspace, replacePair_of_ne (by decide)]
      exact congrArg _ (tokenText_eq_unexpand rest)
    · rw [if_neg hspace, if_neg hspace]
      by_cases hline : x = 0xc4 ∧ y = 0x8a
      · obtain ⟨rfl, rfl⟩ := hline
        rw [if_pos ⟨rfl, rfl⟩, replacePair_of_ne (x := 0x8a) (by decide), replacePair, if_pos ⟨rfl, rfl⟩]
        exact congrArg _ (tokenText_eq_unexpand rest)
      · rw [if_neg hline, ← tokenText_eq_unexpand (y :: rest)]
        by_cases hx : x = 0xc4
        · -- what follows stays, or becomes a space: no newline arises
          obtain ⟨z, s, hz, hhead⟩ := replacePair_cons 0xa0 0x20 y rest
          have hne : z ≠ 0x8a := by
            rcases hhead with rfl | rfl
            · exact fun h => hline ⟨hx, h⟩
            · decide
          rw [tokenText, hz, replacePair, if_neg fun h => hne h.2]
        · rw [replacePair_of_ne hx]
          rfl

theorem bpeText_append (s t : Bytes) : bpeText (s ++ t) = bpeText s ++ bpeText t := List.flatMap_append

theorem bpeText_cons_of_ne {x : UInt8} (hs : x ≠ 0x20) (hl : x ≠ 0x0a) (t : Bytes) :
    bpeText (x :: t) = x :: bpeText t := by
  show (if x = 0x20 then [0xc4, 0xa0] else if x = 0x0a then [0xc4, 0x8a] else [x]) ++ bpeText t = _
  rw [if_neg hs, if_neg hl]
  rfl

theorem bpeText_ne_nil {t : Bytes} (h : t ≠ []) : bpeText t ≠ [] := by
  obtain ⟨x, t, rfl⟩ := List.exists_cons_of_ne_nil h
  show (if x = 0x20 then [0xc4, 0xa0] else if x = 0x0a then [0xc4, 0x8a] else [x]) ++ bpeText t ≠ []
  split_ifs <;> simp

/-- What has no spaces and newlines is the expansion of what it is replaced by. -/
theorem bpeText_unexpand : ∀ {w : Bytes}, (∀ b ∈ w, b ≠ 0x20 ∧ b ≠ 0x0a) → bpeText (unexpand w) = w
  | [], _ => rfl
  | [x], h => by
    obtain ⟨hs, hl⟩ := h x (by simp)
    exact bpeText_cons_of_ne hs hl []
  | x :: y :: rest, h => by
    obtain ⟨hs, hl⟩ := h x (by simp)
    have hrest : ∀ b ∈ rest, b ≠ 0x20 ∧ b ≠ 0x0a := fun b hb => h b (by simp [hb])
    rw [unexpand]
    split_ifs with hspace hline
    · obtain ⟨rfl, rfl⟩ := hspace
      exact congrArg ([0xc4, 0xa0] ++ ·) (bpeText_unexpand hrest)
    · obtain ⟨rfl, rfl⟩ := hline
      exact congrArg ([0xc4, 0x8a] ++ ·) (bpeText_unexpand hrest)
    · rw [bpeText_cons_of_ne hs hl, bpeText_unexpand fun b hb => h b (List.mem_cons_of_mem x hb)]

theorem Plain.of_infix {s t : Bytes} (ht : Plain t) (h : s <:+: t) : Plain s :=
  ⟨fun hpair => ht.1 (hpair.trans h), fun hpair => ht.2 (hpair.trans h)⟩

theorem plain_cons {x : UInt8} {t : Bytes} :
    Plain (x :: t) ↔ ¬ (x = 0xc4 ∧ (t.head? = some 0xa0 ∨ t.head? = some 0x8a)) ∧ Plain t := by
  have hpair : ∀ b : UInt8, [0xc4, b] <+: x :: t ↔ x = 0xc4 ∧ t.head? = some b := by
    intro b
    cases t with
    | nil => simp
    | cons y t => simp [List.cons_prefix_cons, eq_comm]
  unfold Plain
  rw [List.infix_cons_iff, List.infix_cons_iff, hpair, hpair]
  tauto

/-- The expansion of a text begins with a byte of the second half of a pair only where the text does. -/
theorem head?_bpeText {b : UInt8} (hb : b = 0xa0 ∨ b = 0x8a) (t : Bytes) :
    (bpeText t).head? = some b ↔ t.head? = some b := by
  cases t with
  | nil => rfl
  | cons x t =>
    show ((if x = 0x20 then [0xc4, 0xa0] else if x = 0x0a then [0xc4, 0x8a] else [x]) ++ bpeText t).head? =
      some b ↔ some x = some b
    split_ifs with hs hl
    · rcases hb with rfl | rfl <;> simp [hs]
    · rcases hb with rfl | rfl <;> simp [hl]
    · simp

/-- **An expansion is replaced by its text** when the text is plain, and only then. -/
theorem unexpand_bpeText : ∀ t : Bytes, unexpand (bpeText t) = t ↔ Plain t
  | [] => by simp [Plain, bpeText, unexpand]
  | x :: t => by
    have ih := unexpand_bpeText t
    rw [plain_cons]
    by_cases hs : x = 0x20
    · subst hs
      show 0x20 :: unexpand (bpeText t) = 0x20 :: t ↔ _
      simp [ih]
    by_cases hl : x = 0x0a
    · subst hl
      show 0x0a :: unexpand (bpeText t) = 0x0a :: t ↔ _
      simp [ih]
    rw [bpeText_cons_of_ne hs hl]
    cases hexp : bpeText t with
    | nil =>
      have ht : t = [] := by
        by_contra hne
        exact bpeText_ne_nil hne hexp
      subst ht
      simp [unexpand, Plain]
    | cons y r =>
      have hheads := fun b hb => head?_bpeText (b := b) hb t
      rw [hexp, List.head?_cons] at hheads
      rw [unexpand, ← hheads 0xa0 (Or.inl rfl), ← hheads 0x8a (Or.inr rfl), ← hexp, Option.some_inj, Option.some_inj]
      split_ifs with h0 h1
      · exact iff_of_false (fun h => hs (by simpa using (List.cons.inj h).1.symm)) fun h => h.1 ⟨h0.1, Or.inl h0.2⟩
      · exact iff_of_false (fun h => hl (by simpa using (List.cons.inj h).1.symm)) fun h => h.1 ⟨h1.1, Or.inr h1.2⟩
      · rw [List.cons_inj_right, ih]
        tauto

end Replace

/-! ### Tokens and their numbers -/

section Numbers

variable {tokens : List Bytes} {w : Bytes}

/-- The token that the trie has for a string. -/
def stored (tokens : List Bytes) (w : Bytes) : Option Token := (lastIndex tokens w).bind storedId

theorem lastIndex_eq_some {j : ℕ} (h : lastIndex tokens w = some j) : j < tokens.length ∧ tokens[j]? = some w := by
  unfold lastIndex at h
  have hget := List.find?_some h
  exact ⟨List.mem_range.mp (List.mem_reverse.mp (List.mem_of_find?_eq_some h)), by simpa using hget⟩

theorem lastIndex_eq_none_iff : lastIndex tokens w = none ↔ w ∉ tokens := by
  unfold lastIndex
  rw [List.find?_eq_none, List.mem_iff_getElem?]
  constructor
  · rintro h ⟨j, hj⟩
    have hlt := (List.getElem?_eq_some_iff.mp hj).1
    exact h j (List.mem_reverse.mpr (List.mem_range.mpr hlt)) (by simpa using hj)
  · intro h j _ hj
    exact h ⟨j, by simpa using hj⟩

/-- With no more tokens than an `int` can number, a string has a token exactly when it is in the list. -/
theorem stored_eq_none_iff (hlen : tokens.length < 2 ^ 31) : stored tokens w = none ↔ w ∉ tokens := by
  rw [← lastIndex_eq_none_iff, stored]
  cases hlast : lastIndex tokens w with
  | none => exact iff_of_true rfl rfl
  | some j =>
    have hint := toInt_storedId (j := j) (by have := (lastIndex_eq_some hlast).1; omega)
    refine iff_of_false (fun h => ?_) (by simp)
    rw [Option.bind_some] at h
    simp [h] at hint

/-- The token of a string decodes to its text. -/
theorem detokenize_stored (hlen : tokens.length < 2 ^ 31) {id : Token} (h : stored tokens w = some id) :
    detokenize tokens id = tokenText w := by
  obtain ⟨j, hlast, hid⟩ := Option.bind_eq_some_iff.mp h
  obtain ⟨hlt, hget⟩ := lastIndex_eq_some hlast
  have hint := toInt_storedId (j := j) (by omega)
  rw [hid, Option.map_some, Option.some_inj] at hint
  have hsize : (UInt32.ofNat tokens.length).toNat = tokens.length := by
    rw [UInt32.toNat_ofNat', Nat.mod_eq_of_lt (by omega)]
  unfold detokenize
  rw [hint, int32OfU32_of_lt (by rw [hsize]; exact hlen), hsize, if_pos ⟨by omega, by omega⟩, Int.toNat_natCast,
    List.getD_eq_getElem?_getD, hget, Option.getD_some]

theorem tokens_loadedVocab (tokens : List Bytes) : (loadedVocab tokens).tokens = tokens := by
  unfold loadedVocab
  rw [(addTokens_spec {} tokens).2]
  rfl

theorem find_root_loadedVocab (tokens : List Bytes) : find (loadedVocab tokens).root = stored tokens := by
  funext w
  rw [root_loadedVocab, find_insertAll]
  rfl

theorem encode_eq (text : Bytes) :
    Tokenizer.encode ⟨some (loadedVocab tokens)⟩ text = munch (stored tokens) (bpeText text) :=
  encode_loadedVocab text

/-- **What no token covers** is what the greedy cut leaves out. -/
theorem unmatchedAfter_eq (root : TrieNode) : ∀ (skip : ℕ) (l : Bytes),
    unmatchedAfter root skip l = skipped (find root) (l.drop skip)
  | _, [] => by simp [unmatchedAfter]
  | skip + 1, _ :: cs => unmatchedAfter_eq root skip cs
  | 0, c :: cs => by
    rw [List.drop_zero]
    unfold unmatchedAfter
    rw [longestMatch_eq]
    cases h : longest (find root) (c :: cs) with
    | none =>
      rw [skipped_of_none h]
      exact congrArg _ (unmatchedAfter_eq root 0 cs)
    | some p =>
      obtain ⟨id, k⟩ := p
      obtain ⟨k, rfl⟩ : ∃ m, k = m + 1 := ⟨k - 1, by have := longest_pos h; omega⟩
      rw [skipped_of_some h, List.drop_succ_cons, ← unmatchedAfter_eq root k cs]
      rfl

theorem unmatched_eq (text : Bytes) :
    unmatched (loadedVocab tokens).root text = skipped (stored tokens) (bpeText text) := by
  rw [unmatched, unmatchedAfter_eq, List.drop_zero, find_root_loadedVocab]

/-- The tokens of a cut decode to its words, each by itself. -/
theorem decode_of_cuts (hlen : tokens.length < 2 ^ 31) {text : Bytes} {ws : List Bytes}
    (h : Cuts (stored tokens) (bpeText text) ws) :
    Tokenizer.decode ⟨some (loadedVocab tokens)⟩ (Tokenizer.encode ⟨some (loadedVocab tokens)⟩ text) =
      ws.flatMap unexpand := by
  have hwords : ∀ {l : Bytes} {ws : List Bytes}, Cuts (stored tokens) l ws →
      (ws.filterMap (stored tokens)).flatMap (detokenize tokens) = ws.flatMap unexpand := by
    intro l ws hcut
    induction hcut with
    | nil => rfl
    | cons hlong _ ih =>
      have hword := word_of_longest hlong
      rw [List.filterMap_cons_some hword, List.flatMap_cons, List.flatMap_cons, ih,
        detokenize_stored hlen hword, tokenText_eq_unexpand]
  rw [encode_eq, h.spec.1]
  show (ws.filterMap (stored tokens)).flatMap (detokenize (loadedVocab tokens).tokens) = _
  rw [tokens_loadedVocab, hwords h]

end Numbers

/-! ### When a text comes back -/

section Lossless

variable {tokens : List Bytes} {text : Bytes}

/-- The longest token at the front, in terms of the token list. -/
theorem longest_iff (hlen : tokens.length < 2 ^ 31) {w l : Bytes} (hne : w ≠ []) :
    (∃ i, longest (stored tokens) (w ++ l) = some (i, w.length)) ↔
      w ∈ tokens ∧ ∀ w' ∈ tokens, w' <+: w ++ l → w'.length ≤ w.length := by
  have hpos := List.length_pos_iff.mpr hne
  have htake : (w ++ l).take w.length = w := List.take_left' rfl
  unfold longest
  simp only [longestUpTo_eq_some_iff, htake, List.length_append]
  constructor
  · rintro ⟨i, -, -, hword, hmax⟩
    refine ⟨by_contra fun h => ?_, fun w' hw' hpre => ?_⟩
    · rw [(stored_eq_none_iff hlen).mpr h] at hword
      exact absurd hword (by simp)
    · by_contra hlt
      have hle := hpre.length_le
      rw [List.length_append] at hle
      have hnone := hmax w'.length (by omega) hle
      rw [← List.prefix_iff_eq_take.mp hpre] at hnone
      exact (stored_eq_none_iff hlen).mp hnone hw'
  · rintro ⟨hmem, hmax⟩
    obtain ⟨i, hi⟩ : ∃ i, stored tokens w = some i :=
      Option.ne_none_iff_exists'.mp fun h => (stored_eq_none_iff hlen).mp h hmem
    refine ⟨i, hpos, by omega, hi, fun m hlt hm => (stored_eq_none_iff hlen).mpr fun h => ?_⟩
    have hle := hmax _ h (List.take_prefix m (w ++ l))
    rw [List.length_take, List.length_append] at hle
    omega

/-- A cut of the text gives a cut of its expansion, of which the words are replaced by the parts. -/
theorem cuts_of_cut (hlen : tokens.length < 2 ^ 31) (h : Cut tokens text) :
    ∃ ws, Cuts (stored tokens) (bpeText text) ws ∧ ws.flatMap unexpand = text := by
  induction h with
  | nil => exact ⟨[], .nil, rfl⟩
  | @part t rest hne hplain hmem hlong _ ih =>
    obtain ⟨ws, hcuts, htext⟩ := ih
    rw [bpeText_append] at hlong
    obtain ⟨i, hi⟩ := (longest_iff hlen (bpeText_ne_nil hne)).mpr ⟨hmem, hlong⟩
    refine ⟨bpeText t :: ws, ?_, ?_⟩
    · rw [bpeText_append]
      exact .cons hi hcuts
    · rw [List.flatMap_cons, htext, (unexpand_bpeText _).mpr hplain]

/-- A cut of the expansion whose words are replaced by the text is a cut of the text. -/
theorem cut_of_cuts (hlen : tokens.length < 2 ^ 31) : ∀ {ws : List Bytes} {text : Bytes},
    Cuts (stored tokens) (bpeText text) ws → ws.flatMap unexpand = text → Cut tokens text
  | [], text, _, htext => by
    subst htext
    exact .nil
  | w :: ws, text, hcuts, htext => by
    obtain ⟨l, hl, ⟨i, hlong⟩, hrest⟩ := cuts_cons_iff.mp hcuts
    have hpos := longest_pos hlong
    have hw : bpeText (unexpand w) = w :=
      bpeText_unexpand fun b hb => ne_of_mem_bpeText (hl ▸ List.mem_append_left l hb)
    have hlrest : l = bpeText (ws.flatMap unexpand) := by
      have hexp := congrArg bpeText htext
      rw [List.flatMap_cons, bpeText_append, hw, hl] at hexp
      exact (List.append_cancel_left hexp).symm
    have hne : w ≠ [] := List.ne_nil_of_length_pos hpos
    have hne' : unexpand w ≠ [] := fun h => hne (by rw [← hw, h]; rfl)
    have hplain : Plain (unexpand w) := (unexpand_bpeText _).mp (by rw [hw])
    obtain ⟨hmem, hmax⟩ := (longest_iff hlen hne).mp ⟨i, hlong⟩
    subst hlrest
    rw [← htext, List.flatMap_cons]
    refine .part hne' hplain (by rw [hw]; exact hmem) ?_ (cut_of_cuts hlen hrest rfl)
    rw [bpeText_append, hw]
    exact hmax

/-- **When a text comes back**: every byte of it is covered, and the tokens decode to it, exactly when it can be cut
into plain parts whose expansions are the longest tokens in turn. -/
theorem lossless_iff_cut (tokens : List Bytes) (text : Bytes) (hlen : tokens.length < 2 ^ 31) :
    Lossless tokens text ↔ Cut tokens text := by
  unfold Lossless
  rw [unmatched_eq, skipped_eq_nil_iff]
  constructor
  · rintro ⟨⟨ws, hcuts⟩, hdecode⟩
    rw [decode_of_cuts hlen hcuts] at hdecode
    exact cut_of_cuts hlen hcuts hdecode
  · intro h
    obtain ⟨ws, hcuts, htext⟩ := cuts_of_cut hlen h
    exact ⟨⟨ws, hcuts⟩, (decode_of_cuts hlen hcuts).trans htext⟩

theorem lossless_hello :
    Lossless [ascii "Hello", ascii "lo", [0xc4, 0xa0] ++ ascii "world"] (ascii "Hello world") := by
  refine (lossless_iff_cut _ _ (by decide)).mpr ?_
  refine @Cut.part _ (ascii "Hello") (ascii " world") (by decide) ?_ (by decide) (by decide) ?_
  · unfold Plain
    decide
  · refine @Cut.part _ (ascii " world") [] (by decide) ?_ (by decide) (by decide) .nil
    unfold Plain
    decide

end Lossless

/-! ### Vocabularies that cover a text -/

section Covered

/-- The bytes that the byte-level alphabet shows as themselves. -/
def printable (b : ℕ) : Bool := (0x21 ≤ b && b ≤ 0x7e) || (0xa1 ≤ b && b ≤ 0xac) || (0xae ≤ b && b ≤ 0xff)

/-- The code point of a byte in the byte-level alphabet: the others are numbered from 256 on. -/
def codePoint (b : ℕ) : ℕ :=
  if printable b then b else 256 + ((List.range b).filter fun n => !printable n).length

/-- The symbol of a byte in UTF-8. -/
def symbol (b : UInt8) : Bytes :=
  let c := codePoint b.toNat
  if c < 0x80 then [UInt8.ofNat c] else [UInt8.ofNat (0xc0 + c / 64), UInt8.ofNat (0x80 + c % 64)]

example : symbol 0x20 = [0xc4, 0xa0] ∧ symbol 0x0a = [0xc4, 0x8a] ∧ symbol 0x41 = ascii "A" := by decide

/-- The text is a sequence of characters, each of them a token. -/
def Spelled (tokens : List Bytes) (text : Bytes) : Prop :=
  ∃ cs : List Bytes, text = cs.flatten ∧ ∀ c ∈ cs, IsChar c ∧ c ∈ tokens

/-- The vocabulary covers the text: it has the symbols of all bytes, or every character of the text. -/
def Covers (tokens : List Bytes) (text : Bytes) : Prop := (∀ b, symbol b ∈ tokens) ∨ Spelled tokens text

/-- The alphabet alone. -/
def alphabet : List Bytes := (List.range 256).map fun n => symbol (UInt8.ofNat n)

/-- A text whose expansion begins with no token is not covered. -/
theorem not_lossless_of_not_prefix {tokens : List Bytes} {text : Bytes} (hlen : tokens.length < 2 ^ 31)
    (hne : text ≠ []) (h : ∀ w ∈ tokens, w ≠ [] → ¬ w <+: bpeText text) : ¬ Lossless tokens text := by
  rintro ⟨hall, -⟩
  rw [unmatched_eq, skipped_eq_nil_iff] at hall
  obtain ⟨ws, hcuts⟩ := hall
  cases ws with
  | nil => exact bpeText_ne_nil hne hcuts.flatten_eq.symm
  | cons w ws =>
    obtain ⟨l, hl, ⟨i, hlong⟩, -⟩ := cuts_cons_iff.mp hcuts
    have hw : w ≠ [] := List.ne_nil_of_length_pos (longest_pos hlong)
    have hmem := ((longest_iff hlen hw).mp ⟨i, hlong⟩).1
    exact h w hmem hw ⟨l, hl.symm⟩

/-- A tab is no symbol, and a space is looked up as its symbol only: both are covered, and both are left out. -/
theorem covers_not_lossless :
    (Covers alphabet [0x09] ∧ ¬ Lossless alphabet [0x09]) ∧
      (Covers [ascii " "] (ascii " ") ∧ ¬ Lossless [ascii " "] (ascii " ")) := by
  have hsymbols : ∀ b, symbol b ∈ alphabet := fun b =>
    List.mem_map.mpr ⟨b.toNat, List.mem_range.mpr b.toNat_lt, by rw [UInt8.ofNat_toNat]⟩
  have hspelled : Spelled [ascii " "] (ascii " ") := ⟨[ascii " "], by decide, by decide⟩
  refine ⟨⟨Or.inl hsymbols, not_lossless_of_not_prefix (by simp [alphabet]) (by simp) ?_⟩,
    ⟨Or.inr hspelled, not_lossless_of_not_prefix (by decide) (by decide) (by decide)⟩⟩
  decide +kernel

end Covered

/-! ### Texts that are spelled by the tokens -/

section Spelled

variable {tokens : List Bytes} {text : Bytes}

/-- Between any two characters of the text a token begins. -/
def Begins (tokens : List Bytes) (text : Bytes) : Prop :=
  ∀ u v, text = u ++ v → valid u = true → v ≠ [] → ∃ w ∈ tokens, w ≠ [] ∧ w <+: v

theorem begins_of_spelled (h : Spelled tokens text) : Begins tokens text := by
  obtain ⟨cs, rfl, hcs⟩ := h
  intro u v htext hvalid hne
  obtain ⟨k, rfl⟩ := exists_take_of_valid_prefix (fun c hc => (hcs c hc).1) hvalid ⟨v, htext.symm⟩
  have hv : v = (cs.drop k).flatten := by
    have hsplit : (cs.take k).flatten ++ (cs.drop k).flatten = cs.flatten := by
      rw [← List.flatten_append, List.take_append_drop]
    exact List.append_cancel_left (htext.symm.trans hsplit.symm)
  subst hv
  obtain ⟨c, rest, hdrop⟩ := List.exists_cons_of_ne_nil (l := cs.drop k) fun h => hne (by rw [h]; rfl)
  obtain ⟨hchar, hmem⟩ := hcs c (List.mem_of_mem_drop (hdrop ▸ List.mem_cons_self))
  refine ⟨c, hmem, hchar.ne_nil, ?_⟩
  rw [hdrop, List.flatten_cons]
  exact List.prefix_append c _

/-- Behind a valid word it is so again. -/
theorem Begins.rest {w l : Bytes} (h : Begins tokens (w ++ l)) (hw : valid w = true) : Begins tokens l := by
  intro u v hl hvalid hne
  refine h (w ++ u) v (by rw [hl, List.append_assoc]) ?_ hne
  rw [valid_append hw, hvalid]

/-- Of the tokens that a text begins with there is a longest one. -/
theorem exists_longest {l w : Bytes} (hmem : w ∈ tokens) (hne : w ≠ []) (hpre : w <+: l) :
    ∃ w ∈ tokens, w ≠ [] ∧ w <+: l ∧ ∀ w' ∈ tokens, w' <+: l → w'.length ≤ w.length := by
  let candidates := tokens.filter (· <+: l)
  have hcand : ∀ {w' : Bytes}, w' ∈ candidates ↔ w' ∈ tokens ∧ w' <+: l := by
    intro w'
    rw [List.mem_filter, decide_eq_true_iff]
  cases hmax : candidates.argmax List.length with
  | none =>
    rw [List.argmax_eq_none] at hmax
    exact absurd (hcand.mpr ⟨hmem, hpre⟩) (by rw [hmax]; simp)
  | some m =>
    have hle : ∀ w' ∈ tokens, w' <+: l → w'.length ≤ m.length := fun w' hw' hpre' =>
      List.le_of_mem_argmax (hcand.mpr ⟨hw', hpre'⟩) hmax
    obtain ⟨hm, hmpre⟩ := hcand.mp (List.argmax_mem hmax)
    have hpos := List.length_pos_iff.mpr hne
    have hwm := hle w hmem hpre
    exact ⟨m, hm, List.ne_nil_of_length_pos (by omega), hmpre, hle⟩

/-- The expansion of one byte is the byte or a pair. -/
theorem bpeText_singleton (x : UInt8) : bpeText [x] = [x] ∨ ∃ b, bpeText [x] = [0xc4, b] := by
  by_cases hs : x = 0x20
  · exact Or.inr ⟨0xa0, by rw [hs]; rfl⟩
  by_cases hl : x = 0x0a
  · exact Or.inr ⟨0x8a, by rw [hl]; rfl⟩
  exact Or.inl (bpeText_cons_of_ne hs hl [])

/-- What an expansion begins with is the expansion of what the text begins with, or it ends within a pair. -/
theorem prefix_bpeText : ∀ {text w : Bytes}, w <+: bpeText text →
    (∃ t, t <+: text ∧ w = bpeText t) ∨ ∃ s, w = s ++ [0xc4]
  | [], w, h => Or.inl ⟨[], List.prefix_rfl, List.prefix_nil.mp h⟩
  | x :: text, w, h => by
    have hx : bpeText (x :: text) = bpeText [x] ++ bpeText text := bpeText_append [x] text
    rw [hx] at h
    by_cases hempty : w = []
    · exact Or.inl ⟨[], List.nil_prefix, hempty⟩
    rcases List.prefix_or_prefix_of_prefix h (List.prefix_append (bpeText [x]) (bpeText text)) with hin | ⟨w, rfl⟩
    · by_cases hall : w = bpeText [x]
      · exact Or.inl ⟨[x], List.prefix_append [x] text, hall⟩
      · -- a part of the expansion of one byte: the first half of a pair
        obtain ⟨a, w, rfl⟩ := List.exists_cons_of_ne_nil hempty
        rcases bpeText_singleton x with hb | ⟨b, hb⟩
        · rw [hb] at hin hall
          obtain ⟨rfl, hw⟩ := List.cons_prefix_cons.mp hin
          exact absurd (congrArg _ (List.prefix_nil.mp hw)) hall
        · rw [hb] at hin hall
          obtain ⟨rfl, hw⟩ := List.cons_prefix_cons.mp hin
          rcases List.prefix_cons_iff.mp hw with rfl | ⟨w, rfl, hend⟩
          · exact Or.inr ⟨[], rfl⟩
          · exact absurd (by rw [List.prefix_nil.mp hend]) hall
    · rcases prefix_bpeText ((List.prefix_append_right_inj _).mp h) with ⟨t, ht, rfl⟩ | ⟨s, rfl⟩
      · exact Or.inl ⟨x :: t, List.cons_prefix_cons.mpr ⟨rfl, ht⟩, (bpeText_append [x] t).symm⟩
      · exact Or.inr ⟨bpeText [x] ++ s, (List.append_assoc _ _ _).symm⟩

/-- **The greedy cut** of a plain text is a cut, as long as a token begins between any two characters. -/
theorem cut_of_begins (hvalid : ∀ w ∈ tokens, valid w = true) (hplain : Plain text)
    (hbegins : Begins tokens (bpeText text)) : Cut tokens text := by
  induction hn : text.length using Nat.strongRecOn generalizing text with
  | _ n ih =>
    by_cases hempty : text = []
    · rw [hempty]
      exact .nil
    obtain ⟨w₀, hmem₀, hne₀, hpre₀⟩ := hbegins [] (bpeText text) rfl valid_nil (bpeText_ne_nil hempty)
    obtain ⟨w, hmem, hne, hpre, hmax⟩ := exists_longest hmem₀ hne₀ hpre₀
    have hcut : ∃ t, t <+: text ∧ w = bpeText t := by
      rcases prefix_bpeText hpre with h | ⟨s, rfl⟩
      · exact h
      · have hlead := hvalid _ hmem
        rw [valid_concat_lead s (by decide)] at hlead
        exact absurd hlead (by decide)
    obtain ⟨t, ⟨rest, rfl⟩, rfl⟩ := hcut
    have ht : t ≠ [] := fun h => hne (by rw [h]; rfl)
    have hpos := List.length_pos_iff.mpr ht
    rw [bpeText_append] at hbegins
    refine .part ht (hplain.of_infix (List.prefix_append t rest).isInfix) hmem hmax ?_
    refine ih rest.length ?_ (hplain.of_infix (List.suffix_append t rest).isInfix)
      (hbegins.rest (hvalid _ hmem)) rfl
    rw [← hn, List.length_append]
    omega

/-- **Decoding undoes encoding** for valid tokens and a plain text whose characters, expanded, are tokens. -/
theorem decode_encode (tokens : List Bytes) (text : Bytes) (hlen : tokens.length < 2 ^ 31)
    (hvalid : ∀ w ∈ tokens, valid w = true) (hplain : Plain text) (hspelled : Spelled tokens (bpeText text)) :
    Tokenizer.decode ⟨some (loadedVocab tokens)⟩ (Tokenizer.encode ⟨some (loadedVocab tokens)⟩ text) = text := by
  obtain ⟨ws, hcuts, htext⟩ := cuts_of_cut hlen (cut_of_begins hvalid hplain (begins_of_spelled hspelled))
  rw [decode_of_cuts hlen hcuts, htext]

theorem decode_encode_accent :
    let tokens := [ascii "a", [0xc3, 0xa9], [0xc4, 0xa0], [0xc4, 0xa0, 0x61], [0xc4, 0x8a]]
    let text := [0xc3, 0xa9] ++ ascii " a \n"
    Tokenizer.decode ⟨some (loadedVocab tokens)⟩ (Tokenizer.encode ⟨some (loadedVocab tokens)⟩ text) = text :=
  decode_encode _ _ (by decide) (by decide) (by unfold Plain; decide)
    ⟨[[0xc3, 0xa9], [0xc4, 0xa0], ascii "a", [0xc4, 0xa0], [0xc4, 0x8a]], by decide, by decide⟩

/-- The last of more tokens than an `int` can number gets a negative number, which decodes to nothing. -/
theorem decode_encode_manyTokens :
    ((∀ w ∈ manyTokens, valid w = true) ∧ valid (ascii "a") = true ∧ Plain (ascii "a") ∧
      Spelled manyTokens (bpeText (ascii "a"))) ∧
    Tokenizer.decode ⟨some (loadedVocab manyTokens)⟩
      (Tokenizer.encode ⟨some (loadedVocab manyTokens)⟩ (ascii "a")) ≠ ascii "a" := by
  refine ⟨⟨fun w hw => ?_, by decide, by unfold Plain; decide, [ascii "a"], by decide, ?_⟩, ?_⟩
  · rcases List.mem_append.mp hw with hw | hw
    · rw [List.eq_of_mem_replicate hw, valid_nil]
    · rw [List.mem_singleton.mp hw]
      decide
  · intro c hc
    rw [List.mem_singleton.mp hc]
    exact ⟨by decide, List.mem_append_right _ List.mem_cons_self⟩
  · have hword : stored manyTokens (ascii "a") = some Int32.minValue := by
      rw [stored, lastIndex_manyTokens]
      decide
    have htext : bpeText (ascii "a") = ascii "a" := by decide
    rw [encode_eq, htext, munch_of_word (by decide) hword]
    show detokenize (loadedVocab manyTokens).tokens Int32.minValue ++ [] ≠ _
    rw [detokenize, if_neg fun h => absurd h.1 (by decide)]
    decide

end Spelled

end DenseLite.Infer.Decoding
