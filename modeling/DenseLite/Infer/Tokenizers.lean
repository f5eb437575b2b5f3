import DenseLite.Gguf.Fields
import DenseLite.Infer.Local
import DenseLite.Lib.Munch
import Mathlib.Data.List.Find

/-! # The three tokenizers

The walk along the trie stands in the source three times: in the free function `tokenize`, in `Tokenizer::encode`
and in `Tokenizer::count_tokens`. The trie that the loader builds has a token at the end of the path of its string,
with the last index of that string (`find_insertAll`), so all three cut a text greedily into the longest tokens. -/

namespace DenseLite.Infer.Tokenizers

open DenseLite.Lib.ByteStream DenseLite.Lib.Munch DenseLite.Infer.Local
open DenseLite.Gguf.Loader DenseLite.Gguf.ParseEncode DenseLite.Gguf.Fields
open DenseLite.Infer.State (Token ascii)

/-- `Tokenizer`, with the vocabulary it points to, if any. -/
structure Tokenizer where
  vocab : Option Vocab

/-- `Tokenizer::encode`. -/
def Tokenizer.encode (t : Tokenizer) (text : Bytes) : List Token :=
  match t.vocab with
  | none => []
  | some v => tokensAfter v.root 0 (bpeText text)

/-- The loop of `count_tokens` on a text of which `skip` bytes are taken already. -/
def countAfter (root : TrieNode) : (skip : ℕ) → Bytes → ℕ
  | _, [] => 0
  | skip + 1, _ :: cs => countAfter root skip cs
  | 0, c :: cs =>
    match longestMatch root 0 none (c :: cs) with
    | none => countAfter root 0 cs
    | some (_, len) => countAfter root (len - 1) cs + 1

/-- `Tokenizer::count_tokens`; without a vocabulary there is an approximation. -/
def Tokenizer.countTokens (t : Tokenizer) (text : Bytes) : ℕ :=
  match t.vocab with
  | none => (text.length + 3) / 4
  | some v => countAfter v.root 0 (bpeText text)

/-- The vocabulary after the token list of a file. -/
def loadedVocab (tokens : List Bytes) : Vocab := (addTokens {} tokens).vocab

/-! ### The reference -/

/-- The last index at which a string stands in the token list. -/
def lastIndex (tokens : List Bytes) (w : Bytes) : Option ℕ :=
  (List.range tokens.length).reverse.find? fun j => tokens[j]? = some w

/-- The naive tokenizer: the longest token that the rest begins with, or one byte is left out. -/
def reference (tokens : List Bytes) (text : Bytes) : List ℕ := munch (lastIndex tokens) (bpeText text)

/-- The three tokenizers do on a text what the reference does. -/
def Agree (tokens : List Bytes) (text : Bytes) : Prop :=
  let vocab := loadedVocab tokens
  let tokenizer : Tokenizer := ⟨some vocab⟩
  tokenizer.encode text = tokenize vocab.root text ∧
    (tokenizer.encode text).map Int32.toInt = (reference tokens text).map Nat.cast ∧
    tokenizer.countTokens text = (tokenizer.encode text).length

theorem lastIndex_concat (tokens : List Bytes) (t w : Bytes) :
    lastIndex (tokens ++ [t]) w = if t = w then some tokens.length else lastIndex tokens w := by
  have hrest : (List.range tokens.length).reverse.find? (fun j => (tokens ++ [t])[j]? = some w)
      = lastIndex tokens w := by
    refine List.find?_congr fun j hj => ?_
    have hlt : j < tokens.length := List.mem_range.mp (List.mem_reverse.mp hj)
    rw [List.getElem?_append_left hlt]
  unfold lastIndex at hrest ⊢
  rw [List.length_append, List.length_singleton, List.range_succ, List.reverse_append, List.reverse_singleton,
    List.singleton_append, List.find?_cons, List.getElem?_concat_length, hrest]
  by_cases ht : t = w
  · simp [ht]
  · simp [ht]

/-! ### The words of a trie -/

/-- The token at the end of a path. -/
def find : TrieNode → Bytes → Option Token
  | .node id _, [] => if id = -1 then none else some id
  | .node _ children, c :: cs =>
    match children.lookup c with
    | none => none
    | some child => find child cs

/-- The token that an index is stored as, if it is stored as one. -/
def storedId (j : ℕ) : Option Token :=
  let id := (UInt32.ofNat j).toInt32
  if id = -1 then none else some id

theorem find_empty (w : Bytes) : find (.node (-1) []) w = none := by
  cases w with
  | nil => rfl
  | cons c cs => rfl

theorem lookup_modifyChild (c c' : UInt8) (g : TrieNode → TrieNode) (children : List (UInt8 × TrieNode)) :
    (modifyChild c g children).lookup c' =
      if c' = c then some (g ((children.lookup c).getD (.node (-1) []))) else children.lookup c' := by
  induction children with
  | nil =>
    rcases eq_or_ne c' c with rfl | h
    · simp [modifyChild]
    · simp [modifyChild, h, List.lookup_cons, beq_eq_false_iff_ne.mpr h]
  | cons p rest ih =>
    obtain ⟨d, n⟩ := p
    unfold modifyChild
    rcases eq_or_ne d c with rfl | hd
    · rcases eq_or_ne c' d with rfl | h
      · simp
      · simp [h, List.lookup_cons, beq_eq_false_iff_ne.mpr h]
    · rw [if_neg hd, List.lookup_cons, ih, List.lookup_cons, List.lookup_cons, beq_eq_false_iff_ne.mpr hd.symm]
      rcases eq_or_ne c' d with rfl | h
      · simp [hd]
      · simp [beq_eq_false_iff_ne.mpr h]

/-- **A token is found** at the end of its path, and nothing else changes. -/
theorem find_insert (id : Token) : ∀ (t w : Bytes) (root : TrieNode),
    find (root.insert id t) w = if w = t then (if id = -1 then none else some id) else find root w
  | [], w, .node _ children => by
    cases w with
    | nil => simp [TrieNode.insert, find]
    | cons c cs => simp [TrieNode.insert, find]
  | d :: t, w, .node old children => by
    cases w with
    | nil => simp [TrieNode.insert, find]
    | cons c cs =>
      show (match (modifyChild d (TrieNode.insert id t) children).lookup c with
        | none => none
        | some child => find child cs) = _
      rw [lookup_modifyChild]
      by_cases hc : c = d
      · subst hc
        rw [if_pos rfl]
        show find (TrieNode.insert id t ((children.lookup c).getD (.node (-1) []))) cs = _
        rw [find_insert id t cs]
        cases hl : children.lookup c with
        | none => simp [find, hl, find_empty]
        | some child => simp [find, hl]
      · simp [find, hc]

/-- **The trie of a token list** has at the path of a string its last index. -/
theorem find_insertAll (tokens : List Bytes) (w : Bytes) :
    find (insertAll (.node (-1) []) tokens) w = (lastIndex tokens w).bind storedId := by
  induction tokens using List.reverseRecOn with
  | nil => exact find_empty w
  | append_singleton tokens t ih =>
    unfold insertAll at ih ⊢
    rw [List.zipIdx_append, List.foldl_append, lastIndex_concat]
    show find (TrieNode.insert _ t _) w = _
    rw [find_insert, ih]
    by_cases h : w = t
    · simp [h, storedId]
    · simp [h, Ne.symm h]

theorem root_loadedVocab (tokens : List Bytes) :
    (loadedVocab tokens).root = insertAll (.node (-1) []) tokens := by
  unfold loadedVocab
  rw [(addTokens_spec {} tokens).2]

/-! ### The walk -/

/-- The walk along a trie is the scan for its words. -/
theorem longestMatch_eq_scan (l : Bytes) : ∀ (root : TrieNode) (len : ℕ) (best : Option (Token × ℕ)),
    longestMatch root len best l = scan (find root) len best l := by
  induction l with
  | nil => intro root len best; rfl
  | cons c cs ih =>
    rintro ⟨id, children⟩ len best
    unfold longestMatch scan
    cases hl : children.lookup c with
    | none =>
      have hafter : after (find (.node id children)) c = fun _ => none := by
        funext w
        simp [after, find, hl]
      have hfind : find (.node id children) [c] = none := by simp [find, hl]
      rw [hafter, hfind, scan_none]
      rfl
    | some child =>
      obtain ⟨childId, grandchildren⟩ := child
      have hafter : after (find (.node id children)) c = find (.node childId grandchildren) := by
        funext w
        simp [after, find, hl]
      have hfind : find (.node id children) [c] = if childId = -1 then none else some childId := by
        simp [find, hl]
      rw [hafter, hfind]
      show longestMatch (.node childId grandchildren) (len + 1) _ cs = _
      rw [ih]
      by_cases hid : childId = -1
      · simp [hid]
      · simp [hid]

theorem longestMatch_eq (root : TrieNode) (l : Bytes) : longestMatch root 0 none l = longest (find root) l := by
  rw [longestMatch_eq_scan, scan_eq]

/-- **The loop of the tokenizers** is the greedy cut. -/
theorem tokensAfter_eq (root : TrieNode) : ∀ (skip : ℕ) (l : Bytes),
    tokensAfter root skip l = munch (find root) (l.drop skip)
  | _, [] => by simp [tokensAfter]
  | skip + 1, _ :: cs => tokensAfter_eq root skip cs
  | 0, c :: cs => by
    rw [List.drop_zero]
    unfold tokensAfter
    rw [longestMatch_eq]
    cases h : longest (find root) (c :: cs) with
    | none =>
      rw [munch_of_none h]
      exact tokensAfter_eq root 0 cs
    | some p =>
      obtain ⟨id, k⟩ := p
      obtain ⟨k, rfl⟩ : ∃ m, k = m + 1 := ⟨k - 1, by have := longest_pos h; omega⟩
      rw [munch_of_some h, List.drop_succ_cons, ← tokensAfter_eq root k cs]
      rfl

theorem countAfter_eq (root : TrieNode) : ∀ (skip : ℕ) (l : Bytes),
    countAfter root skip l = (tokensAfter root skip l).length
  | _, [] => by simp [countAfter, tokensAfter]
  | skip + 1, _ :: cs => countAfter_eq root skip cs
  | 0, c :: cs => by
    unfold countAfter tokensAfter
    cases longestMatch root 0 none (c :: cs) with
    | none => exact countAfter_eq root 0 cs
    | some p => exact congrArg (· + 1) (countAfter_eq root (p.2 - 1) cs)

/-! ### The tokenizers and the reference -/

section Agreement

variable {tokens : List Bytes} {w : Bytes} {j : ℕ}

/-- Without spaces and newlines there is nothing to expand. -/
theorem bpeText_of_notMem : ∀ {text : Bytes}, 0x20 ∉ text → 0x0a ∉ text → bpeText text = text
  | [], _, _ => rfl
  | c :: cs, hspace, hline => by
    have ih : bpeText cs = cs := bpeText_of_notMem (fun h => hspace (List.mem_cons_of_mem c h))
      fun h => hline (List.mem_cons_of_mem c h)
    have hs : c ≠ 0x20 := fun h => hspace (by simp [h])
    have hl : c ≠ 0x0a := fun h => hline (by simp [h])
    show (if c = 0x20 then [0xc4, 0xa0] else if c = 0x0a then [0xc4, 0x8a] else [c]) ++ bpeText cs = c :: cs
    rw [if_neg hs, if_neg hl, ih, List.singleton_append]

/-- After the expansion there are no spaces and newlines. -/
theorem ne_of_mem_bpeText {text : Bytes} {b : UInt8} (h : b ∈ bpeText text) : b ≠ 0x20 ∧ b ≠ 0x0a := by
  obtain ⟨c, -, hb⟩ := List.mem_flatMap.mp h
  split_ifs at hb with hs hl
  · rcases List.mem_pair.mp hb with rfl | rfl <;> decide
  · rcases List.mem_pair.mp hb with rfl | rfl <;> decide
  · rw [List.mem_singleton.mp hb]
    exact ⟨hs, hl⟩

theorem encode_loadedVocab (text : Bytes) : Tokenizer.encode ⟨some (loadedVocab tokens)⟩ text =
    munch (fun w => (lastIndex tokens w).bind storedId) (bpeText text) := by
  show tokensAfter (loadedVocab tokens).root 0 (bpeText text) = _
  rw [tokensAfter_eq, List.drop_zero, root_loadedVocab]
  congr 1
  funext w
  exact find_insertAll tokens w

theorem countTokens_eq_length_encode (v : Vocab) (text : Bytes) :
    Tokenizer.countTokens ⟨some v⟩ text = (Tokenizer.encode ⟨some v⟩ text).length :=
  countAfter_eq v.root 0 (bpeText text)

/-- An index that an `int` can hold is stored as it is. -/
theorem toInt_storedId (h : j < 2 ^ 31) : (storedId j).map Int32.toInt = some (j : ℤ) := by
  have hint : ((UInt32.ofNat j).toInt32).toInt = j := by
    show (BitVec.ofNat 32 j).toInt = j
    rw [BitVec.toInt_eq_toNat_of_lt (by rw [BitVec.toNat_ofNat]; omega), BitVec.toNat_ofNat,
      Nat.mod_eq_of_lt (by omega)]
  have hne : (UInt32.ofNat j).toInt32 ≠ -1 := fun heq => by
    have hneg : ((UInt32.ofNat j).toInt32).toInt = -1 := congrArg Int32.toInt heq
    omega
  rw [storedId, if_neg hne, Option.map_some, hint]

/-- A token whose index no `int` can hold is not what the reference says. -/
theorem encode_ne_reference (hne : w ≠ []) (hspace : 0x20 ∉ w) (hline : 0x0a ∉ w)
    (hlast : lastIndex tokens w = some j) (hj : 2 ^ 31 ≤ j) :
    (Tokenizer.encode ⟨some (loadedVocab tokens)⟩ w).map Int32.toInt ≠ (reference tokens w).map Nat.cast := by
  intro heq
  rw [reference, bpeText_of_notMem hspace hline, munch_of_word hne hlast] at heq
  obtain ⟨id, -, hid⟩ : ∃ id, _ ∧ Int32.toInt id = (j : ℤ) := List.mem_map.mp (by rw [heq]; simp)
  have hlt : Int32.toInt id < 2 ^ 31 := Int32.toInt_lt id
  omega

/-- Where an `int` can hold the indices, the tokenizers do what the reference says. -/
theorem encode_eq_reference
    (h : ∀ w j, w ≠ [] → 0x20 ∉ w → 0x0a ∉ w → lastIndex tokens w = some j → j < 2 ^ 31) (text : Bytes) :
    (Tokenizer.encode ⟨some (loadedVocab tokens)⟩ text).map Int32.toInt =
      (reference tokens text).map Nat.cast := by
  let stored : Bytes → Option Token := fun w => (lastIndex tokens w).bind storedId
  let words : Bytes → Option ℤ := fun w => (stored w).map Int32.toInt
  have hstored : munch words (bpeText text) = (munch stored (bpeText text)).map Int32.toInt :=
    munch_map (P := fun _ => True) (fun _ _ _ => rfl) _ _ (Nat.le_refl _) fun _ _ => trivial
  have hwords : munch words (bpeText text) = (reference tokens text).map Nat.cast := by
    refine munch_map (P := fun b => b ≠ 0x20 ∧ b ≠ 0x0a) (fun w hne hP => ?_) _ _ (Nat.le_refl _)
      fun b hb => ne_of_mem_bpeText hb
    show ((lastIndex tokens w).bind storedId).map Int32.toInt = (lastIndex tokens w).map Nat.cast
    cases hlast : lastIndex tokens w with
    | none => rfl
    | some j => exact toInt_storedId (h w j hne (fun hs => (hP _ hs).1 rfl) (fun hl => (hP _ hl).2 rfl) hlast)
  rw [encode_loadedVocab, ← hstored, hwords]

/-- **The three tokenizers** always agree with each other. They do on every text what the reference does if and only
if an `int` can hold the last index of every token that a text can have in it. -/
theorem tokenizers_agree_iff (tokens : List Bytes) :
    (∀ text, Tokenizer.encode ⟨some (loadedVocab tokens)⟩ text = tokenize (loadedVocab tokens).root text ∧
      Tokenizer.countTokens ⟨some (loadedVocab tokens)⟩ text =
        (Tokenizer.encode ⟨some (loadedVocab tokens)⟩ text).length) ∧
    ((∀ text, Agree tokens text) ↔
      ∀ w j, w ≠ [] → 0x20 ∉ w → 0x0a ∉ w → lastIndex tokens w = some j → j < 2 ^ 31) := by
  refine ⟨fun text => ⟨rfl, countTokens_eq_length_encode _ text⟩, fun h w j hne hspace hline hlast => ?_,
    fun h text => ⟨rfl, encode_eq_reference h text, countTokens_eq_length_encode _ text⟩⟩
  by_contra hj
  exact encode_ne_reference hne hspace hline hlast (Nat.le_of_not_lt hj) (h w).2.1

/-- A token list with more tokens than there are nonnegative values of an `int`; the last one is `a`. -/
def manyTokens : List Bytes := List.replicate (2 ^ 31) [] ++ [ascii "a"]

theorem lastIndex_manyTokens : lastIndex manyTokens (ascii "a") = some (2 ^ 31) := by
  unfold manyTokens
  rw [lastIndex_concat, if_pos rfl, List.length_replicate]

theorem not_agree_manyTokens : ¬ Agree manyTokens (ascii "a") := fun h =>
  encode_ne_reference (by decide) (by decide) (by decide) lastIndex_manyTokens (Nat.le_refl _) h.2.1

end Agreement

end DenseLite.Infer.Tokenizers
