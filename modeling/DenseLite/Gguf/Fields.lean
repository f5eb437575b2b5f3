import DenseLite.Gguf.ParseEncode

/-! # The fields after all entries

The entries are applied in their order, so a field has the value of the last entry that is copied into
it (`getField_foldl`). The end-of-text token is the exception: the token list looks for one too, and
may replace what an earlier entry has set (`eosFrom`). After the metadata some fields are derived when
they are zero (`finalRaw`). -/

namespace DenseLite.Gguf.Fields

open DenseLite.Lib.ByteStream DenseLite.Lib.Cursor DenseLite.Gguf.Config DenseLite.Gguf.Format
open DenseLite.Gguf.Loader DenseLite.Gguf.ParseEncode
open DenseLite.Infer.State (ascii occursIn F32 Token TensorType)

/-! ### Reading a field back -/

/-- The bytes of a field. -/
def getField (c : ModelConfig) : Field → Bytes
  | .eosTokenId => encodeU32 c.eosTokenId.toUInt32
  | .architecture => c.architecture
  | .contextLength => encodeU32 c.contextLength
  | .embeddingLength => encodeU32 c.embeddingLength
  | .intermediateDim => encodeU32 c.intermediateDim
  | .numLayers => encodeU32 c.numLayers
  | .numHeads => encodeU32 c.numHeads
  | .numKvHeads => encodeU32 c.numKvHeads
  | .headDim => encodeU32 c.headDim
  | .ropeBase => encodeU32 c.ropeBase
  | .ropeScale => encodeU32 c.ropeScale
  | .ropeType => c.ropeType
  | .rmsNormEps => encodeU32 c.rmsNormEps
  | .chatTemplate => c.chatTemplate

/-- The bytes fit the field: a string, or a word of four bytes. -/
def Fits (fld : Field) (raw : Bytes) : Prop := fld.isText = true ∨ raw.length = 4

theorem getField_setField_self {fld : Field} {raw : Bytes} (h : Fits fld raw) (c : ModelConfig) :
    getField (setField c raw fld) fld = raw := by
  rcases h with h | h
  · cases fld <;> first | rfl | exact absurd h (by decide)
  · have hword := encodeU32_decodeU32 h
    cases fld <;> first | rfl | exact hword

theorem getField_setField_ne {fld fld' : Field} (h : fld ≠ fld') (raw : Bytes) (c : ModelConfig) :
    getField (setField c raw fld') fld = getField c fld := by
  cases fld <;> cases fld' <;> first | rfl | exact absurd rfl h

theorem encodeU32_inj {u v : UInt32} (h : encodeU32 u = encodeU32 v) : u = v := by
  rw [← decodeU32_encodeU32 u, h, decodeU32_encodeU32]

/-- A configuration is its fields, with the size of the vocabulary, the alignment and the id. -/
theorem config_ext {c c' : ModelConfig} (h : ∀ fld, getField c fld = getField c' fld)
    (hvocab : c.vocabSize = c'.vocabSize) (halign : c.alignment = c'.alignment)
    (hid : c.modelId = c'.modelId) : c = c' := by
  have hword {u v : UInt32} (h : encodeU32 u = encodeU32 v) := encodeU32_inj h
  have heos := congrArg UInt32.toInt32 (hword (h .eosTokenId))
  rw [Int32.toInt32_toUInt32, Int32.toInt32_toUInt32] at heos
  have h1 := h .architecture
  have h2 := hword (h .contextLength)
  have h3 := hword (h .embeddingLength)
  have h4 := hword (h .intermediateDim)
  have h5 := hword (h .numLayers)
  have h6 := hword (h .numHeads)
  have h7 := hword (h .numKvHeads)
  have h8 := hword (h .headDim)
  have h9 := hword (h .ropeBase)
  have h10 := hword (h .ropeScale)
  have h11 := h .ropeType
  have h12 := hword (h .rmsNormEps)
  have h13 := h .chatTemplate
  obtain ⟨⟨⟩⟩ := c
  obtain ⟨⟨⟩⟩ := c'
  simp only [getField] at h1 h11 h13
  simp_all

/-! ### What one entry does -/

/-- The branch that an entry takes. -/
abbrev branch (e : Entry) : Branch := branchOf e.key.1 e.type.code

/-- The entry is copied into the field. -/
def Writes (e : Entry) (fld : Field) : Prop := branch e = .field fld

instance (e : Entry) (fld : Field) : Decidable (Writes e fld) :=
  inferInstanceAs (Decidable (_ = _))

/-- The end-of-text token after the token list, from the one before it. -/
def detectAll (eos : Token) (tokens : List Bytes) : Token :=
  tokens.zipIdx.foldl (fun eos p => detectEos eos p.1 p.2) eos

/-- The token that the entry of an end-of-text token names. -/
def eosOf (e : Entry) : Token := (decodeU32 e.value.raw).toInt32

/-- The end-of-text token after an entry. -/
def eosStep (eos : Token) (e : Entry) : Token :=
  if Writes e .eosTokenId then eosOf e
  else if branch e = .tokens then detectAll eos e.value.strings
  else eos

section Entry

variable {m : DenseModel} {e : Entry} {fld : Field}

theorem fits_of_writes (h : Writes e fld) : Fits fld e.value.raw := by
  obtain ⟨key, type, v⟩ := e
  have htype : type.code ∈ Branch.types (branchOf key.1 type.code) :=
    type_of_branch (by rw [show branchOf key.1 type.code = .field fld from h]; simp)
  rw [show branchOf key.1 type.code = .field fld from h, Branch.types] at htype
  split_ifs at htype with htext
  · exact Or.inl htext
  · have hwidth := width_of_code (by simpa using htype)
    refine Or.inr ((length_raw ?_ v).2.trans hwidth)
    rw [ValueType.isScalar, hwidth]
    rfl

theorem addTokens_aux (ps : List (Bytes × ℕ)) : ∀ m : DenseModel,
    let m' := ps.foldl (fun m p => addToken m p.2 p.1) m
    m'.config = { m.config with
        eosTokenId := ps.foldl (fun eos p => detectEos eos p.1 p.2) m.config.eosTokenId } ∧
      m'.vocab.tokens = m.vocab.tokens ++ ps.map Prod.fst ∧ m'.vocab.scores = m.vocab.scores ∧
      m'.vocab.root = ps.foldl (fun r p => r.insert (UInt32.ofNat p.2).toInt32 p.1) m.vocab.root := by
  induction ps with
  | nil => intro m; simp
  | cons p ps ih =>
    intro m
    obtain ⟨h1, h2, h3, h4⟩ := ih (addToken m p.2 p.1)
    refine ⟨h1, ?_, h3, h4⟩
    show (ps.foldl (fun m p => addToken m p.2 p.1) (addToken m p.2 p.1)).vocab.tokens = _
    rw [h2]
    simp [addToken]

/-- The trie with all tokens added. -/
def insertAll (root : TrieNode) (tokens : List Bytes) : TrieNode :=
  tokens.zipIdx.foldl (fun r p => r.insert (UInt32.ofNat p.2).toInt32 p.1) root

/-- What the token list does. -/
theorem addTokens_spec (m : DenseModel) (tokens : List Bytes) :
    (addTokens m tokens).config = { m.config with eosTokenId := detectAll m.config.eosTokenId tokens } ∧
      (addTokens m tokens).vocab = { m.vocab with
        tokens := m.vocab.tokens ++ tokens, root := insertAll m.vocab.root tokens } := by
  obtain ⟨h1, h2, h3, h4⟩ := addTokens_aux tokens.zipIdx m
  rw [List.zipIdx_map_fst] at h2
  refine ⟨h1, ?_⟩
  unfold addTokens
  cases hv : (tokens.zipIdx.foldl (fun m p => addToken m p.2 p.1) m).vocab with
  | mk ts scores root =>
    rw [hv] at h2 h3 h4
    simp only at h2 h3 h4
    rw [h2, h3, h4]
    rfl

theorem applyEntry_eos (m : DenseModel) (e : Entry) :
    (applyEntry m e).config.eosTokenId = eosStep m.config.eosTokenId e := by
  unfold applyEntry
  cases hb : branchOf e.key.1 e.type.code with
  | tokens => simp [eosStep, Writes, branch, hb, (addTokens_spec m _).1]
  | field fld => cases fld <;> simp [eosStep, Writes, branch, hb, setField, eosOf]
  | alignment | scores | skip => simp [eosStep, Writes, branch, hb]

/-- A field other than the end-of-text token is changed by its own entries only. -/
theorem applyEntry_field (hfld : fld ≠ .eosTokenId) (m : DenseModel) (e : Entry) :
    getField (applyEntry m e).config fld =
      if Writes e fld then e.value.raw else getField m.config fld := by
  unfold applyEntry
  split_ifs with hw
  · rw [show branchOf e.key.1 e.type.code = .field fld from hw]
    exact getField_setField_self (fits_of_writes hw) m.config
  · cases hb : branchOf e.key.1 e.type.code with
    | tokens =>
      simp only [(addTokens_spec m _).1]
      cases fld <;> first | rfl | exact absurd rfl hfld
    | field fld' =>
      have hne : fld ≠ fld' := fun heq => hw (heq ▸ hb)
      exact getField_setField_ne hne _ m.config
    | alignment | scores | skip => cases fld <;> rfl

end Entry

/-! ### What all entries do -/

/-- The bytes of the last entry that is copied into the field. -/
def lastRaw (fld : Field) : List Entry → Option Bytes
  | [] => none
  | e :: es => (lastRaw fld es).or (if Writes e fld then some e.value.raw else none)

/-- The end-of-text token after all entries. -/
def eosFrom (eos : Token) (entries : List Entry) : Token := entries.foldl eosStep eos

/-- The tokens of the token lists. -/
def tokensOf (entries : List Entry) : List Bytes :=
  entries.flatMap fun e => if branch e = .tokens then e.value.strings else []

/-- The scores of the score lists. -/
def scoresOf (entries : List Entry) : List F32 :=
  entries.flatMap fun e => if branch e = .scores then e.value.floats else []

section Fold

variable {m : DenseModel} {fld : Field} {entries : List Entry}

theorem lastRaw_some {r : Bytes} (h : lastRaw fld entries = some r) :
    ∃ e ∈ entries, Writes e fld ∧ e.value.raw = r := by
  induction entries with
  | nil => exact absurd h (by simp [lastRaw])
  | cons e es ih =>
    rw [lastRaw, Option.or_eq_some_iff] at h
    rcases h with h | ⟨-, h⟩
    · obtain ⟨e', he', hw⟩ := ih h
      exact ⟨e', by simp [he'], hw⟩
    · split_ifs at h with hw
      exact ⟨e, by simp, hw, Option.some.inj h⟩

theorem lastRaw_ne_none {e : Entry} (he : e ∈ entries) (hw : Writes e fld) :
    ∃ r, lastRaw fld entries = some r := by
  induction entries with
  | nil => exact absurd he List.not_mem_nil
  | cons d es ih =>
    rw [lastRaw]
    rcases List.mem_cons.mp he with rfl | he
    · cases hlast : lastRaw fld es with
      | none => exact ⟨_, by rw [Option.none_or, if_pos hw]⟩
      | some r => exact ⟨r, rfl⟩
    · obtain ⟨r, hr⟩ := ih he
      exact ⟨r, by rw [hr]; rfl⟩

theorem lastRaw_concat {e : Entry} (hw : Writes e fld) : lastRaw fld (entries ++ [e]) = some e.value.raw := by
  induction entries with
  | nil => simp [lastRaw, hw]
  | cons d es ih => rw [List.cons_append, lastRaw, ih]; rfl

/-- **A field after all entries** has the bytes of the last entry for it. -/
theorem getField_foldl (hfld : fld ≠ .eosTokenId) (entries : List Entry) (m : DenseModel) :
    getField (entries.foldl applyEntry m).config fld =
      (lastRaw fld entries).getD (getField m.config fld) := by
  induction entries generalizing m with
  | nil => rfl
  | cons e es ih =>
    rw [List.foldl_cons, ih, applyEntry_field hfld, lastRaw]
    cases lastRaw fld es with
    | some r => rfl
    | none =>
      rw [Option.none_or]
      split_ifs <;> rfl

theorem eos_foldl (entries : List Entry) (m : DenseModel) :
    (entries.foldl applyEntry m).config.eosTokenId = eosFrom m.config.eosTokenId entries := by
  induction entries generalizing m with
  | nil => rfl
  | cons e es ih => rw [List.foldl_cons, ih, applyEntry_eos]; rfl

/-- The vocabulary after all entries. -/
theorem vocab_foldl (entries : List Entry) (m : DenseModel) :
    (entries.foldl applyEntry m).vocab.tokens = m.vocab.tokens ++ tokensOf entries ∧
      (entries.foldl applyEntry m).vocab.scores = m.vocab.scores ++ scoresOf entries := by
  induction entries generalizing m with
  | nil => simp [tokensOf, scoresOf]
  | cons e es ih =>
    obtain ⟨h1, h2⟩ := ih (applyEntry m e)
    rw [List.foldl_cons, h1, h2]
    simp only [tokensOf, scoresOf, List.flatMap_cons, ← List.append_assoc]
    unfold applyEntry
    cases hb : branchOf e.key.1 e.type.code with
    | tokens => simp [branch, hb, (addTokens_spec m _).2]
    | alignment | scores | field fld | skip => simp [branch, hb]

theorem alignment_foldl (hna : NoAlignment entries) (m : DenseModel) :
    (entries.foldl applyEntry m).config.alignment = m.config.alignment := by
  induction entries generalizing m with
  | nil => rfl
  | cons e es ih =>
    rw [List.foldl_cons, ih fun e' he' => hna e' (by simp [he'])]
    have hne := hna e (by simp)
    unfold applyEntry
    cases hb : branchOf e.key.1 e.type.code with
    | alignment => exact absurd hb hne
    | tokens => simp [(addTokens_spec m _).1]
    | field fld => cases fld <;> rfl
    | scores | skip => rfl

end Fold

/-! ### Derived fields -/

/-- The bytes that the entries declare for a field: those of the last one, or the default. -/
def declared (entries : List Entry) (fld : Field) : Bytes :=
  (lastRaw fld entries).getD (getField {} fld)

/-- What becomes of the bytes of a field after the metadata: three fields are derived when they are
zero. -/
def finalRaw (entries : List Entry) (ts : List Tensor) (fld : Field) (raw : Bytes) : Bytes :=
  match fld with
  | .headDim =>
    let numHeads := decodeU32 (declared entries .numHeads)
    if decodeU32 raw = 0 ∧ 0 < numHeads then
      encodeU32 (decodeU32 (declared entries .embeddingLength) / numHeads)
    else raw
  | .ropeBase =>
    if isZeroF32 (decodeU32 raw) then
      encodeU32 (if declared entries .architecture = ascii "qwen2" then 0x49742400 else 0x461c4000)
    else raw
  | .intermediateDim => if decodeU32 raw = 0 then encodeU32 (intermediateOf ts) else raw
  | _ => raw

/-- The configuration after all entries and all derivations. -/
def finalConfig (entries : List Entry) (ts : List Tensor) : ModelConfig :=
  deriveIntermediate ts (deriveDims (entries.foldl applyEntry {}).config)

section Final

variable (entries : List Entry) (ts : List Tensor)

theorem getField_derive (c : ModelConfig) (fld : Field)
    (hheads : getField c .numHeads = declared entries .numHeads)
    (hembed : getField c .embeddingLength = declared entries .embeddingLength)
    (harch : getField c .architecture = declared entries .architecture) :
    getField (deriveIntermediate ts (deriveDims c)) fld = finalRaw entries ts fld (getField c fld) := by
  have hother (c : ModelConfig) : fld ≠ .intermediateDim →
      getField (deriveIntermediate ts c) fld = getField c fld := by
    unfold deriveIntermediate
    intro hne
    split_ifs
    · cases fld <;> first | rfl | exact absurd rfl hne
    · rfl
  cases fld with
  | headDim =>
    rw [hother _ (by decide), finalRaw, ← hheads, ← hembed]
    simp only [getField, decodeU32_encodeU32, deriveDims]
    split_ifs <;> rfl
  | ropeBase =>
    rw [hother _ (by decide), finalRaw, ← harch]
    simp only [getField, decodeU32_encodeU32, deriveDims]
    by_cases hzero : isZeroF32 c.ropeBase = true
    · rw [if_pos hzero, if_pos hzero]
      congr
    · rw [if_neg hzero, if_neg hzero]
  | intermediateDim =>
    rw [finalRaw]
    simp only [getField, decodeU32_encodeU32]
    by_cases hzero : c.intermediateDim = 0
    · have hderive : (deriveDims c).intermediateDim = 0 := hzero
      rw [if_pos hzero, deriveIntermediate, if_pos hderive]
    · have hderive : ¬ (deriveDims c).intermediateDim = 0 := hzero
      rw [if_neg hzero, deriveIntermediate, if_neg hderive]
      rfl
  | _ => exact hother _ (by decide)

/-- **A field of the loaded configuration**, but for the end-of-text token. -/
theorem getField_final {fld : Field} (hfld : fld ≠ .eosTokenId) :
    getField (finalConfig entries ts) fld = finalRaw entries ts fld (declared entries fld) := by
  rw [finalConfig, getField_derive entries ts _ fld (getField_foldl (by decide) entries {})
    (getField_foldl (by decide) entries {}) (getField_foldl (by decide) entries {}),
    getField_foldl hfld entries {}]
  rfl

theorem eos_final : (finalConfig entries ts).eosTokenId = eosFrom (-1) entries := by
  have h := eos_foldl entries {}
  unfold finalConfig deriveIntermediate
  split_ifs
  · exact h
  · exact h

end Final

/-! ### The end-of-text token -/

section Eos

variable {entries : List Entry}

/-- A branch that only one test leads to: the key passes it and the type is one of those it asks for. -/
theorem holds_of_branch {e : Entry} {b : Branch} {t : KeyTest} {types : List UInt32} (hskip : b ≠ .skip)
    (hrules : ∀ r ∈ rules, r.branch = b → r.key = t ∧ r.types = types) (hb : branch e = b) :
    t.holds e.key.1 = true ∧ e.type.code ∈ types := by
  rw [← hb] at hskip
  obtain ⟨r, hr, hbranch, hholds, htype⟩ := exists_rule hskip
  obtain ⟨rfl, rfl⟩ := hrules r hr (hbranch.trans hb)
  exact ⟨hholds, htype⟩

theorem key_of_tokens {e : Entry} (h : branch e = .tokens) : e.key.1 = ascii "tokenizer.ggml.tokens" := by
  have hrules : ∀ r ∈ rules, r.branch = .tokens →
      r.key = .eq (ascii "tokenizer.ggml.tokens") ∧ r.types = [9] := by decide +kernel
  exact of_decide_eq_true (holds_of_branch (by simp) hrules h).1

/-- At most one entry is a token list. -/
theorem one_token_list (hkeys : entries.Pairwise fun e e' => e.key ≠ e'.key) :
    entries.Pairwise fun e e' => ¬ (branch e = .tokens ∧ branch e' = .tokens) := by
  refine hkeys.imp fun hne hboth => hne (Subtype.ext ?_)
  rw [key_of_tokens hboth.1, key_of_tokens hboth.2]

/-- Entries without a token list, all of whose end-of-text tokens are `w`. -/
theorem eosFrom_eq {w : Token} : ∀ (entries : List Entry) (v : Token),
    (∀ e ∈ entries, branch e ≠ .tokens) → (∀ e ∈ entries, Writes e .eosTokenId → eosOf e = w) →
    (v = w ∨ ∃ e ∈ entries, Writes e .eosTokenId) → eosFrom v entries = w
  | [], v, _, _, h => by
    rcases h with h | ⟨e, he, -⟩
    · exact h
    · exact absurd he List.not_mem_nil
  | e :: es, v, htokens, hw, h => by
    have hstep : eosFrom v (e :: es) = eosFrom (eosStep v e) es := rfl
    rw [hstep]
    refine eosFrom_eq es _ (fun x hx => htokens x (by simp [hx])) (fun x hx => hw x (by simp [hx])) ?_
    by_cases hwe : Writes e .eosTokenId
    · exact Or.inl (by rw [eosStep, if_pos hwe, hw e (by simp) hwe])
    · rw [eosStep, if_neg hwe, if_neg (htokens e (by simp))]
      rcases h with h | ⟨x, hx, hwx⟩
      · exact Or.inl h
      · rcases List.mem_cons.mp hx with rfl | hx
        · exact absurd hwx hwe
        · exact Or.inr ⟨x, hx, hwx⟩

/-- The token list is not followed by an entry for the end-of-text token, or leaves it as the entries
before have set it. -/
def EosKept (entries : List Entry) : Prop :=
  ∀ es e es', entries = es ++ e :: es' → branch e = .tokens → (∀ d ∈ es', ¬ Writes d .eosTokenId) →
    ∀ d ∈ es, Writes d .eosTokenId → detectAll (eosOf d) e.value.strings = eosOf d

theorem eosFrom_split (v : Token) (es : List Entry) (e : Entry) (es' : List Entry)
    (he : branch e = .tokens) :
    eosFrom v (es ++ e :: es') = eosFrom (detectAll (eosFrom v es) e.value.strings) es' := by
  have hne : ¬ Writes e .eosTokenId := fun h => by rw [Writes, he] at h; exact absurd h (by simp)
  rw [eosFrom, List.foldl_append, List.foldl_cons, eosStep, if_neg hne, if_pos he]
  rfl

/-- Around a token list there is no other. -/
theorem no_token_list {es : List Entry} {e : Entry} {es' : List Entry} (he : branch e = .tokens)
    (hone : (es ++ e :: es').Pairwise fun e e' => ¬ (branch e = .tokens ∧ branch e' = .tokens)) :
    (∀ x ∈ es, branch x ≠ .tokens) ∧ ∀ x ∈ es', branch x ≠ .tokens := by
  obtain ⟨-, hright, hcross⟩ := List.pairwise_append.mp hone
  exact ⟨fun x hx hb => hcross x hx e (by simp) ⟨hb, he⟩,
    fun x hx hb => (List.pairwise_cons.mp hright).1 x hx ⟨he, hb⟩⟩

/-- **The end-of-text token after all entries** is that of every entry for it exactly when these
agree and the token list does not replace it. -/
theorem eos_iff (hone : entries.Pairwise fun e e' => ¬ (branch e = .tokens ∧ branch e' = .tokens))
    (v : Token) : (∀ e ∈ entries, Writes e .eosTokenId → eosOf e = eosFrom v entries) ↔
      (∀ e ∈ entries, ∀ e' ∈ entries, Writes e .eosTokenId → Writes e' .eosTokenId → eosOf e = eosOf e') ∧
        EosKept entries := by
  constructor
  · intro h
    refine ⟨fun e he e' he' hw hw' => (h e he hw).trans (h e' he' hw').symm, ?_⟩
    rintro es e es' rfl hb hafter d hd hwd
    obtain ⟨hes, hes'⟩ := no_token_list hb hone
    have hagree : ∀ x ∈ es, Writes x .eosTokenId → eosOf x = eosOf d := fun x hx hwx =>
      (h x (by simp [hx]) hwx).trans (h d (by simp [hd]) hwd).symm
    have hfinal := h d (by simp [hd]) hwd
    rw [eosFrom_split v es e es' hb, eosFrom_eq es v hes hagree (Or.inr ⟨d, hd, hwd⟩)] at hfinal
    rw [eosFrom_eq es' _ hes' (fun x hx hwx => absurd hwx (hafter x hx)) (Or.inl rfl)] at hfinal
    exact hfinal.symm
  · rintro ⟨hagree, hkept⟩ d hd hwd
    have hw : ∀ x ∈ entries, Writes x .eosTokenId → eosOf x = eosOf d := fun x hx hwx =>
      hagree x hx d hd hwx hwd
    by_cases htokens : ∃ e ∈ entries, branch e = .tokens
    · obtain ⟨e, he, hb⟩ := htokens
      obtain ⟨es, es', rfl⟩ := List.append_of_mem he
      obtain ⟨hes, hes'⟩ := no_token_list hb hone
      rw [eosFrom_split v es e es' hb]
      refine (eosFrom_eq es' _ hes' (fun x hx => hw x (by simp [hx])) ?_).symm
      by_cases hafter : ∃ x ∈ es', Writes x .eosTokenId
      · exact Or.inr hafter
      · have hnone : ∀ x ∈ es', ¬ Writes x .eosTokenId := fun x hx hwx => hafter ⟨x, hx, hwx⟩
        have hdes : d ∈ es := by
          rcases List.mem_append.mp hd with hd | hd
          · exact hd
          · rcases List.mem_cons.mp hd with rfl | hd
            · rw [Writes, hb] at hwd
              exact absurd hwd (by simp)
            · exact absurd hwd (hnone d hd)
        rw [eosFrom_eq es v hes (fun x hx => hw x (by simp [hx])) (Or.inr ⟨d, hdes, hwd⟩)]
        exact Or.inl (hkept es e es' rfl hb hnone d hdes hwd)
    · exact (eosFrom_eq entries v (fun x hx hb => htokens ⟨x, hx, hb⟩) hw (Or.inr ⟨d, hd, hwd⟩)).symm

end Eos

end DenseLite.Gguf.Fields
