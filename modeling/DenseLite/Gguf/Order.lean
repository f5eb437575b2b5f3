import Mathlib.Data.List.Pairwise
import DenseLite.Gguf.RoundTrip

/-! # The order of the metadata

The branches of two entries commute when they write different things. Keys are matched by parts of
them, so several entries can write one field, and the last one wins; the token list reads the end-of-text
token that an entry may have set before. `Commutes` says when this does not show: then every order of
the entries gives the same configuration and vocabulary, and for moderate files only then. -/

namespace DenseLite.Gguf.Order

open DenseLite.Lib.ByteStream DenseLite.Lib.Cursor DenseLite.Gguf.Config DenseLite.Gguf.Format
open DenseLite.Gguf.Loader DenseLite.Gguf.ParseEncode DenseLite.Gguf.Fields DenseLite.Gguf.Alignment
open DenseLite.Gguf.RoundTrip
open DenseLite.Infer.State (ascii occursIn F32 Token TensorType)

/-! ### Files in another order -/

section Reorder

variable {g : File} {entries : List Entry}

theorem length_flatMap_perm (h : entries.Perm g.entries) :
    (entries.flatMap Entry.encode).length = (g.entries.flatMap Entry.encode).length :=
  (h.flatMap_right Entry.encode).length_eq

/-- The file with its entries in another order. -/
def reorder (g : File) (entries : List Entry) (h : entries.Perm g.entries) : File where
  entries := entries
  tensors := g.tensors
  data := g.data
  keys := (h.pairwise_iff fun hne => Ne.symm hne).mpr g.keys
  names := g.names
  size := by
    have hsize := g.size
    rw [List.length_append, length_encodeMeta] at hsize ⊢
    rwa [length_flatMap_perm h]

theorem length_encode_reorder (h : entries.Perm g.entries) :
    (reorder g entries h).encode.length = g.encode.length := by
  rw [File.encode, File.encode, List.length_append, List.length_append, length_encodeMeta,
    length_encodeMeta]
  show 24 + (entries.flatMap Entry.encode).length + _ + _ = _
  rw [length_flatMap_perm h]
  rfl

end Reorder

/-- Every order of the entries is loaded, with the same configuration and the same vocabulary. -/
def OrderFree (g : File) (grants : ℕ → Bool) : Prop :=
  ∃ c v, ∀ entries (h : entries.Perm g.entries), ∃ b m,
    loadGgufModel (reorder g entries h).encode grants = .ok (b, m) ∧ m.config = c ∧ m.vocab = v

/-! ### Entries that do not meet -/

section Perm

variable {entries entries' : List Entry}

/-- Entries of one file with the same key are the same. -/
theorem eq_of_key (hkeys : entries.Pairwise fun e e' => e.key ≠ e'.key) {e e' : Entry} (he : e ∈ entries)
    (he' : e' ∈ entries) (h : e.key = e'.key) : e = e' := by
  by_contra hne
  have : Std.Symm fun e e' : Entry => e.key ≠ e'.key := ⟨fun _ _ => Ne.symm⟩
  exact hkeys.forall he he' hne h

/-- What an entry does to the vocabulary and its size. -/
def vocabStep (s : Vocab × UInt32) (e : Entry) : Vocab × UInt32 :=
  match branch e with
  | .tokens => ({ s.1 with
      tokens := s.1.tokens ++ e.value.strings, root := insertAll s.1.root e.value.strings },
    e.value.count.toUInt32)
  | .scores => ({ s.1 with scores := s.1.scores ++ e.value.floats }, s.2)
  | _ => s

theorem applyEntry_vocab (m : DenseModel) (e : Entry) :
    ((applyEntry m e).vocab, (applyEntry m e).config.vocabSize) =
      vocabStep (m.vocab, m.config.vocabSize) e := by
  unfold applyEntry vocabStep
  cases hb : branchOf e.key.1 e.type.code with
  | tokens => simp [branch, hb, (addTokens_spec m _).2]
  | field fld => cases fld <;> simp [branch, hb, setField]
  | alignment | scores | skip => simp [branch, hb]

theorem vocabStep_foldl (entries : List Entry) (m : DenseModel) :
    ((entries.foldl applyEntry m).vocab, (entries.foldl applyEntry m).config.vocabSize) =
      entries.foldl vocabStep (m.vocab, m.config.vocabSize) := by
  induction entries generalizing m with
  | nil => rfl
  | cons e es ih => rw [List.foldl_cons, List.foldl_cons, ih, applyEntry_vocab]

theorem key_of_scores {e : Entry} (h : branch e = .scores) : e.key.1 = ascii "tokenizer.ggml.scores" := by
  have hrules : ∀ r ∈ rules, r.branch = .scores →
      r.key = .eq (ascii "tokenizer.ggml.scores") ∧ r.types = [9] := by decide +kernel
  exact of_decide_eq_true (holds_of_branch (by simp) hrules h).1

/-- The vocabulary does not depend on the order: there is one token list and one score list at most. -/
theorem vocabStep_perm (hkeys : entries.Pairwise fun e e' => e.key ≠ e'.key) (hperm : entries.Perm entries')
    (s : Vocab × UInt32) : entries.foldl vocabStep s = entries'.foldl vocabStep s := by
  refine hperm.foldl_eq' (fun x hx y hy s => ?_) s
  have hsame (b : Branch) (hb : b = .tokens ∨ b = .scores) (hbx : branch x = b) (hby : branch y = b) :
      x = y := by
    refine eq_of_key hkeys hx hy (Subtype.ext ?_)
    rcases hb with rfl | rfl
    · rw [key_of_tokens hbx, key_of_tokens hby]
    · rw [key_of_scores hbx, key_of_scores hby]
  by_cases hxy : x = y
  · rw [hxy]
  · unfold vocabStep
    cases hbx : branch x <;> cases hby : branch y <;>
      first
      | rfl
      | exact absurd (hsame _ (Or.inl rfl) hbx hby) hxy
      | exact absurd (hsame _ (Or.inr rfl) hbx hby) hxy

/-- What the entries declare for a field, up to a function that does not tell the entries for it
apart. -/
theorem declared_perm {α : Type} (φ : Bytes → α) {fld : Field} (hperm : entries'.Perm entries)
    (h : ∀ e ∈ entries, ∀ e' ∈ entries, Writes e fld → Writes e' fld → φ e.value.raw = φ e'.value.raw) :
    φ (declared entries' fld) = φ (declared entries fld) := by
  unfold declared
  cases hlast : lastRaw fld entries' with
  | some r =>
    obtain ⟨e', he', hw', rfl⟩ := lastRaw_some hlast
    obtain ⟨r, hr⟩ := lastRaw_ne_none (hperm.mem_iff.mp he') hw'
    obtain ⟨e, he, hw, rfl⟩ := lastRaw_some hr
    rw [hr]
    exact h e' (hperm.mem_iff.mp he') e he hw' hw
  | none =>
    cases hr : lastRaw fld entries with
    | none => rfl
    | some r =>
      obtain ⟨e, he, hw, -⟩ := lastRaw_some hr
      obtain ⟨r', hr'⟩ := lastRaw_ne_none (hperm.mem_iff.mpr he) hw
      rw [hlast] at hr'
      exact absurd hr' (by simp)

end Perm

/-! ### When the order does not show -/

/-- The entries for one field show the same value after the metadata, and the end-of-text token that
entries declare is one that the token list does not replace. -/
structure FieldsCommute (entries : List Entry) (ts : List Tensor) : Prop where
  fields : ∀ fld ≠ .eosTokenId, ∀ e ∈ entries, ∀ e' ∈ entries, Writes e fld → Writes e' fld →
    finalRaw entries ts fld e.value.raw = finalRaw entries ts fld e'.value.raw
  eos : ∀ e ∈ entries, ∀ e' ∈ entries, Writes e .eosTokenId → Writes e' .eosTokenId → eosOf e = eosOf e'
  detected : ∀ e ∈ entries, Writes e .eosTokenId → ∀ t ∈ entries, branch t = .tokens →
    detectAll (eosOf e) t.value.strings = eosOf e

section Commute

variable {entries entries' : List Entry} {ts : List Tensor}

theorem finalRaw_congr (h : ∀ fld, fld = .numHeads ∨ fld = .embeddingLength ∨ fld = .architecture →
      declared entries' fld = declared entries fld) (fld : Field) (raw : Bytes) :
    finalRaw entries' ts fld raw = finalRaw entries ts fld raw := by
  have h1 := h .numHeads (by simp)
  have h2 := h .embeddingLength (by simp)
  have h3 := h .architecture (by simp)
  cases fld <;> simp only [finalRaw, h1, h2, h3]

/-- The fields that others are derived from, in another order. -/
theorem declared_base (hperm : entries'.Perm entries)
    (h : ∀ fld, fld = .numHeads ∨ fld = .embeddingLength ∨ fld = .architecture →
      ∀ e ∈ entries, ∀ e' ∈ entries, Writes e fld → Writes e' fld → e.value.raw = e'.value.raw)
    (fld : Field) (hfld : fld = .numHeads ∨ fld = .embeddingLength ∨ fld = .architecture) :
    declared entries' fld = declared entries fld :=
  declared_perm id hperm (h fld hfld)

theorem eos_perm (hkeys : entries.Pairwise fun e e' => e.key ≠ e'.key) (hperm : entries'.Perm entries)
    (h : FieldsCommute entries ts) : eosFrom (-1) entries' = eosFrom (-1) entries := by
  by_cases hex : ∃ e ∈ entries, Writes e .eosTokenId
  · obtain ⟨e, he, hw⟩ := hex
    have heos (es : List Entry) (hes : es.Perm entries) : eosOf e = eosFrom (-1) es := by
      have hkeys' := (hes.pairwise_iff fun hne => Ne.symm hne).mpr hkeys
      refine (eos_iff (one_token_list hkeys') (-1)).mpr ⟨?_, ?_⟩ e (hes.mem_iff.mpr he) hw
      · exact fun d hd d' hd' => h.eos d (hes.mem_iff.mp hd) d' (hes.mem_iff.mp hd')
      · rintro as t bs rfl ht - d hd hwd
        exact h.detected d (hes.mem_iff.mp (by simp [hd])) hwd t (hes.mem_iff.mp (by simp)) ht
    rw [← heos entries' hperm, ← heos entries (List.Perm.refl _)]
  · refine hperm.foldl_eq' (fun x hx y hy v => ?_) (-1)
    have hnone {e : Entry} (he : e ∈ entries') : ¬ Writes e .eosTokenId := fun hw =>
      hex ⟨e, hperm.mem_iff.mp he, hw⟩
    by_cases hxy : branch x = .tokens ∧ branch y = .tokens
    · have heq : x = y := eq_of_key hkeys (hperm.mem_iff.mp hx) (hperm.mem_iff.mp hy)
        (Subtype.ext (by rw [key_of_tokens hxy.1, key_of_tokens hxy.2]))
      rw [heq]
    · simp only [eosStep, if_neg (hnone hx), if_neg (hnone hy)]
      split_ifs with hy' hx' <;> first | rfl | exact absurd ⟨hx', hy'⟩ hxy

theorem modelId_foldl (entries : List Entry) (m : DenseModel) :
    (entries.foldl applyEntry m).config.modelId = m.config.modelId := by
  induction entries generalizing m with
  | nil => rfl
  | cons e es ih =>
    rw [List.foldl_cons, ih]
    unfold applyEntry
    cases branchOf e.key.1 e.type.code with
    | tokens => simp [(addTokens_spec m _).1]
    | field fld => cases fld <;> rfl
    | alignment | scores | skip => rfl

/-- What the derivations leave as it is. -/
theorem finalConfig_kept (entries : List Entry) (ts : List Tensor) :
    (finalConfig entries ts).vocabSize = (entries.foldl applyEntry {}).config.vocabSize ∧
      (finalConfig entries ts).alignment = (entries.foldl applyEntry {}).config.alignment ∧
      (finalConfig entries ts).modelId = (entries.foldl applyEntry {}).config.modelId := by
  unfold finalConfig deriveIntermediate
  split_ifs <;> exact ⟨rfl, rfl, rfl⟩

/-- **Entries that commute** give the same configuration in every order. -/
theorem finalConfig_perm (hkeys : entries.Pairwise fun e e' => e.key ≠ e'.key) (hna : NoAlignment entries)
    (hperm : entries'.Perm entries) (h : FieldsCommute entries ts) :
    finalConfig entries' ts = finalConfig entries ts := by
  obtain ⟨hsize', halign', hid'⟩ := finalConfig_kept entries' ts
  obtain ⟨hsize, halign, hid⟩ := finalConfig_kept entries ts
  have hna' : NoAlignment entries' := fun e he => hna e (hperm.mem_iff.mp he)
  have hvocab := vocabStep_perm hkeys hperm.symm ({}, 0)
  refine config_ext (fun fld => ?_) ?_ ?_ ?_
  · by_cases hfld : fld = .eosTokenId
    · rw [hfld, getField, getField, eos_final, eos_final, eos_perm hkeys hperm h]
    · have hbase : ∀ fld, fld = .numHeads ∨ fld = .embeddingLength ∨ fld = .architecture →
          declared entries' fld = declared entries fld := by
        refine declared_base hperm fun fld hfld e he e' he' hw hw' => ?_
        have hsame := h.fields fld (by rcases hfld with rfl | rfl | rfl <;> decide) e he e' he' hw hw'
        rcases hfld with rfl | rfl | rfl <;> exact hsame
      rw [getField_final entries' ts hfld, getField_final entries ts hfld, finalRaw_congr hbase]
      exact declared_perm (finalRaw entries ts fld) hperm (h.fields fld hfld)
  · rw [hsize', hsize]
    exact (congrArg Prod.snd ((vocabStep_foldl entries' {}).trans
      (hvocab.symm.trans (vocabStep_foldl entries {}).symm)))
  · rw [halign', halign, alignment_foldl hna', alignment_foldl hna]
  · rw [hid', hid, modelId_foldl, modelId_foldl]

end Commute

/-! ### Loading in every order -/

/-- The order of the entries does not show. -/
structure Commutes (g : File) : Prop where
  alignment : ∀ e ∈ g.entries, branch e = .alignment →
    g.entries = [e] ∧ g.tensors = [] ∧ decodeU32 e.value.raw ≠ 0
  fields : FieldsCommute g.entries (shownTensors g)

section Load

variable {g : File} {grants : ℕ → Bool}

theorem ample_reorder (ha : Ample g.encode grants) {entries : List Entry} (hperm : entries.Perm g.entries) :
    Ample (reorder g entries hperm).encode grants := by
  unfold Ample
  rw [length_encode_reorder hperm]
  exact ha

/-- What is loaded without an alignment entry, from the entries in another order. -/
theorem load_reorder (ha : Ample g.encode grants) (hna : NoAlignment g.entries) {entries : List Entry}
    (hperm : entries.Perm g.entries) :
    ∃ b m, loadGgufModel (reorder g entries hperm).encode grants = .ok (b, m) ∧
      m.config = finalConfig entries (shownTensors g) ∧ m.vocab = (entries.foldl applyEntry {}).vocab := by
  have hna' : NoAlignment (reorder g entries hperm).entries := fun e he => hna e (hperm.mem_iff.mp he)
  have hpos : alignmentOf (reorder g entries hperm).entries ≠ 0 := by
    rw [alignmentOf_eq_default hna']
    decide
  have hstart : dataStartOf (reorder g entries hperm) = dataStartOf g := by
    rw [dataStartOf, dataStartOf, alignmentOf_eq_default hna', alignmentOf_eq_default hna,
      length_encodeMeta, length_encodeMeta]
    show dataStart 32 (24 + (entries.flatMap Entry.encode).length + _) = _
    rw [length_flatMap_perm hperm]
    rfl
  have hshown : shownTensors (reorder g entries hperm) = shownTensors g := by
    unfold shownTensors
    rw [hstart]
    rfl
  obtain ⟨b, m, hload, hconfig, hvocab, -⟩ :=
    load_config (ample_reorder ha hperm) (nothingFollows_of_noAlignment hna' _) hpos
  rw [hshown] at hconfig
  exact ⟨b, m, hload, hconfig, hvocab⟩

/-! ### Necessity -/

/-- An entry can be put last. -/
theorem exists_perm_concat {entries : List Entry} {e : Entry} (he : e ∈ entries) :
    ∃ es, (es ++ [e]).Perm entries := by
  obtain ⟨as, bs, rfl⟩ := List.append_of_mem he
  refine ⟨as ++ bs, ?_⟩
  rw [List.append_assoc]
  exact (List.perm_append_singleton e bs).append_left as

theorem eosFrom_concat {e : Entry} (hw : Writes e .eosTokenId) (v : Token) (es : List Entry) :
    eosFrom v (es ++ [e]) = eosOf e := by
  rw [eosFrom, List.foldl_append, List.foldl_cons, List.foldl_nil, eosStep, if_pos hw]

/-- If every order gives the configuration `c`, the entries commute. -/
theorem fieldsCommute_of_perm {entries : List Entry} {ts : List Tensor} {c : ModelConfig}
    (h : ∀ entries', entries'.Perm entries → finalConfig entries' ts = c) : FieldsCommute entries ts := by
  -- every entry for a field can come last, so that the field has its value
  have hlast : ∀ fld ≠ .eosTokenId, ∀ e ∈ entries, Writes e fld →
      ∃ es, (es ++ [e]).Perm entries ∧ getField c fld = finalRaw (es ++ [e]) ts fld e.value.raw := by
    intro fld hfld e he hw
    obtain ⟨es, hperm⟩ := exists_perm_concat he
    refine ⟨es, hperm, ?_⟩
    rw [← h _ hperm, getField_final _ ts hfld, declared, lastRaw_concat hw, Option.getD_some]
  have hbase : ∀ fld, fld = .numHeads ∨ fld = .embeddingLength ∨ fld = .architecture →
      ∀ e ∈ entries, ∀ e' ∈ entries, Writes e fld → Writes e' fld → e.value.raw = e'.value.raw := by
    intro fld hfld e he e' he' hw hw'
    have hne : fld ≠ .eosTokenId := by rcases hfld with rfl | rfl | rfl <;> decide
    obtain ⟨es, -, hes⟩ := hlast fld hne e he hw
    obtain ⟨es', -, hes'⟩ := hlast fld hne e' he' hw'
    rw [hes] at hes'
    rcases hfld with rfl | rfl | rfl <;> exact hes'
  have hfinal : ∀ fld ≠ .eosTokenId, ∀ e ∈ entries, Writes e fld →
      getField c fld = finalRaw entries ts fld e.value.raw := by
    intro fld hfld e he hw
    obtain ⟨es, hperm, hes⟩ := hlast fld hfld e he hw
    rw [hes, finalRaw_congr (declared_base hperm hbase)]
  have heos : ∀ e ∈ entries, Writes e .eosTokenId → c.eosTokenId = eosOf e := by
    intro e he hw
    obtain ⟨es, hperm⟩ := exists_perm_concat he
    rw [← h _ hperm, eos_final, eosFrom_concat hw]
  refine ⟨fun fld hfld e he e' he' hw hw' => ?_, fun e he e' he' hw hw' => ?_, fun e he hw t ht hb => ?_⟩
  · rw [← hfinal fld hfld e he hw, hfinal fld hfld e' he' hw']
  · rw [← heos e he hw, heos e' he' hw']
  · -- the token list last, and before it the entry for the end-of-text token
    obtain ⟨es, hperm⟩ := exists_perm_concat ht
    have hne : e ≠ t := by
      rintro rfl
      rw [Writes, hb] at hw
      exact absurd hw (by simp)
    have he' : e ∈ es := by simpa [hne] using hperm.mem_iff.mpr he
    obtain ⟨es', hperm'⟩ := exists_perm_concat he'
    have hall := h _ ((hperm'.append_right [t]).trans hperm)
    have hfrom := eosFrom_split (-1) (es' ++ [e]) t [] hb
    rw [eosFrom_concat hw] at hfrom
    have hc := heos e he hw
    rw [← hall, eos_final, hfrom] at hc
    exact hc

theorem moderate_reorder (hg : Moderate g) {entries : List Entry} (hperm : entries.Perm g.entries) :
    Moderate (reorder g entries hperm) :=
  ⟨fun e he => hg.keys e (hperm.mem_iff.mp he), hg.names, (length_encode_reorder hperm).trans_le hg.size⟩

/-- An alignment entry that can be put before nothing, with a value that is not zero. -/
theorem alone_of_orderFree (ha : Ample g.encode grants) (hg : Moderate g) (h : OrderFree g grants)
    {e : Entry} (he : e ∈ g.entries) (hb : branch e = .alignment) :
    g.entries = [e] ∧ g.tensors = [] ∧ decodeU32 e.value.raw ≠ 0 := by
  obtain ⟨c, v, hall⟩ := h
  obtain ⟨as, bs, heq⟩ := List.append_of_mem he
  have hperm : (e :: (as ++ bs)).Perm g.entries := by
    rw [heq]
    exact List.perm_middle.symm
  obtain ⟨b, m, hload, -⟩ := hall _ hperm
  by_cases hfollow : NothingFollows (e :: (as ++ bs)) g.tensors
  · obtain ⟨hnil, htensors⟩ := hfollow [] e (as ++ bs) rfl hb
    obtain ⟨rfl, rfl⟩ := List.append_eq_nil_iff.mp hnil
    refine ⟨heq, htensors, fun hzero => ?_⟩
    have hna : NoAlignment [] := fun _ h => absurd h List.not_mem_nil
    have hstop := load_zero_alignment (ample_reorder ha hperm) hfollow ((alignmentOf_eq hna hb).trans hzero)
    rw [hload] at hstop
    exact absurd hstop (by simp)
  · obtain ⟨err, herr⟩ := load_followed _ (ample_reorder ha hperm) (moderate_reorder hg hperm) hfollow
    rw [hload] at herr
    exact absurd herr (by simp)

/-- Without an alignment entry, all orders give one configuration. -/
theorem finalConfig_of_orderFree (ha : Ample g.encode grants) (hna : NoAlignment g.entries)
    (h : OrderFree g grants) :
    ∃ c, ∀ entries, entries.Perm g.entries → finalConfig entries (shownTensors g) = c := by
  obtain ⟨c, v, hall⟩ := h
  refine ⟨c, fun entries hperm => ?_⟩
  obtain ⟨b, m, hload, hconfig, -⟩ := load_reorder ha hna hperm
  obtain ⟨b', m', hload', hc, -⟩ := hall entries hperm
  rw [hload] at hload'
  rw [← hconfig, (Prod.mk.inj (Except.ok.inj hload')).2, hc]

/-- **The order of the metadata.** If the entries commute, every order of them gives the same
configuration and vocabulary; and if it does, the entries of a moderate file commute. -/
theorem order_independent (g : File) (grants : ℕ → Bool) (ha : Ample g.encode grants) :
    (Commutes g → OrderFree g grants) ∧ (Moderate g → OrderFree g grants → Commutes g) := by
  constructor
  · intro h
    rcases first_alignment g.entries with hna | ⟨es, e, es', hsplit, -, hb⟩
    · refine ⟨finalConfig g.entries (shownTensors g), (g.entries.foldl applyEntry {}).vocab,
        fun entries hperm => ?_⟩
      obtain ⟨b, m, hload, hconfig, hvocab⟩ := load_reorder ha hna hperm
      refine ⟨b, m, hload, hconfig.trans (finalConfig_perm g.keys hna hperm h.fields), hvocab.trans ?_⟩
      exact congrArg Prod.fst ((vocabStep_foldl entries {}).trans
        ((vocabStep_perm g.keys hperm.symm _).symm.trans (vocabStep_foldl g.entries {}).symm))
    · obtain ⟨heq, htensors, hpos⟩ := h.alignment e (by simp [hsplit]) hb
      have hfollow : NothingFollows g.entries g.tensors := by
        rw [heq, htensors]
        exact nothingFollows_concat (fun _ h => absurd h List.not_mem_nil) e
      have hpos' : alignmentOf g.entries ≠ 0 := by
        rw [heq]
        exact (alignmentOf_eq (fun _ h => absurd h List.not_mem_nil) hb).trans_ne hpos
      obtain ⟨b, m, hload, -⟩ := load_config ha hfollow hpos'
      refine ⟨m.config, m.vocab, fun entries hperm => ⟨b, m, ?_, rfl, rfl⟩⟩
      -- one entry has only one order
      have hsame : entries = g.entries := by
        rw [heq] at hperm ⊢
        exact List.perm_singleton.mp hperm
      subst hsame
      exact hload
  · intro hg h
    have halone := fun e he hb => alone_of_orderFree (e := e) ha hg h he hb
    refine ⟨halone, ?_⟩
    rcases first_alignment g.entries with hna | ⟨es, e, es', hsplit, -, hb⟩
    · obtain ⟨c, hc⟩ := finalConfig_of_orderFree ha hna h
      exact fieldsCommute_of_perm hc
    · have hnone : ∀ d ∈ g.entries, ∀ fld, ¬ Writes d fld := by
        rw [(halone e (by simp [hsplit]) hb).1]
        intro d hd fld hw
        rw [List.mem_singleton.mp hd, Writes, hb] at hw
        exact absurd hw (by simp)
      exact ⟨fun fld _ d hd _ _ hw => absurd hw (hnone d hd fld), fun d hd _ _ hw => absurd hw (hnone d hd _),
        fun d hd hw => absurd hw (hnone d hd _)⟩

end Load

theorem order_independent_small : Ample smallFile.encode (fun _ => true) ∧
    OrderFree smallFile fun _ => true := by
  have ha : Ample smallFile.encode fun _ => true := fun _ _ => rfl
  have hnone {e : Entry} (he : e ∈ smallFile.entries) : ¬ Writes e .eosTokenId := fun hw => by
    rcases smallFile_writes he hw with h | h <;> exact absurd h (by decide)
  refine ⟨ha, (order_independent smallFile (fun _ => true) ha).1 ⟨?_, ?_, ?_, ?_⟩⟩
  · exact fun e he hb => absurd hb (smallFile_not_special he).1
  · exact fun fld _ e he e' he' hw hw' => congrArg _ (smallFile_agree e he e' he' fld hw hw')
  · exact fun e he _ _ hw => absurd hw (hnone he)
  · exact fun e he hw => absurd hw (hnone he)

/-- The length of the keys, and the part of a head that is rotated. -/
def keyLength : Entry := wordEntry ⟨ascii "llama.attention.key_length", by decide +kernel⟩ 128

def ropeDimension : Entry := wordEntry ⟨ascii "llama.rope.dimension_count", by decide +kernel⟩ 64

/-- A file with two entries for `head_dim`. -/
def twoHeadDims : File where
  entries := [keyLength, ropeDimension]
  tensors := []
  data := []
  keys := by decide +kernel
  names := no_names
  size := by decide +kernel

theorem order_shows_in_headDim : Ample twoHeadDims.encode (fun _ => true) ∧
    ¬ OrderFree twoHeadDims fun _ => true := by
  have ha : Ample twoHeadDims.encode fun _ => true := fun _ _ => rfl
  have hna : NoAlignment twoHeadDims.entries := by
    unfold NoAlignment
    decide +kernel
  refine ⟨ha, fun h => ?_⟩
  obtain ⟨c, hc⟩ := finalConfig_of_orderFree ha hna h
  have hsame := (fieldsCommute_of_perm hc).fields .headDim (by decide) keyLength (by simp [twoHeadDims])
    ropeDimension (by simp [twoHeadDims]) (by decide +kernel) (by decide +kernel)
  exact absurd hsame (by decide +kernel)

end DenseLite.Gguf.Order
