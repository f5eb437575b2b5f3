import DenseLite.Gguf.Alignment

/-! # Loading what was encoded

A well-formed file whose tensors lie at multiples of 32 is loaded back exactly when nothing follows an
alignment entry, all entries for one field give it one value, no value is replaced after the metadata,
and the token list leaves the end-of-text token as declared (`Kept`). For the converse the file is
moderate: in a larger one, what is read out of step can be crafted to fit. -/

namespace DenseLite.Gguf.RoundTrip

open DenseLite.Lib.ByteStream DenseLite.Lib.Cursor DenseLite.Gguf.Config DenseLite.Gguf.Format
open DenseLite.Gguf.Loader DenseLite.Gguf.ParseEncode DenseLite.Gguf.Fields DenseLite.Gguf.Alignment
open DenseLite.Infer.State (ascii occursIn F32 Token TensorType)

/-! ### What is to be loaded -/

/-- The start of the tensor data, by the format. -/
def dataStartOf (g : File) : ℕ :=
  dataStart (alignmentOf g.entries) (encodeMeta g.entries g.tensors).length

/-- The offsets are such that the absolute offsets, with the padding that the alignment asks for, are
multiples of 32. -/
structure Aligned (g : File) : Prop where
  alignment : alignmentOf g.entries ≠ 0
  offsets : ∀ t ∈ g.tensors, absoluteOffset (dataStartOf g) (tensorOf t) % 32 = 0

/-- A tensor with the place of its data. -/
def placeAt (start : ℕ) (t : Tensor) : Tensor := { t with data := absoluteOffset start t }

/-- The model has what the file encodes. -/
structure Parsed (g : File) (m : DenseModel) : Prop where
  tensors : m.tensors = g.tensors.map fun t => placeAt (dataStartOf g) (tensorOf t)
  tokens : m.vocab.tokens = tokensOf g.entries
  scores : m.vocab.scores = scoresOf g.entries
  alignment : m.config.alignment = alignmentOf g.entries
  fields : ∀ e ∈ g.entries, ∀ fld, Writes e fld → getField m.config fld = e.value.raw

/-- The loader returns true with what the file encodes. -/
def Parses (g : File) (grants : ℕ → Bool) : Prop :=
  ∃ m, loadGgufModel g.encode grants = .ok (true, m) ∧ Parsed g m

/-! ### When fields keep their values -/

/-- All entries for one field have the same value. -/
def Agree (entries : List Entry) : Prop :=
  ∀ e ∈ entries, ∀ e' ∈ entries, ∀ fld, Writes e fld → Writes e' fld → e.value.raw = e'.value.raw

/-- No value is replaced by a derived one that differs. -/
structure NotReplaced (entries : List Entry) (ts : List Tensor) : Prop where
  headDim : ∀ e ∈ entries, Writes e .headDim → decodeU32 e.value.raw = 0 →
    0 < decodeU32 (declared entries .numHeads) →
    decodeU32 (declared entries .embeddingLength) / decodeU32 (declared entries .numHeads) = 0
  ropeBase : ∀ e ∈ entries, Writes e .ropeBase → ¬ isZeroF32 (decodeU32 e.value.raw) = true
  intermediateDim : ∀ e ∈ entries, Writes e .intermediateDim → decodeU32 e.value.raw = 0 →
    intermediateOf ts = 0

section Kept

variable {entries : List Entry} {ts : List Tensor} {e : Entry} {fld : Field}

theorem declared_eq (hagree : Agree entries) (he : e ∈ entries) (hw : Writes e fld) :
    declared entries fld = e.value.raw := by
  obtain ⟨r, hr⟩ := lastRaw_ne_none he hw
  obtain ⟨e', he', hw', rfl⟩ := lastRaw_some hr
  rw [declared, hr, Option.getD_some, hagree e' he' e he fld hw' hw]

/-- A word is read from its four bytes. -/
theorem raw_eq_encode (hw : Writes e fld) (hfld : fld.isText = false) :
    encodeU32 (decodeU32 e.value.raw) = e.value.raw := by
  rcases fits_of_writes hw with h | h
  · rw [hfld] at h
    exact absurd h (by decide)
  · exact encodeU32_decodeU32 h

theorem notReplaced_iff : NotReplaced entries ts ↔
    ∀ e ∈ entries, ∀ fld, Writes e fld → finalRaw entries ts fld e.value.raw = e.value.raw := by
  constructor
  · intro h e he fld hw
    cases fld with
    | headDim =>
      rw [finalRaw]
      split_ifs with hzero
      · rw [h.headDim e he hw hzero.1 hzero.2, ← hzero.1, raw_eq_encode hw rfl]
      · rfl
    | ropeBase => rw [finalRaw, if_neg (h.ropeBase e he hw)]
    | intermediateDim =>
      rw [finalRaw]
      split_ifs with hzero
      · rw [h.intermediateDim e he hw hzero, ← hzero, raw_eq_encode hw rfl]
      · rfl
    | _ => rfl
  · intro h
    constructor
    · intro e he hw hzero hpos
      have heq := h e he .headDim hw
      rw [finalRaw, if_pos ⟨hzero, hpos⟩, ← raw_eq_encode hw rfl, hzero] at heq
      exact encodeU32_inj heq
    · intro e he hw hzero
      have heq := h e he .ropeBase hw
      rw [finalRaw, if_pos hzero, ← raw_eq_encode hw rfl] at heq
      rw [← encodeU32_inj heq] at hzero
      split_ifs at hzero <;> exact absurd hzero (by decide)
    · intro e he hw hzero
      have heq := h e he .intermediateDim hw
      rw [finalRaw, if_pos hzero, ← raw_eq_encode hw rfl, hzero] at heq
      exact encodeU32_inj heq

theorem getField_eos_iff (hw : Writes e .eosTokenId) (c : ModelConfig) :
    getField c .eosTokenId = e.value.raw ↔ eosOf e = c.eosTokenId := by
  constructor
  · intro h
    rw [eosOf, ← h, getField, decodeU32_encodeU32, Int32.toInt32_toUInt32]
  · intro h
    rw [getField, ← h, eosOf, UInt32.toUInt32_toInt32, raw_eq_encode hw rfl]

/-- **The fields of the loaded configuration** are those of their entries exactly when the entries
agree, none is replaced and the token list keeps the end-of-text token. -/
theorem fields_iff (ts : List Tensor) (hkeys : entries.Pairwise fun e e' => e.key ≠ e'.key) :
    (∀ e ∈ entries, ∀ fld, Writes e fld → getField (finalConfig entries ts) fld = e.value.raw) ↔
      Agree entries ∧ NotReplaced entries ts ∧ EosKept entries := by
  have heos := eos_iff (one_token_list hkeys) (-1)
  rw [← eos_final entries ts] at heos
  constructor
  · intro h
    have hagree : Agree entries := fun e he e' he' fld hw hw' =>
      (h e he fld hw).symm.trans (h e' he' fld hw')
    refine ⟨hagree, notReplaced_iff.mpr fun e he fld hw => ?_, ?_⟩
    · by_cases hfld : fld = .eosTokenId
      · rw [hfld, finalRaw]
        all_goals simp
      · have hget := h e he fld hw
        rw [getField_final entries ts hfld, declared_eq hagree he hw] at hget
        exact hget
    · exact (heos.mp fun e he hw => (getField_eos_iff hw _).mp (h e he _ hw)).2
  · rintro ⟨hagree, hnot, hkept⟩ e he fld hw
    by_cases hfld : fld = .eosTokenId
    · subst hfld
      refine (getField_eos_iff hw _).mpr (heos.mpr ⟨fun d hd d' hd' hwd hwd' => ?_, hkept⟩ e he hw)
      rw [eosOf, eosOf, hagree d hd d' hd' _ hwd hwd']
    · rw [getField_final entries ts hfld, declared_eq hagree he hw, notReplaced_iff.mp hnot e he fld hw]

end Kept

/-! ### Loading -/

/-- The file is such that loading loses nothing. -/
structure Kept (g : File) : Prop where
  alignment : NothingFollows g.entries g.tensors
  agree : Agree g.entries
  notReplaced : NotReplaced g.entries (g.tensors.map tensorOf)
  eos : EosKept g.entries

/-- The tensors that the loader looks at after it has checked their alignment. -/
def shownTensors (g : File) : List Tensor :=
  if ∀ t ∈ g.tensors, absoluteOffset (dataStartOf g) (tensorOf t) % 32 = 0 then g.tensors.map tensorOf else []

section Load

variable {g : File} {grants : ℕ → Bool}

/-- The model that the loader leaves when it has gone through all of a file. -/
def loadedModel (g : File) : DenseModel :=
  { loaded g.entries g.tensors with
    tensors := g.tensors.map fun t => placeAt (dataStartOf g) (tensorOf t)
    config := finalConfig g.entries (g.tensors.map tensorOf) }

theorem finish_loaded (hfollow : NothingFollows g.entries g.tensors) (hal : Aligned g) {k : ℕ}
    (hk : g.tensors ≠ [] → k = (encodeMeta g.entries g.tensors).length) :
    finish (loaded g.entries g.tensors) k = .ok (true, loadedModel g) := by
  have halign : (loaded g.entries g.tensors).config.alignment = alignmentOf g.entries :=
    alignment_of_nothingFollows hfollow
  have hstart : ∀ t ∈ g.tensors, dataStart (alignmentOf g.entries) k = dataStartOf g := by
    intro t ht
    rw [dataStartOf, hk (List.ne_nil_of_mem ht)]
  have hnone : ¬ ((loaded g.entries g.tensors).tensors.any fun t =>
      absoluteOffset (dataStart (alignmentOf g.entries) k) t % 32 ≠ 0) = true := by
    rw [List.any_eq_true]
    rintro ⟨t', ht', hbad⟩
    obtain ⟨t, ht, rfl⟩ := List.mem_map.mp ht'
    rw [hstart t ht] at hbad
    exact of_decide_eq_true hbad (hal.offsets t ht)
  have hplace : ((loaded g.entries g.tensors).tensors.map fun t =>
      { t with data := absoluteOffset (dataStart (alignmentOf g.entries) k) t }) =
        g.tensors.map fun t => placeAt (dataStartOf g) (tensorOf t) := by
    rw [show (loaded g.entries g.tensors).tensors = g.tensors.map tensorOf from rfl, List.map_map]
    refine List.map_congr_left fun t ht => ?_
    rw [Function.comp_apply, hstart t ht, placeAt]
  rw [finish, halign, if_neg hal.alignment]
  dsimp only
  rw [if_neg hnone, hplace]
  rfl

theorem deriveIntermediate_nil (c : ModelConfig) : deriveIntermediate [] c = c := by
  unfold deriveIntermediate
  split_ifs with hzero
  · have hnone : intermediateOf [] = c.intermediateDim := hzero.symm
    rw [hnone]
  · rfl

/-- What is loaded when nothing follows an alignment entry, whether or not the tensors are aligned. -/
theorem load_config (ha : Ample g.encode grants) (hfollow : NothingFollows g.entries g.tensors)
    (hpos : alignmentOf g.entries ≠ 0) : ∃ b m, loadGgufModel g.encode grants = .ok (b, m) ∧
      m.config = finalConfig g.entries (shownTensors g) ∧
      m.vocab = (g.entries.foldl applyEntry {}).vocab ∧
      m.tensors.map (fun t => (t.name, t.type)) = g.tensors.map fun t => (t.name.1, tensorType t.type) := by
  obtain ⟨k, hload, hk⟩ := load_nothing_follows g ha hfollow
  by_cases hal : ∀ t ∈ g.tensors, absoluteOffset (dataStartOf g) (tensorOf t) % 32 = 0
  · refine ⟨true, loadedModel g, hload.trans (finish_loaded hfollow ⟨hpos, hal⟩ hk), ?_, rfl, ?_⟩
    · rw [shownTensors, if_pos hal]
      rfl
    · exact List.map_map
  · have halign : (loaded g.entries g.tensors).config.alignment = alignmentOf g.entries :=
      alignment_of_nothingFollows hfollow
    push Not at hal
    obtain ⟨t, ht, hbad⟩ := hal
    have hany : ((loaded g.entries g.tensors).tensors.any fun t =>
        absoluteOffset (dataStart (alignmentOf g.entries) k) t % 32 ≠ 0) = true := by
      rw [List.any_eq_true]
      refine ⟨tensorOf t, List.mem_map_of_mem ht, decide_eq_true ?_⟩
      rw [hk (List.ne_nil_of_mem ht)]
      exact hbad
    refine ⟨false, loaded g.entries g.tensors, ?_, ?_, rfl, List.map_map⟩
    · rw [hload, finish, halign, if_neg hpos]
      dsimp only
      rw [if_pos hany]
    · rw [shownTensors, if_neg fun hal => hbad (hal t ht), finalConfig, deriveIntermediate_nil]
      rfl

theorem parsed_iff (hfollow : NothingFollows g.entries g.tensors) : Parsed g (loadedModel g) ↔ Kept g := by
  have hfields := fields_iff (g.tensors.map tensorOf) g.keys
  constructor
  · intro h
    obtain ⟨hagree, hnot, heos⟩ := hfields.mp h.fields
    exact ⟨hfollow, hagree, hnot, heos⟩
  · intro h
    have hvocab := vocab_foldl g.entries {}
    have halign : (loadedModel g).config.alignment = alignmentOf g.entries := by
      rw [← alignment_of_nothingFollows hfollow]
      show (deriveIntermediate _ _).alignment = _
      unfold deriveIntermediate
      split_ifs <;> rfl
    exact ⟨rfl, hvocab.1, hvocab.2, halign, hfields.mpr ⟨h.agree, h.notReplaced, h.eos⟩⟩

/-- **Loading inverts encoding.** A file whose entries are kept is loaded with what it encodes; and a
moderate file that is loaded with what it encodes is one whose entries are kept. -/
theorem load_inverts_encode (g : File) (grants : ℕ → Bool) (ha : Ample g.encode grants) (hal : Aligned g) :
    (Kept g → Parses g grants) ∧ (Moderate g → Parses g grants → Kept g) := by
  constructor
  · intro hkept
    obtain ⟨k, hload, hk⟩ := load_nothing_follows g ha hkept.alignment
    exact ⟨loadedModel g, hload.trans (finish_loaded hkept.alignment hal hk),
      (parsed_iff hkept.alignment).mpr hkept⟩
  · rintro hg ⟨m, hload, hparsed⟩
    by_cases hfollow : NothingFollows g.entries g.tensors
    · obtain ⟨k, hload', hk⟩ := load_nothing_follows g ha hfollow
      rw [hload, finish_loaded hfollow hal hk] at hload'
      have hm : m = loadedModel g := (Prod.mk.inj (Except.ok.inj hload')).2
      rw [hm] at hparsed
      exact (parsed_iff hfollow).mp hparsed
    · obtain ⟨e, he⟩ := load_followed g ha hg hfollow
      rw [hload] at he
      exact absurd he (by simp)

end Load

/-! ### Two files -/

/-- The entry `general.architecture` of a llama model. -/
def architectureEntry : Entry :=
  ⟨⟨ascii "general.architecture", by decide +kernel⟩, .STRING, .string ⟨ascii "llama", by decide +kernel⟩⟩

/-- An entry with a number. -/
def wordEntry (key : Str) (u : UInt32) : Entry :=
  ⟨key, .UINT32, .scalar .UINT32 rfl (encodeU32 u) (length_encodeU32 u)⟩

/-- A file with two entries and one tensor. -/
def smallFile : File where
  entries := [architectureEntry, wordEntry ⟨ascii "llama.context_length", by decide +kernel⟩ 2048]
  tensors := [⟨⟨ascii "a", by decide +kernel⟩, [2], by decide, 0, 0⟩]
  data := List.replicate 40 0
  keys := by decide +kernel
  names := by decide +kernel
  size := by decide +kernel

theorem smallFile_branch : ∀ e ∈ smallFile.entries,
    branch e = .field .architecture ∨ branch e = .field .contextLength := by decide +kernel

theorem smallFile_agree : Agree smallFile.entries := by
  have hraw : ∀ e ∈ smallFile.entries, ∀ e' ∈ smallFile.entries, branch e = branch e' →
      e.value.raw = e'.value.raw := by decide +kernel
  exact fun e he e' he' fld hw hw' => hraw e he e' he' (hw.trans hw'.symm)

theorem smallFile_writes {e : Entry} (he : e ∈ smallFile.entries) {fld : Field} (hw : Writes e fld) :
    fld = .architecture ∨ fld = .contextLength := by
  rcases smallFile_branch e he with hb | hb
  · exact Or.inl (Branch.field.inj (hw.symm.trans hb))
  · exact Or.inr (Branch.field.inj (hw.symm.trans hb))

theorem smallFile_not_special {e : Entry} (he : e ∈ smallFile.entries) :
    branch e ≠ .alignment ∧ branch e ≠ .tokens := by
  rcases smallFile_branch e he with hb | hb <;> rw [hb] <;> decide

theorem load_inverts_encode_small : Ample smallFile.encode (fun _ => true) ∧ Aligned smallFile ∧
    Parses smallFile fun _ => true := by
  have ha : Ample smallFile.encode fun _ => true := fun _ _ => rfl
  have hal : Aligned smallFile := ⟨by decide +kernel, by decide +kernel⟩
  have hnone {fld : Field} (hfld : fld ≠ .architecture ∧ fld ≠ .contextLength) {e : Entry}
      (he : e ∈ smallFile.entries) : ¬ Writes e fld := fun hw =>
    (smallFile_writes he hw).elim hfld.1 hfld.2
  refine ⟨ha, hal, (load_inverts_encode smallFile (fun _ => true) ha hal).1 ⟨?_, smallFile_agree, ?_, ?_⟩⟩
  · exact nothingFollows_of_noAlignment (fun e he => (smallFile_not_special he).1) _
  · exact ⟨fun e he hw => absurd hw (hnone (by decide) he), fun e he hw => absurd hw (hnone (by decide) he),
      fun e he hw => absurd hw (hnone (by decide) he)⟩
  · intro es e es' heq hb
    exact absurd hb (smallFile_not_special (by rw [heq]; simp)).2

theorem no_names : ([] : List TensorInfo).Pairwise fun t t' => t.name ≠ t'.name := List.Pairwise.nil

/-- A file that declares the default alignment before its architecture. -/
def alignmentFirst : File where
  entries := [wordEntry ⟨ascii "general.alignment", by decide +kernel⟩ 32, architectureEntry]
  tensors := []
  data := []
  keys := by decide +kernel
  names := no_names
  size := by decide +kernel

theorem load_loses_alignmentFirst : Ample alignmentFirst.encode (fun _ => true) ∧ Aligned alignmentFirst ∧
    ¬ Parses alignmentFirst fun _ => true := by
  have ha : Ample alignmentFirst.encode fun _ => true := fun _ _ => rfl
  have hg : Moderate alignmentFirst := ⟨by decide +kernel, by decide +kernel, by decide +kernel⟩
  have hfollow : ¬ NothingFollows alignmentFirst.entries alignmentFirst.tensors := by
    intro h
    exact absurd (h [] _ _ rfl (by decide +kernel)).1 (by simp)
  refine ⟨ha, ⟨by decide +kernel, by decide +kernel⟩, ?_⟩
  rintro ⟨m, hload, -⟩
  obtain ⟨e, he⟩ := load_followed alignmentFirst ha hg hfollow
  rw [hload] at he
  exact absurd he (by simp)

end DenseLite.Gguf.RoundTrip
