import DenseLite.Gguf.Inspector
import DenseLite.Gguf.RoundTrip

/-! # The two readers

The inspector and the loader read the same architecture, context length and tensor infos as long as both
stay in step with the file: the inspector goes out of step after a string of more than 4096 bytes, the
loader after an alignment entry. Besides, a key that speaks of both the context length and the
end-of-text token is read as the one by the inspector and as the other by the loader. -/

namespace DenseLite.Gguf.Readers

open DenseLite.Lib.ByteStream DenseLite.Lib.Cursor DenseLite.Gguf.Config DenseLite.Gguf.Format
open DenseLite.Gguf.Loader DenseLite.Gguf.ParseEncode DenseLite.Gguf.Fields DenseLite.Gguf.Alignment
open DenseLite.Gguf.RoundTrip DenseLite.Gguf.Inspector
open DenseLite.Infer.State (ascii occursIn nativeTensorSupported)

/-! ### What is to agree -/

/-- Inspection and loaded model have the same architecture, context length and tensors, and the
inspection reports a tensor exactly when the model holds an unsupported one. -/
structure SameReading (r : Inspection) (m : DenseModel) : Prop where
  architecture : r.architecture = m.config.architecture
  contextLength : r.contextLength = m.config.contextLength
  tensors : (r.tensors.map fun t => (t.1, tensorType t.2)) = m.tensors.map fun t => (t.name, t.type)
  unsupported : r.unsupportedNativeTensors ≠ [] ↔
    ∃ t ∈ m.tensors, nativeTensorSupported t.name t.type = false

/-- Both readers get through the file, and their readings are the same. -/
def ReadersAgree (g : File) (grants : ℕ → Bool) : Prop :=
  ∃ r b m, inspect g.encode = some r ∧ loadGgufModel g.encode grants = .ok (b, m) ∧ SameReading r m

/-! ### Entries -/

/-- A number whose key speaks of the context length. -/
def NamesContext (e : Entry) : Prop := occursIn (ascii ".context_length") e.key.1 = true ∧ e.type.code = 4

instance (e : Entry) : Decidable (NamesContext e) := inferInstanceAs (Decidable (_ ∧ _))

/-- The key speaks of the end-of-text token. -/
def NamesEos (e : Entry) : Prop := occursIn (ascii ".eos_token_id") e.key.1 = true

instance (e : Entry) : Decidable (NamesEos e) := inferInstanceAs (Decidable (_ = _))

/-- The number of the last entry with a property, or zero. -/
def lastNumber (p : Entry → Prop) [DecidablePred p] (entries : List Entry) : UInt32 :=
  entries.foldl (fun u e => if p e then decodeU32 e.value.raw else u) 0

section Entries

variable {e : Entry}

theorem writes_architecture_iff :
    Writes e .architecture ↔ e.key.1 = ascii "general.architecture" ∧ e.type.code = 8 := by
  constructor
  · intro h
    have hrules : ∀ r ∈ rules, r.branch = .field .architecture →
        r.key = .eq (ascii "general.architecture") ∧ r.types = [8] := by decide +kernel
    obtain ⟨hholds, htype⟩ := holds_of_branch (by simp) hrules h
    exact ⟨of_decide_eq_true hholds, List.mem_singleton.mp htype⟩
  · rintro ⟨hkey, htype⟩
    rw [Writes, branch, hkey, htype]
    decide +kernel

/-- The test for the end-of-text token comes before the one for the context length. -/
theorem branchOf_context {key : Bytes} (hkey : occursIn (ascii ".context_length") key = true) :
    branchOf key 4 = if occursIn (ascii ".eos_token_id") key = true then .field .eosTokenId
      else .field .contextLength := by
  have hne : key ≠ ascii "general.alignment" := by
    rintro rfl
    exact absurd hkey (by decide +kernel)
  unfold branchOf rules
  split_ifs with heos
  · simp [KeyTest.holds, hne, heos]
  · simp [KeyTest.holds, hne, heos, hkey]

theorem writes_context_iff : Writes e .contextLength ↔ NamesContext e ∧ ¬ NamesEos e := by
  constructor
  · intro h
    have hrules : ∀ r ∈ rules, r.branch = .field .contextLength →
        r.key = .has (ascii ".context_length") ∧ r.types = [4] := by decide +kernel
    obtain ⟨hholds, htype⟩ := holds_of_branch (by simp) hrules h
    rw [List.mem_singleton] at htype
    refine ⟨⟨hholds, htype⟩, fun heos => ?_⟩
    have heos' : occursIn (ascii ".eos_token_id") e.key.1 = true := heos
    rw [Writes, branch, htype, branchOf_context hholds, if_pos heos'] at h
    exact absurd h (by decide)
  · rintro ⟨⟨hkey, htype⟩, heos⟩
    have heos' : ¬ occursIn (ascii ".eos_token_id") e.key.1 = true := heos
    rw [Writes, branch, htype, branchOf_context hkey, if_neg heos']

end Entries

/-! ### What the readers have read -/

section Readings

variable (entries : List Entry)

/-- The architecture that the inspector has read is that of the last entry for it. -/
theorem inspect_architecture (res : Inspection) :
    (entries.foldl inspectOne res).architecture = (lastRaw .architecture entries).getD res.architecture := by
  induction entries generalizing res with
  | nil => rfl
  | cons e es ih =>
    have hstep : (inspectOne res e).architecture =
        if Writes e .architecture then e.value.raw else res.architecture := by
      unfold inspectOne
      by_cases hw : Writes e .architecture
      · rw [if_pos hw, if_pos (writes_architecture_iff.mp hw)]
      · rw [if_neg hw, if_neg (mt writes_architecture_iff.mpr hw)]
        split_ifs <;> rfl
    rw [List.foldl_cons, ih, hstep, lastRaw]
    cases lastRaw .architecture es with
    | some r => rfl
    | none =>
      rw [Option.none_or]
      split_ifs <;> rfl

/-- An entry for the architecture is no number. -/
theorem not_namesContext {e : Entry} (h : e.key.1 = ascii "general.architecture" ∧ e.type.code = 8) :
    ¬ NamesContext e := fun hc => by
  have := h.2.symm.trans hc.2
  exact absurd this (by decide)

/-- The context length that the inspector has read. -/
theorem inspect_context (res : Inspection) :
    (entries.foldl inspectOne res).contextLength =
      entries.foldl (fun u e => if NamesContext e then decodeU32 e.value.raw else u) res.contextLength := by
  induction entries generalizing res with
  | nil => rfl
  | cons e es ih =>
    rw [List.foldl_cons, List.foldl_cons, ih]
    congr 1
    unfold inspectOne
    by_cases harch : e.key.1 = ascii "general.architecture" ∧ e.type.code = 8
    · rw [if_pos harch, if_neg (not_namesContext harch)]
    · rw [if_neg harch]
      by_cases hc : NamesContext e
      · have hc' : occursIn (ascii ".context_length") e.key.1 = true ∧ e.type.code = 4 := hc
        rw [if_pos hc, if_pos hc']
      · have hc' : ¬ (occursIn (ascii ".context_length") e.key.1 = true ∧ e.type.code = 4) := hc
        rw [if_neg hc, if_neg hc']

/-- The context length that the loader has read. -/
theorem load_context (m : DenseModel) :
    (entries.foldl applyEntry m).config.contextLength =
      entries.foldl (fun u e => if NamesContext e ∧ ¬ NamesEos e then decodeU32 e.value.raw else u)
        m.config.contextLength := by
  induction entries generalizing m with
  | nil => rfl
  | cons e es ih =>
    rw [List.foldl_cons, List.foldl_cons, ih]
    congr 1
    have hne : Field.contextLength ≠ .eosTokenId := by decide
    have hfield := applyEntry_field hne m e
    refine encodeU32_inj (hfield.trans ?_)
    by_cases hw : Writes e .contextLength
    · rw [if_pos hw, if_pos (writes_context_iff.mp hw), raw_eq_encode hw rfl]
    · rw [if_neg hw, if_neg (mt writes_context_iff.mpr hw)]
      rfl

theorem inspect_rest (res : Inspection) : (entries.foldl inspectOne res).tensors = res.tensors ∧
    (entries.foldl inspectOne res).unsupportedNativeTensors = res.unsupportedNativeTensors := by
  induction entries generalizing res with
  | nil => exact ⟨rfl, rfl⟩
  | cons e es ih =>
    rw [List.foldl_cons, (ih _).1, (ih _).2]
    unfold inspectOne
    split_ifs <;> exact ⟨rfl, rfl⟩

/-- The tensor infos that the inspector has read. -/
theorem inspect_tensors (ts : List TensorInfo) (res : Inspection) :
    (ts.foldl inspectInfo res).tensors = res.tensors ++ ts.map (fun t => (t.name.1, t.type)) ∧
      (ts.foldl inspectInfo res).architecture = res.architecture ∧
      (ts.foldl inspectInfo res).contextLength = res.contextLength ∧
      ((ts.foldl inspectInfo res).unsupportedNativeTensors ≠ [] ↔ res.unsupportedNativeTensors ≠ [] ∨
        ∃ t ∈ ts, nativeTensorSupported t.name.1 (tensorType t.type) = false) := by
  induction ts generalizing res with
  | nil => simp
  | cons t ts ih =>
    obtain ⟨h1, h2, h3, h4⟩ := ih (inspectInfo res t)
    rw [List.foldl_cons]
    refine ⟨?_, h2, h3, ?_⟩
    · rw [h1]
      simp [inspectInfo]
    · rw [h4]
      cases hs : nativeTensorSupported t.name.1 (tensorType t.type) <;> simp [inspectInfo, hs]

end Readings

/-! ### The comparison -/

/-- Both readers stay in step with the file, and with each other. -/
structure InStep (g : File) : Prop where
  short : Short g
  alignment : NothingFollows g.entries g.tensors
  alignment_pos : alignmentOf g.entries ≠ 0
  context : lastNumber NamesContext g.entries = lastNumber (fun e => NamesContext e ∧ ¬ NamesEos e) g.entries

section Compare

variable {g : File} {grants : ℕ → Bool}

/-- What is read when both readers are in step with the file. -/
theorem readings (ha : Ample g.encode grants) (hshort : Short g)
    (hfollow : NothingFollows g.entries g.tensors) (hpos : alignmentOf g.entries ≠ 0) :
    ∃ r b m, inspect g.encode = some r ∧ loadGgufModel g.encode grants = .ok (b, m) ∧
      (SameReading r m ↔
        lastNumber NamesContext g.entries = lastNumber (fun e => NamesContext e ∧ ¬ NamesEos e) g.entries) := by
  obtain ⟨b, m, hload, hconfig, -, htensors⟩ := load_config ha hfollow hpos
  obtain ⟨h1, h2, h3, h4⟩ := inspect_tensors g.tensors (g.entries.foldl inspectOne {})
  refine ⟨_, b, m, inspect_encode hshort, hload, ?_⟩
  have hfield : ∀ fld ≠ .eosTokenId, getField m.config fld =
      finalRaw g.entries (shownTensors g) fld (declared g.entries fld) := by
    intro fld hfld
    rw [hconfig, getField_final g.entries _ hfld]
  have hcontext : m.config.contextLength =
      lastNumber (fun e => NamesContext e ∧ ¬ NamesEos e) g.entries := by
    have hne : Field.contextLength ≠ .eosTokenId := by decide
    refine (encodeU32_inj ((hfield _ hne).trans ?_)).trans (load_context g.entries {})
    exact (getField_foldl hne g.entries {}).symm
  have hnone : (g.entries.foldl inspectOne {}).tensors = [] ∧
      (g.entries.foldl inspectOne {}).unsupportedNativeTensors = [] := inspect_rest g.entries {}
  rw [inspect_context] at h3
  constructor
  · intro h
    exact h3.symm.trans (h.contextLength.trans hcontext)
  · intro h
    refine ⟨?_, h3.trans (h.trans hcontext.symm), ?_, ?_⟩
    · rw [h2, inspect_architecture]
      exact (hfield .architecture (by decide)).symm
    · rw [h1, htensors, hnone.1, List.nil_append, List.map_map]
      rfl
    · rw [h4, hnone.2]
      have hpairs : (∃ t ∈ m.tensors, nativeTensorSupported t.name t.type = false) ↔
          ∃ p ∈ m.tensors.map (fun t => (t.name, t.type)), nativeTensorSupported p.1 p.2 = false := by
        simp
      rw [hpairs, htensors]
      simp

/-- **The two readers.** If both stay in step, they read the same; and if they read the same in a
moderate file without long strings, they were in step. -/
theorem readers_agree (g : File) (grants : ℕ → Bool) (ha : Ample g.encode grants) :
    (InStep g → ReadersAgree g grants) ∧
      (Short g → Moderate g → ReadersAgree g grants → InStep g) := by
  constructor
  · intro h
    obtain ⟨r, b, m, hinspect, hload, hsame⟩ := readings ha h.short h.alignment h.alignment_pos
    exact ⟨r, b, m, hinspect, hload, hsame.mpr h.context⟩
  · rintro hshort hg ⟨r, b, m, hinspect, hload, hsame⟩
    have hfollow : NothingFollows g.entries g.tensors := by
      by_contra hfollow
      obtain ⟨err, herr⟩ := load_followed g ha hg hfollow
      rw [hload] at herr
      exact absurd herr (by simp)
    have hpos : alignmentOf g.entries ≠ 0 := by
      intro hzero
      rw [load_zero_alignment ha hfollow hzero] at hload
      exact absurd hload (by simp)
    obtain ⟨r', b', m', hinspect', hload', hiff⟩ := readings ha hshort hfollow hpos
    rw [hinspect] at hinspect'
    rw [hload] at hload'
    have hr : r = r' := Option.some.inj hinspect'
    have hm : m = m' := (Prod.mk.inj (Except.ok.inj hload')).2
    rw [hr, hm] at hsame
    exact ⟨hshort, hfollow, hpos, hiff.mp hsame⟩

end Compare

theorem readers_agree_small : Ample smallFile.encode (fun _ => true) ∧
    ReadersAgree smallFile fun _ => true := by
  have ha : Ample smallFile.encode fun _ => true := fun _ _ => rfl
  have hvalues : ∀ e ∈ smallFile.entries, ShortValue e.value := by
    intro e he
    simp only [smallFile, List.mem_cons, List.not_mem_nil, or_false] at he
    rcases he with rfl | rfl
    · have hlen : (ascii "llama").length ≤ 4096 := by decide +kernel
      exact hlen
    · exact trivial
  refine ⟨ha, (readers_agree smallFile (fun _ => true) ha).1 ⟨⟨?_, hvalues, ?_⟩, ?_, ?_, ?_⟩⟩
  · decide +kernel
  · decide +kernel
  · exact nothingFollows_of_noAlignment (fun e he => (smallFile_not_special he).1) _
  · decide +kernel
  · decide +kernel

/-- A file with a chat template of 4097 bytes before its architecture. -/
def longTemplate : File where
  entries := [⟨⟨ascii "tokenizer.chat_template", by decide +kernel⟩, .STRING,
    .string ⟨List.replicate 4097 97, by rw [List.length_replicate]; decide⟩⟩, architectureEntry]
  tensors := []
  data := []
  keys := by decide +kernel
  names := no_names
  size := by decide +kernel

theorem readers_disagree_on_long_template : Ample longTemplate.encode (fun _ => true) ∧
    ¬ ReadersAgree longTemplate fun _ => true := by
  have ha : Ample longTemplate.encode fun _ => true := fun _ _ => rfl
  have hna : NoAlignment longTemplate.entries := by
    unfold NoAlignment
    decide +kernel
  have hinspect : (inspect longTemplate.encode).map Inspection.architecture = some [] := by decide +kernel
  have hdeclared : declared longTemplate.entries .architecture ≠ [] := by decide +kernel
  refine ⟨ha, ?_⟩
  rintro ⟨r, b, m, hr, hload, hsame⟩
  obtain ⟨b', m', hload', hconfig, -⟩ := load_config ha (nothingFollows_of_noAlignment hna _)
    (by rw [alignmentOf_eq_default hna]; decide)
  have hfield : getField m'.config .architecture = declared longTemplate.entries .architecture := by
    rw [hconfig, getField_final _ _ (by decide)]
    rfl
  rw [hload] at hload'
  rw [hr, Option.map_some, Option.some.injEq, hsame.architecture,
    (Prod.mk.inj (Except.ok.inj hload')).2] at hinspect
  exact hdeclared (hfield.symm.trans hinspect)

end DenseLite.Gguf.Readers
