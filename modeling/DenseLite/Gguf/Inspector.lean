import DenseLite.Lib.Seek
import DenseLite.Gguf.ParseEncode

/-! # `ModelInspector::inspect`

The second reader of the format goes through the file as a stream. Strings of more than 4096 bytes are
not read, and not skipped either. On a file without such a string it reads what is encoded
(`inspect_encode`). Modelled is what `inspect` reads; what it then decides from the numbers and the file
name is not. -/

namespace DenseLite.Gguf.Inspector

open DenseLite.Lib.ByteStream DenseLite.Lib.Cursor DenseLite.Lib.Seek DenseLite.Gguf.Config
open DenseLite.Gguf.Format DenseLite.Gguf.Loader DenseLite.Gguf.ParseEncode
open DenseLite.Infer.State (ascii occursIn nativeTensorSupported TensorType)

/-! ### Reading -/

/-- `tensor_type_name`. -/
def tensorTypeName : TensorType → Bytes
  | .FP32 => ascii "F32" | .FP16 => ascii "F16" | .Q4_0 => ascii "Q4_0" | .Q4_1 => ascii "Q4_1"
  | .Q5_0 => ascii "Q5_0" | .Q5_1 => ascii "Q5_1" | .Q8_0 => ascii "Q8_0" | .Q8_1 => ascii "Q8_1"
  | .Q2_K => ascii "Q2_K" | .Q3_K => ascii "Q3_K" | .Q4_K => ascii "Q4_K" | .Q5_K => ascii "Q5_K"
  | .Q6_K => ascii "Q6_K" | .Q8_K => ascii "Q8_K"
  | .unknown t => ascii "UNKNOWN_" ++ ascii (toString t.toInt32.toInt)

/-- `ModelInspectionResult`, as far as the file is read into it, with the tensor infos that were read. -/
structure Inspection where
  errorMessage : Bytes := []
  architecture : Bytes := []
  contextLength : UInt32 := 0
  paramCount : UInt64 := 0
  unsupportedNativeTensors : List Bytes := []
  tensors : List (Bytes × UInt32) := []
deriving DecidableEq, Repr

section Read

variable (f : Bytes)

/-- `read_str`. -/
def readStr : StreamReader Bytes := do
  let len ← readU64 f
  -- the stream stays before the bytes of a long string
  if 4096 < len then return []
  let got ← readBytes f len.toNat
  return got ++ List.replicate (len.toNat - got.length) 0

/-- `skip_val`, with the depth of arrays it may go down to; it tells the types apart as the loader
does. -/
def skipVal : (fuel : ℕ) → UInt32 → StreamReader Unit
  | fuel, type =>
    if type = 8 then discard (readStr f)
    else if type = 9 then
      match fuel with
      | 0 => fun _ => none
      | fuel + 1 => do
        let arrType ← readU32 f
        let arrLen ← readU64 f
        whileGood (fun _ => skipVal fuel arrType) arrLen.toNat ()
    else seek (skipWidth type)

theorem skipVal_string (fuel : ℕ) : skipVal f fuel 8 = discard (readStr f) := by
  cases fuel <;> rfl

theorem skipVal_array (fuel : ℕ) : skipVal f (fuel + 1) 9 = (do
    let arrType ← readU32 f
    let arrLen ← readU64 f
    whileGood (fun _ => skipVal f fuel arrType) arrLen.toNat ()) := rfl

theorem skipVal_other (fuel : ℕ) {type : UInt32} (h8 : type ≠ 8) (h9 : type ≠ 9) :
    skipVal f fuel type = seek (skipWidth type) := by
  cases fuel <;> rw [skipVal, if_neg h8, if_neg h9]

/-- One round of the metadata loop. -/
def inspectEntry (res : Inspection) : StreamReader Inspection := do
  let key ← readStr f
  let type ← readU32 f
  if key = ascii "general.architecture" ∧ type = 8 then
    let architecture ← readStr f
    return { res with architecture := architecture }
  else if occursIn (ascii ".context_length") key = true ∧ type = 4 then
    -- a short read leaves the high bytes as they were
    let got ← readBytes f 4
    return { res with contextLength := decodeU32 (got ++ (encodeU32 res.contextLength).drop got.length) }
  else
    skipVal f (depth f) type
    return res

/-- One dimension of a tensor, multiplied with those before. -/
def countDim (elements : UInt64) : StreamReader UInt64 := do
  let dim ← readU64 f
  return elements * dim

/-- One round of the tensor loop. -/
def inspectTensor (res : Inspection) : StreamReader Inspection := do
  let tensorName ← readStr f
  let nDims ← readU32 f
  let elements ← rounds (countDim f) nDims.toNat 1
  let tType ← readU32 f
  let _offset ← readU64 f
  return { res with
    paramCount := res.paramCount + elements
    tensors := res.tensors ++ [(tensorName, tType)]
    unsupportedNativeTensors := res.unsupportedNativeTensors ++
      if nativeTensorSupported tensorName (tensorType tType) then []
      else [tensorName ++ ascii ": " ++ tensorTypeName (tensorType tType)] }

/-- What `inspect` reads from the stream of a file. -/
def inspectStream : StreamReader Inspection := do
  let magic ← readU32 f
  if magic ≠ ggufMagic then
    return { errorMessage := ascii "Invalid format: File is not a valid GGUF model." }
  let _version ← readU32 f
  let tensorCount ← readU64 f
  let kvCount ← readU64 f
  let res ← whileGood (inspectEntry f) kvCount.toNat {}
  whileGood (inspectTensor f) tensorCount.toNat res

/-- What `inspect` reads from a file. -/
def inspect : Option Inspection := (inspectStream f ⟨0, true⟩).map Prod.fst

end Read

/-! ### Short strings -/

/-- No string of the value has more than 4096 bytes. -/
def ShortValue {t : ValueType} : Value t → Prop
  | .scalar _ _ _ _ => True
  | .string s => s.1.length ≤ 4096
  | .array _ _ vs => ∀ i, ShortValue (vs i)

/-- No string of the file has more than 4096 bytes. -/
structure Short (g : File) : Prop where
  keys : ∀ e ∈ g.entries, e.key.1.length ≤ 4096
  values : ∀ e ∈ g.entries, ShortValue e.value
  names : ∀ t ∈ g.tensors, t.name.1.length ≤ 4096

/-- What an entry does to the result. -/
def inspectOne (res : Inspection) (e : Entry) : Inspection :=
  if e.key.1 = ascii "general.architecture" ∧ e.type.code = 8 then { res with architecture := e.value.raw }
  else if occursIn (ascii ".context_length") e.key.1 = true ∧ e.type.code = 4 then
    { res with contextLength := decodeU32 e.value.raw }
  else res

/-- What a tensor info does to the result. -/
def inspectInfo (res : Inspection) (t : TensorInfo) : Inspection :=
  { res with
    paramCount := res.paramCount + t.dims.foldl (fun elements d => elements * d.toUInt64) 1
    tensors := res.tensors ++ [(t.name.1, t.type)]
    unsupportedNativeTensors := res.unsupportedNativeTensors ++
      if nativeTensorSupported t.name.1 (tensorType t.type) then []
      else [t.name.1 ++ ascii ": " ++ tensorTypeName (tensorType t.type)] }

section Has

variable {f : Bytes} {k : ℕ}

theorem readStr_has {s : Str} (hs : s.1.length ≤ 4096) (h : Has f k (encodeStr s)) :
    readStr f ⟨k, true⟩ = some (s.1, ⟨k + (encodeStr s).length, true⟩) := by
  obtain ⟨h1, h2⟩ := has_append.mp h
  rw [length_encodeU64] at h2
  have hlen := toNat_ofNat_length s
  have hshort : ¬ (4096 : UInt64) < UInt64.ofNat s.1.length := by
    rw [UInt64.lt_iff_toNat_lt, hlen]
    exact Nat.not_lt.mpr hs
  rw [readStr, bind_some (readU64_has h1), if_neg hshort, hlen, bind_some (readBytes_has h2),
    length_encodeStr, Nat.sub_self, List.replicate_zero, List.append_nil, Nat.add_assoc]
  rfl

/-- **Skipping a value** without long strings goes over its encoding. -/
theorem skipVal_has {t : ValueType} (v : Value t) : ShortValue v → ∀ (fuel k : ℕ),
    v.encode.length ≤ fuel → Has f k v.encode →
      skipVal f fuel t.code ⟨k, true⟩ = some ((), ⟨k + v.encode.length, true⟩) := by
  induction v with
  | scalar t ht bytes hb =>
    intro _ fuel k _ _
    obtain ⟨hwidth, h8, h9⟩ := skipWidth_code ht
    rw [skipVal_other f fuel h8 h9, seek, if_pos rfl, hwidth, Value.encode, hb]
  | string s =>
    intro hs fuel k _ h
    rw [code_eq_eight.mpr rfl, skipVal_string]
    exact map_some (readStr_has hs h) _
  | array t n vs ih =>
    intro hs fuel k hfuel h
    rw [Value.encode_array, has_append, has_append] at h
    obtain ⟨⟨h1, h2⟩, h3⟩ := h
    simp only [length_encodeU32, length_encodeU64, List.length_append] at h2 h3
    rw [length_encode_array] at hfuel ⊢
    obtain ⟨fuel, rfl⟩ := Nat.exists_eq_succ_of_ne_zero (show fuel ≠ 0 by omega)
    have hitem : ∀ v ∈ List.ofFn vs, ∀ (_ : Unit) (k : ℕ), Has f k v.encode →
        skipVal f fuel t.code ⟨k, true⟩ = some ((), ⟨k + v.encode.length, true⟩) := by
      intro v hv _ k' hk'
      have hle : v.encode.length ≤ ((List.ofFn vs).flatMap Value.encode).length :=
        length_le_of_mem_flatMap hv
      obtain ⟨i, rfl⟩ := List.mem_ofFn.mp hv
      exact ih i (hs i) fuel k' (by omega) hk'
    have hloop := whileGood_list Value.encode (fun _ _ => ()) (List.ofFn vs) (k + 12) () hitem h3
    rw [List.length_ofFn] at hloop
    rw [code_eq_nine.mpr rfl, skipVal_array, bind_some (readU32_has h1), bind_some (readU64_has h2), hloop,
      Nat.add_assoc]

/-- **Inspecting an entry** without long strings consumes it. -/
theorem inspectEntry_has {e : Entry} (hkey : e.key.1.length ≤ 4096) (hvalue : ShortValue e.value)
    (h : Has f k e.encode) (res : Inspection) :
    inspectEntry f res ⟨k, true⟩ = some (inspectOne res e, ⟨k + e.encode.length, true⟩) := by
  have hdepth := h.length_le e.encode_ne_nil
  rw [Entry.encode, has_append, has_append] at h
  obtain ⟨⟨h1, h2⟩, h3⟩ := h
  rw [List.length_append, length_encodeU32] at h3
  have hlen : e.encode.length = (encodeStr e.key).length + 4 + e.value.encode.length := by
    simp only [Entry.encode, List.length_append, length_encodeU32]
  rw [inspectEntry, bind_some (readStr_has hkey h1), bind_some (readU32_has h2), inspectOne, hlen,
    ← Nat.add_assoc, ← Nat.add_assoc]
  rw [← Nat.add_assoc] at h3
  obtain ⟨key, type, v⟩ := e
  dsimp only at h3 hvalue ⊢
  split_ifs with harch hcontext
  · obtain rfl := code_eq_eight.mp harch.2
    obtain ⟨s, rfl⟩ := exists_string v
    rw [bind_some (readStr_has hvalue h3)]
    rfl
  · have hwidth := width_of_code (Or.inl hcontext.2)
    obtain ⟨hraw, hrawlen⟩ := length_raw (by simp [ValueType.isScalar, hwidth]) v
    rw [hraw] at h3 ⊢
    have hread := readBytes_has h3
    have hdrop : (encodeU32 res.contextLength).drop v.raw.length = [] := by
      rw [List.drop_of_length_le]
      rw [hrawlen, hwidth, length_encodeU32]
    rw [hrawlen, hwidth] at hread
    rw [bind_some hread, hdrop, List.append_nil, hrawlen, hwidth]
    rfl
  · rw [bind_some (skipVal_has v hvalue (depth f) _ (by rw [depth]; simp at hlen; omega) h3)]
    rfl

/-- **Inspecting a tensor info** with a short name consumes it. -/
theorem inspectTensor_has {t : TensorInfo} (hname : t.name.1.length ≤ 4096) (h : Has f k t.encode)
    (res : Inspection) :
    inspectTensor f res ⟨k, true⟩ = some (inspectInfo res t, ⟨k + t.encode.length, true⟩) := by
  simp only [TensorInfo.encode, has_append, List.length_append, length_encodeU32, ← Nat.add_assoc] at h
  obtain ⟨⟨⟨⟨h1, h2⟩, h3⟩, h4⟩, h5⟩ := h
  have hdim : ∀ d ∈ t.dims, ∀ elements k, Has f k (encodeDim d) →
      countDim f elements ⟨k, true⟩ = some (elements * d.toUInt64, ⟨k + (encodeDim d).length, true⟩) := by
    intro d _ elements k hk
    rw [countDim, bind_some (readU64_has hk), encodeDim, length_encodeU64]
    rfl
  have hdims := rounds_list encodeDim (fun elements d => elements * d.toUInt64) t.dims _ 1 hdim h3
  rw [inspectTensor, bind_some (readStr_has hname h1), bind_some (readU32_has h2), toNat_ofNat_dims,
    bind_some hdims, bind_some (readU32_has h4), bind_some (readU64_has h5)]
  simp only [TensorInfo.encode, List.length_append, length_encodeU32, length_encodeU64, ← Nat.add_assoc]
  rfl

end Has

/-- **The inspector on a file** without long strings. -/
theorem inspect_encode {g : File} (hg : Short g) :
    inspect g.encode = some (g.tensors.foldl inspectInfo (g.entries.foldl inspectOne {})) := by
  have hl := layout g
  have hentries := whileGood_list Entry.encode inspectOne g.entries 24 {}
    (fun e he res k hk => inspectEntry_has (hg.keys e he) (hg.values e he) hk res) hl.entries
  have htensors := whileGood_list TensorInfo.encode inspectInfo g.tensors _ (g.entries.foldl inspectOne {})
    (fun t ht res k hk => inspectTensor_has (hg.names t ht) hk res) hl.tensors
  rw [inspect, inspectStream, bind_some (readU32_has hl.magic), if_neg (not_not.mpr rfl),
    bind_some (readU32_has hl.version), bind_some (readU64_has hl.tensorCount),
    bind_some (readU64_has hl.kvCount), UInt64.toNat_ofNat', UInt64.toNat_ofNat',
    Nat.mod_eq_of_lt (lengths_lt g).1, Nat.mod_eq_of_lt (lengths_lt g).2, bind_some hentries, htensors]
  rfl

end DenseLite.Gguf.Inspector
