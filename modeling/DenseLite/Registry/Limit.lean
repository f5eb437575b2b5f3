import Mathlib.Algebra.BigOperators.Group.List.Basic
import DenseLite.Registry.Inspection

/-! # The limit of parameters

`inspect` multiplies the dimensions of a tensor and adds up the tensors in 64 bits. What it accepts is
a matter of the total modulo `2 ^ 64` (`accepted_iff`), and so of the total itself only while that fits
(`limit_exact_iff`). The dimensions here are any 64-bit numbers. -/

namespace DenseLite.Registry.Limit

open DenseLite.Lib.ByteStream DenseLite.Lib.Cursor DenseLite.Lib.Seek DenseLite.Gguf.Format
open DenseLite.Gguf.Loader DenseLite.Registry.Inspection
open DenseLite.Gguf.Inspector hiding inspect
open DenseLite.Infer.State (ascii nativeTensorSupported)

/-! ### Tables -/

/-- A tensor info with any dimensions, and a name that `read_str` reads. -/
structure WideInfo where
  name : Bytes
  name_le : name.length ≤ 4096
  dims : List UInt64
  dims_lt : dims.length < 2 ^ 32
  type : UInt32
  offset : UInt64

def WideInfo.encode (t : WideInfo) : Bytes :=
  encodeU64 (UInt64.ofNat t.name.length) ++ t.name ++ encodeU32 (UInt32.ofNat t.dims.length) ++
    t.dims.flatMap encodeU64 ++ encodeU32 t.type ++ encodeU64 t.offset

/-- The parameters of a tensor, without bound. -/
def WideInfo.elements (t : WideInfo) : ℕ := (t.dims.map UInt64.toNat).prod

/-- The parameters of a table, without bound. -/
def paramTotal (ts : List WideInfo) : ℕ := (ts.map WideInfo.elements).sum

/-- `inspect` begins to read the table `ts` at position `k` of the file `f`, with `res` from the metadata. -/
structure TableAt (f : Bytes) (version : UInt32) (kvCount : UInt64) (res : Inspection) (k : ℕ)
    (ts : List WideInfo) : Prop where
  count : ts.length < 2 ^ 64
  header : Has f 0 (encodeU32 ggufMagic ++ encodeU32 version ++ encodeU64 (UInt64.ofNat ts.length) ++
    encodeU64 kvCount)
  metadata : whileGood (inspectEntry f) kvCount.toNat {} ⟨24, true⟩ = some (res, ⟨k, true⟩)
  table : Has f k (ts.flatMap WideInfo.encode)

/-- The result accepts the size of the model. -/
def accepted (r : ModelInspectionResult) : Bool := r.isValid && r.isSupportedEdgeSize

/-- The limit that the architecture of the metadata, or the one guessed from the file name, has. -/
def limit (path : Bytes) (res : Inspection) : ℕ :=
  (maxAllowedParams (guessedArchitecture res.architecture path)).toNat

/-! ### Reading a table -/

/-- What a tensor info does to the result. -/
def inspectWide (res : Inspection) (t : WideInfo) : Inspection :=
  { res with
    paramCount := res.paramCount + t.dims.foldl (fun elements d => elements * d) 1
    tensors := res.tensors ++ [(t.name, t.type)]
    unsupportedNativeTensors := res.unsupportedNativeTensors ++
      if nativeTensorSupported t.name (tensorType t.type) then []
      else [t.name ++ ascii ": " ++ tensorTypeName (tensorType t.type)] }

section Reads

variable {f : Bytes} {k : ℕ}

/-- **Inspecting a tensor info** consumes it. -/
theorem inspectTensor_wide {t : WideInfo} (h : Has f k t.encode) (res : Inspection) :
    inspectTensor f res ⟨k, true⟩ = some (inspectWide res t, ⟨k + t.encode.length, true⟩) := by
  have hname := t.name_le
  have hndims : (UInt32.ofNat t.dims.length).toNat = t.dims.length := by
    rw [UInt32.toNat_ofNat', Nat.mod_eq_of_lt t.dims_lt]
  simp only [WideInfo.encode, has_append, List.length_append, length_encodeU32, length_encodeU64,
    ← Nat.add_assoc] at h
  obtain ⟨⟨⟨⟨⟨h0, h1⟩, h2⟩, h3⟩, h4⟩, h5⟩ := h
  have hstr := readStr_has (s := ⟨t.name, by omega⟩) hname (has_append.mpr ⟨h0, by
    rw [length_encodeU64]
    exact h1⟩)
  rw [length_encodeStr, ← Nat.add_assoc] at hstr
  have hdim : ∀ d ∈ t.dims, ∀ elements k, Has f k (encodeU64 d) →
      countDim f elements ⟨k, true⟩ = some (elements * d, ⟨k + (encodeU64 d).length, true⟩) := by
    intro d _ elements k hk
    rw [countDim, bind_some (readU64_has hk), length_encodeU64]
    rfl
  have hdims := rounds_list encodeU64 (fun elements d => elements * d) t.dims _ 1 hdim h3
  rw [inspectTensor, bind_some hstr, bind_some (readU32_has h2), hndims, bind_some hdims,
    bind_some (readU32_has h4), bind_some (readU64_has h5)]
  simp only [WideInfo.encode, List.length_append, length_encodeU32, length_encodeU64, ← Nat.add_assoc]
  rfl

/-- The products wrap. -/
theorem foldl_mul (a : ℕ) (ds : List UInt64) : ds.foldl (fun elements d => elements * d) (UInt64.ofNat a) =
    UInt64.ofNat (a * (ds.map UInt64.toNat).prod) := by
  induction ds generalizing a with
  | nil => simp
  | cons d ds ih =>
    have hstep : UInt64.ofNat a * d = UInt64.ofNat (a * d.toNat) := by
      rw [UInt64.ofNat_mul, UInt64.ofNat_toNat]
    rw [List.foldl_cons, hstep, ih, List.map_cons, List.prod_cons, Nat.mul_assoc]

/-- **The sum wraps**, and with it the number of parameters. -/
theorem foldl_inspectWide (ts : List WideInfo) (res : Inspection) :
    (ts.foldl inspectWide res).paramCount = res.paramCount + UInt64.ofNat (paramTotal ts) ∧
      (ts.foldl inspectWide res).errorMessage = res.errorMessage ∧
      (ts.foldl inspectWide res).architecture = res.architecture := by
  induction ts generalizing res with
  | nil => simp [paramTotal]
  | cons t ts ih =>
    obtain ⟨hcount, herror, harch⟩ := ih (inspectWide res t)
    have hone : (inspectWide res t).paramCount = res.paramCount + UInt64.ofNat t.elements := by
      have hmul := foldl_mul 1 t.dims
      rw [Nat.one_mul] at hmul
      exact congrArg (res.paramCount + ·) hmul
    refine ⟨?_, herror, harch⟩
    rw [List.foldl_cons, hcount, hone, paramTotal, paramTotal, List.map_cons, List.sum_cons,
      UInt64.ofNat_add, UInt64.add_assoc]

/-- The metadata says nothing of parameters or errors. -/
theorem inspectEntry_keeps {res : Inspection} {s : FileStream} {r : Inspection × FileStream}
    (h : inspectEntry f res s = some r) :
    r.1.paramCount = res.paramCount ∧ r.1.errorMessage = res.errorMessage := by
  obtain ⟨key, s1, -, h⟩ := bind_eq_some.mp h
  obtain ⟨type, s2, -, h⟩ := bind_eq_some.mp h
  split_ifs at h
  all_goals
    obtain ⟨x, s3, -, h⟩ := bind_eq_some.mp h
    cases h
    exact ⟨rfl, rfl⟩

end Reads

/-- The file of some metadata and a table. -/
def wideFile (entries : List Entry) (ts : List WideInfo) (data : Bytes) : Bytes :=
  encodeU32 ggufMagic ++ encodeU32 3 ++ encodeU64 (UInt64.ofNat ts.length) ++
    encodeU64 (UInt64.ofNat entries.length) ++ entries.flatMap Entry.encode ++
    ts.flatMap WideInfo.encode ++ data

/-- Behind metadata without long strings, `inspect` begins to read the table where it begins. -/
theorem wideFile_tableAt {entries : List Entry} {ts : List WideInfo} {data : Bytes}
    (hentries : entries.length < 2 ^ 64) (hts : ts.length < 2 ^ 64)
    (hshort : ∀ e ∈ entries, e.key.1.length ≤ 4096 ∧ ShortValue e.value) :
    TableAt (wideFile entries ts data) 3 (UInt64.ofNat entries.length) (entries.foldl inspectOne {})
      (24 + (entries.flatMap Entry.encode).length) ts := by
  have h : Has (wideFile entries ts data) 0 (wideFile entries ts data) := List.prefix_rfl
  nth_rewrite 2 [wideFile] at h
  rw [has_append, has_append, has_append] at h
  obtain ⟨⟨⟨hheader, hmeta⟩, htable⟩, -⟩ := h
  simp only [List.length_append, length_encodeU32, length_encodeU64, Nat.zero_add] at hmeta htable
  have hcount : (UInt64.ofNat entries.length).toNat = entries.length := by
    rw [UInt64.toNat_ofNat', Nat.mod_eq_of_lt hentries]
  refine ⟨hts, hheader, ?_, htable⟩
  rw [hcount]
  exact whileGood_list Entry.encode inspectOne entries 24 {}
    (fun e he res k hk => inspectEntry_has (hshort e he).1 (hshort e he).2 hk res) hmeta

/-! ### What is accepted -/

section Accepted

variable (format : UInt64 → Bytes) {path f : Bytes} {version : UInt32} {kvCount : UInt64}
  {res : Inspection} {k : ℕ} {ts : List WideInfo}

theorem TableAt.stream (h : TableAt f version kvCount res k ts) : inspectStream f ⟨0, true⟩ =
    some (ts.foldl inspectWide res, ⟨k + (ts.flatMap WideInfo.encode).length, true⟩) := by
  obtain ⟨⟨⟨h1, h2⟩, h3⟩, h4⟩ : ((_ ∧ _) ∧ _) ∧ _ := by
    simpa only [has_append, List.length_append, length_encodeU32, length_encodeU64] using h.header
  have hcount : (UInt64.ofNat ts.length).toNat = ts.length := by
    rw [UInt64.toNat_ofNat', Nat.mod_eq_of_lt h.count]
  have htable := whileGood_list WideInfo.encode inspectWide ts k res
    (fun t _ a k hk => inspectTensor_wide hk a) h.table
  rw [inspectStream, bind_some (readU32_has h1), if_neg (not_not.mpr rfl), bind_some (readU32_has h2),
    bind_some (readU64_has h3), bind_some (readU64_has h4), hcount, bind_some h.metadata, htable]

/-- **What is accepted**: a total that is within the limit modulo `2 ^ 64`. -/
theorem accepted_iff (h : TableAt f version kvCount res k ts) :
    accepted (inspect format path (some (some f))) = true ↔
      paramTotal ts % 2 ^ 64 ≤ limit path res := by
  obtain ⟨hzero, hnone⟩ : res.paramCount = 0 ∧ res.errorMessage = [] :=
    whileGood_keeps (P := fun r => r.paramCount = 0 ∧ r.errorMessage = [])
      (fun a s r ha hr => by
        obtain ⟨h1, h2⟩ := inspectEntry_keeps hr
        exact ⟨h1.trans ha.1, h2.trans ha.2⟩) _ _ _ _ ⟨rfl, rfl⟩ h.metadata
  obtain ⟨hcount, herror, harch⟩ := foldl_inspectWide ts res
  rw [hzero, UInt64.zero_add] at hcount
  have hread : inspect format path (some (some f)) = judge format path (ts.foldl inspectWide res) true := by
    simp only [inspect, h.stream, herror, hnone, if_true]
  have hnat : (UInt64.ofNat (paramTotal ts)).toNat = paramTotal ts % 2 ^ 64 := UInt64.toNat_ofNat'
  rw [hread, limit, ← hnat, ← UInt64.le_iff_toNat_le, ← hcount, ← harch]
  unfold judge accepted ModelInspectionResult.isSupportedEdgeSize
  dsimp only
  split_ifs with hover
  · exact iff_of_false (by simp) (UInt64.not_le.mpr hover)
  · simp

end Accepted

/-- **The limit**: an accepted model is within it exactly when the total fits 64 bits, or is above the
limit also when it has wrapped. -/
theorem limit_exact_iff (format : UInt64 → Bytes) (path f : Bytes) (version : UInt32) (kvCount : UInt64)
    (res : Inspection) (k : ℕ) (ts : List WideInfo) (h : TableAt f version kvCount res k ts) :
    (accepted (inspect format path (some (some f))) = true → paramTotal ts ≤ limit path res) ↔
      paramTotal ts < 2 ^ 64 ∨ limit path res < paramTotal ts % 2 ^ 64 := by
  have hlimit : limit path res < 2 ^ 64 := UInt64.toNat_lt _
  rw [accepted_iff format h]
  omega

/-- One tensor of 2 by 3 parameters. -/
def sixParameters : WideInfo := ⟨ascii "output_norm.weight", by decide, [2, 3], by decide, 0, 0⟩

theorem limit_exact_iff_six :
    (accepted (inspect (fun _ => []) (ascii "a.gguf") (some (some (wideFile [] [sixParameters] [])))) = true →
        paramTotal [sixParameters] ≤ limit (ascii "a.gguf") {}) ↔
      paramTotal [sixParameters] < 2 ^ 64 ∨
        limit (ascii "a.gguf") {} < paramTotal [sixParameters] % 2 ^ 64 :=
  limit_exact_iff (fun _ => []) (ascii "a.gguf") (wideFile [] [sixParameters] []) 3 0 {} 24
    [sixParameters] (wideFile_tableAt (by decide) (by decide) (by simp))

/-- A tensor of `2 ^ 32` by `2 ^ 32` parameters is counted as having none. -/
def wrappingTensor : WideInfo :=
  ⟨ascii "output_norm.weight", by decide, [4294967296, 4294967296], by decide, 0, 0⟩

theorem wrapping_accepted :
    accepted (inspect (fun _ => []) (ascii "a.gguf") (some (some (wideFile [] [wrappingTensor] [])))) = true ∧
      limit (ascii "a.gguf") {} = 1850000000 ∧ paramTotal [wrappingTensor] = 2 ^ 64 := by
  have htotal : paramTotal [wrappingTensor] = 2 ^ 64 := by decide
  have htable : TableAt (wideFile [] [wrappingTensor] []) 3 0 {} 24 [wrappingTensor] :=
    wideFile_tableAt (by decide) (by decide) (by simp)
  refine ⟨?_, by decide +kernel, htotal⟩
  rw [accepted_iff (fun _ => []) htable, htotal]
  exact Nat.zero_le _

end DenseLite.Registry.Limit
