import DenseLite.Infer.Generate

/-! # The DLKV file of a session

`save_to_disk_internal` and the reader in `get_or_create` (`SessionKVCache.cpp`): the header with the
hash and the identities of the model, the cached tokens, and for every layer the K and V rows below
`current_pos`. The reader is written over an `IStream`, so a file that ends early is read as the code
reads it; `Restored` keeps beside the state whether every byte asked for was there, and whether every
write went inside its vector: those of `init_inference_state` to `inv_freq`, and those of the rows. -/

namespace DenseLite.SessionKV.Dlkv

open DenseLite.Lib.ByteStream DenseLite.Lib.FlatRows DenseLite.Infer.State DenseLite.Infer.Generate

/-! ### The hash of a model -/

/-- One byte of FNV-1a. -/
def fnvByte (hash : UInt32) (b : UInt8) : UInt32 := (hash ^^^ b.toUInt32) * 16777619

/-- `add_str` of `compute_model_hash`. -/
def addStr (s : Bytes) (hash : UInt32) : UInt32 := s.foldl fnvByte hash

/-- `add_u32` of `compute_model_hash`: the four bytes, the lowest first. -/
def addU32 (v : UInt32) (hash : UInt32) : UInt32 := (encodeU32 v).foldl fnvByte hash

/-- `compute_model_hash`. -/
def computeModelHash (c : ModelConfig) : UInt32 :=
  addU32 c.intermediateDim <| addU32 c.headDim <| addU32 c.numKvHeads <| addU32 c.numHeads <|
    addU32 c.numLayers <| addU32 c.vocabSize <| addStr c.architecture 2166136261

/-! ### Writing -/

/-- `DLKV_MAGIC`. -/
def dlkvMagic : UInt32 := 0x444C4B56

/-- A string with its length before it. -/
def encodeIdentity (s : Bytes) : Bytes :=
  let len := UInt32.ofNat s.length
  encodeU32 len ++ s.take len.toNat

/-- A signed 32-bit field. -/
def encodeInt (i : ℤ) : Bytes := encodeU32 (u32OfInt i)

/-- The bytes of `cur_pos` rows, a `size_t` product handed over as a signed `streamsize`. -/
def rowBytes (curPos numKvHeads headDim : ℤ) : ℤ := Int.bmod (curPos * numKvHeads * headDim * 4) (2 ^ 64)

/-- The rows of one side of a layer; a negative size writes nothing. What the code reads beyond the end of
a vector that is too short is left out. -/
def encodeRows (bytes : ℤ) (v : List F32) : Bytes := encodeWords (v.take (bytes.toNat / 4))

/-- `num_kv_heads` and `head_dim` as they are written, with a default in place of what is not positive. -/
def orDefault (x dflt : ℤ) : ℤ := if 0 < x then x else dflt

/-- The layers of the loop over `num_layers`, an `int`. -/
def layerCount (layers : ℕ) : ℤ := int32OfU32 (UInt32.ofNat layers)

/-- `save_to_disk_internal`: the bytes of the file, if the session is initialised. -/
def saveToDiskInternal (s : SessionKVState) : Option Bytes :=
  if s.isInitialized then
    let numLayers := layerCount s.state.cache.length
    let numKvHeads := orDefault s.numKvHeads 2
    let headDim := orDefault s.headDim 128
    let tokCount := UInt32.ofNat s.cachedTokens.length
    let bytes := rowBytes s.state.currentPos numKvHeads headDim
    some (encodeU32 dlkvMagic ++ (encodeU32 3 ++ (encodeU32 s.modelHash ++
      (encodeIdentity s.modelIdentity ++ (encodeIdentity s.tokenizerIdentity ++
      (encodeInt numLayers ++ (encodeInt numKvHeads ++ (encodeInt headDim ++
      (encodeInt s.maxContextAllocated ++ (encodeInt s.state.currentPos ++
      (encodeU32 tokCount ++ (encodeWords ((s.cachedTokens.take tokCount.toNat).map Int32.toUInt32) ++
      (s.state.cache.take numLayers.toNat).flatMap fun c =>
        encodeRows bytes c.k ++ encodeRows bytes c.v))))))))))))
  else none

/-! ### Reading -/

/-- What the reader has read when it makes its checks. -/
structure Header where
  version : UInt32
  modelHash : UInt32
  modelId : Bytes
  tokId : Bytes
  numLayers : ℤ
  numKvHeads : ℤ
  headDim : ℤ
  maxCtx : ℤ
  curPos : ℤ
deriving DecidableEq, Repr

/-- An identity: the string is read only if its length is positive and below 4096. -/
def readIdentity (i : IStream) : Bytes × IStream :=
  let (len, i) := i.readU32
  if 0 < len ∧ len < 4096 then i.readString len.toNat else ([], i)

/-- A signed 32-bit field. -/
def readInt (i : IStream) : ℤ × IStream :=
  let (u, i) := i.readU32
  (int32OfU32 u, i)

/-- The header after magic and version. -/
def readHeader (version : UInt32) (i : IStream) : Header × IStream :=
  let (modelHash, i) := if 2 ≤ version then i.readU32 else (0, i)
  let (modelId, i) := if 3 ≤ version then readIdentity i else ([], i)
  let (tokId, i) := if 3 ≤ version then readIdentity i else ([], i)
  let (numLayers, i) := readInt i
  let (numKvHeads, i) := readInt i
  let (headDim, i) := readInt i
  let (maxCtx, i) := readInt i
  let (curPos, i) := readInt i
  (⟨version, modelHash, modelId, tokId, numLayers, numKvHeads, headDim, maxCtx, curPos⟩, i)

/-- The checks of the reader: the shape, from version 2 on the hash, from version 3 on the identity
of a model that has one. -/
def headerMatches (c : ModelConfig) (h : Header) : Bool :=
  h.numLayers = int32OfU32 c.numLayers ∧ h.numKvHeads = int32OfU32 c.numKvHeads ∧
    h.headDim = int32OfU32 c.headDim ∧ ¬ (2 ≤ h.version ∧ h.modelHash ≠ computeModelHash c) ∧
    ¬ (3 ≤ h.version ∧ c.modelId ≠ [] ∧ h.modelId ≠ c.modelId)

/-- One read into a fresh vector of `len` floats: the vector, whether the bytes went inside it, and the
stream. -/
def readRows (bytes : ℤ) (len : ℕ) (i : IStream) : List F32 × Bool × IStream :=
  let (got, i) := i.readSigned bytes
  (decodeWords len got, decide (got.length ≤ 4 * len), i)

/-- The loop over the first `n` layers. -/
def readLayers (bytes : ℤ) : ℕ → List LayerCache → IStream → List LayerCache × Bool × IStream
  | n + 1, c :: cs, i =>
    let (k, kIn, i) := readRows bytes c.k.length i
    let (v, vIn, i) := readRows bytes c.v.length i
    let (cs, csIn, i) := readLayers bytes n cs i
    (⟨k, v⟩ :: cs, kIn && vIn && csIn, i)
  | _, cs, i => (cs, true, i)

/-- The state the reader leaves, whether all its writes went inside `inv_freq` and the layer vectors, and
whether no read came up short. -/
structure Restored where
  session : SessionKVState
  inside : Bool
  complete : Bool

/-- The reader of `get_or_create`, on the new state `s`. -/
def restore (c : ModelConfig) (f : Bytes) (s : SessionKVState) : Restored :=
  let (magic, i) := (IStream.mk f true).readU32
  let (version, i) := i.readU32
  if magic = dlkvMagic ∧ 1 ≤ version ∧ version ≤ 3 then
    let (h, i) := readHeader version i
    if headerMatches c h then
      let (tokCount, i) := i.readU32
      let (tokens, i) := i.read (4 * tokCount.toNat)
      let st := initInferenceState c h.maxCtx s.state
      let (cache, inside, i) :=
        readLayers (rowBytes h.curPos h.numKvHeads h.headDim) h.numLayers.toNat st.cache i
      { session := { s with
          state := { st with cache := cache, currentPos := h.curPos }
          cachedTokens := (decodeWords tokCount.toNat tokens).map UInt32.toInt32
          maxContextAllocated := h.maxCtx
          numKvHeads := h.numKvHeads
          headDim := h.headDim
          isInitialized := true }
        inside := decide (InvFreqInBounds c) && inside
        complete := i.good }
    else ⟨s, true, i.good⟩
  else ⟨s, true, i.good⟩

/-- The new state of `get_or_create` for a configuration. -/
def newState (c : ModelConfig) (now : ℤ) : SessionKVState where
  numKvHeads := int32OfU32 c.numKvHeads
  headDim := int32OfU32 c.headDim
  modelHash := computeModelHash c
  modelIdentity := c.modelId
  lastAccessedMs := now

/-- What `get_or_create` makes of a session that is not in memory: a new state, read from the session's
file if there is one. -/
def createState (c : ModelConfig) (now : ℤ) : Option Bytes → SessionKVState
  | some f => (restore c f (newState c now)).session
  | none => newState c now

/-! ### Reading back what was written -/

/-- Version 3 has a hash and an identity. -/
theorem version_three : (2 : UInt32) ≤ 3 ∧ (3 : UInt32) ≤ 3 := by decide

/-- Only a session that is not initialised is not saved. -/
theorem save_eq_none_iff {s : SessionKVState} : saveToDiskInternal s = none ↔ s.isInitialized = false := by
  unfold saveToDiskInternal
  split_ifs with h <;> simp [h]

theorem initialized_of_save {s : SessionKVState} {f : Bytes} (hf : saveToDiskInternal s = some f) :
    s.isInitialized = true := by
  by_contra hi
  rw [save_eq_none_iff.mpr (Bool.eq_false_iff.mpr hi)] at hf
  cases hf

theorem readInt_encodeInt (i : ℤ) (b : Bytes) :
    readInt ⟨encodeInt i ++ b, true⟩ = (int32OfU32 (u32OfInt i), ⟨b, true⟩) := by
  unfold readInt encodeInt
  simp only [readU32_append]

/-- An identity of less than 4096 bytes is read back. -/
theorem readIdentity_append {s : Bytes} (h : s.length < 4096) (b : Bytes) :
    readIdentity ⟨encodeIdentity s ++ b, true⟩ = (s, ⟨b, true⟩) := by
  have hlen : (UInt32.ofNat s.length).toNat = s.length := by
    rw [UInt32.toNat_ofNat', Nat.mod_eq_of_lt (by omega)]
  have henc : encodeIdentity s = encodeU32 (UInt32.ofNat s.length) ++ s := by
    unfold encodeIdentity
    simp only [hlen, List.take_length]
  rw [readIdentity, henc, List.append_assoc, readU32_append]
  simp only [UInt32.lt_iff_toNat_lt, hlen]
  by_cases h0 : s = []
  · rw [h0]
    rfl
  · have hpos : 0 < s.length := List.length_pos_iff.mpr h0
    rw [if_pos ⟨hpos, h⟩, readString_append]

/-- An identity that is read has less than 4096 bytes. -/
theorem length_readIdentity (i : IStream) : (readIdentity i).1.length < 4096 := by
  unfold readIdentity
  simp only
  split_ifs with h
  · rw [length_readString]
    exact UInt32.lt_iff_toNat_lt.mp h.2
  · simp

/-- Floats read back into a vector of `len` zeros. -/
theorem decodeWords_eq_resize : ∀ (len : ℕ) (xs : List F32),
    decodeWords len (encodeWords xs) = resize len 0 xs
  | 0, xs => by simp [decodeWords, resize]
  | len + 1, [] => by
    rw [resize_nil]
    exact decodeWords_nil _
  | len + 1, x :: xs => by
    have hcons : encodeWords (x :: xs) = encodeU32 x ++ encodeWords xs := List.flatMap_cons
    rw [decodeWords, hcons, List.take_left' (length_encodeU32 x), List.drop_left' (length_encodeU32 x),
      decodeU32_encodeU32, decodeWords_eq_resize len xs]
    simp [resize]

/-- A layer read back from its first `q` floats into vectors of `len` zeros. -/
def restoredLayer (len q : ℕ) (c : LayerCache) : LayerCache :=
  ⟨resize len 0 (c.k.take q), resize len 0 (c.v.take q)⟩

theorem readRows_append {q : ℕ} {v : List F32} (hq : q ≤ v.length) (len : ℕ) (b : Bytes) :
    readRows (4 * q) len ⟨encodeRows (4 * q) v ++ b, true⟩ =
      (resize len 0 (v.take q), decide (q ≤ len), ⟨b, true⟩) := by
  have hnat : ((4 * (q : ℤ)).toNat) / 4 = q := by omega
  have henc : encodeRows (4 * q) v = encodeWords (v.take q) := by rw [encodeRows, hnat]
  have hlen : (4 * (q : ℤ)).toNat = (encodeWords (v.take q)).length := by
    rw [length_encodeWords, List.length_take]
    omega
  unfold readRows IStream.readSigned
  rw [if_neg (by omega), henc, hlen, read_append]
  simp only [decodeWords_eq_resize, Prod.mk.injEq, true_and, and_true]
  rw [length_encodeWords, List.length_take, Nat.min_eq_left hq]
  simp

/-- **The layers read back.** -/
theorem readLayers_append {q : ℕ} (len : ℕ) (b : Bytes) : ∀ (src : List LayerCache),
    (∀ c ∈ src, q ≤ c.k.length ∧ q ≤ c.v.length) →
    readLayers (4 * q) src.length (List.replicate src.length (zeroLayer len))
      ⟨(src.flatMap fun c => encodeRows (4 * q) c.k ++ encodeRows (4 * q) c.v) ++ b, true⟩ =
      (src.map (restoredLayer len q), decide (src = [] ∨ q ≤ len), ⟨b, true⟩)
  | [], _ => by simp [readLayers]
  | c :: cs, h => by
    have hc := h c (by simp)
    have ih := readLayers_append len b cs fun d hd => h d (by simp [hd])
    have hk : (zeroLayer len).k.length = len := by simp [zeroLayer]
    have hv : (zeroLayer len).v.length = len := by simp [zeroLayer]
    rw [List.length_cons, List.replicate_succ, readLayers, List.flatMap_cons, List.append_assoc,
      List.append_assoc, hk, hv]
    simp only [readRows_append hc.1, readRows_append hc.2, ih, List.map_cons, restoredLayer,
      Prod.mk.injEq, true_and, and_true]
    by_cases hq : q ≤ len <;> simp [hq]

end DenseLite.SessionKV.Dlkv
