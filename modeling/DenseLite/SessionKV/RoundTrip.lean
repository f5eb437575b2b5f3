import DenseLite.SessionKV.Dlkv

/-! # A session written and read back

What the reader of `get_or_create` makes of a file that `save_to_disk_internal` wrote, under the same
configuration: `restore_save` for a session that the format can carry, and `round_trip_iff` for which
sessions these are. The writer puts a default in place of a dimension that is not positive, the reader
skips an identity of 4096 bytes or more without skipping its bytes, and it never stores the identity of
the tokenizer. -/

namespace DenseLite.SessionKV.RoundTrip

open DenseLite.Lib.ByteStream DenseLite.Lib.FlatRows DenseLite.Infer.State DenseLite.Infer.Generate
open DenseLite.SessionKV.Dlkv

/-- An initialised session of a model: its layers, dimensions, hash and identity are those of the
configuration, and the rows below `current_pos` lie inside its vectors. -/
structure SessionOf (c : ModelConfig) (s : SessionKVState) : Prop where
  initialized : s.isInitialized = true
  layers : s.state.cache.length = c.numLayers.toNat
  numKvHeads : s.numKvHeads = int32OfU32 c.numKvHeads
  headDim : s.headDim = int32OfU32 c.headDim
  modelHash : s.modelHash = computeModelHash c
  modelIdentity : s.modelIdentity = c.modelId
  pos : 0 ≤ s.state.currentPos ∧ s.state.currentPos ≤ s.maxContextAllocated
  allocated : IsInt32 s.maxContextAllocated
  rows : ∀ l ∈ s.state.cache, s.state.currentPos * s.numKvHeads * s.headDim ≤ l.k.length ∧
    s.state.currentPos * s.numKvHeads * s.headDim ≤ l.v.length
  vectors : ∀ l ∈ s.state.cache, l.k.length < 2 ^ 61

/-- The floats of the rows below `current_pos`. -/
def activeFloats (s : SessionKVState) : ℕ := (s.state.currentPos * s.numKvHeads * s.headDim).toNat

/-- The identities and dimensions that the format carries. -/
structure Carried (s : SessionKVState) : Prop where
  modelIdentity : s.modelIdentity.length < 4096
  tokenizerIdentity : s.tokenizerIdentity = []
  numKvHeads : 0 < s.numKvHeads
  headDim : 0 < s.headDim

section Save

variable {c : ModelConfig} {s : SessionKVState} {now : ℤ} {f : Bytes}

/-- The header `save_to_disk_internal` writes. -/
def savedHeader (s : SessionKVState) : Header where
  version := 3
  modelHash := s.modelHash
  modelId := s.modelIdentity
  tokId := s.tokenizerIdentity
  numLayers := layerCount s.state.cache.length
  numKvHeads := orDefault s.numKvHeads 2
  headDim := orDefault s.headDim 128
  maxCtx := s.maxContextAllocated
  curPos := s.state.currentPos

/-- The tokens and rows after the header. -/
def savedBody (s : SessionKVState) : Bytes :=
  let tokCount := UInt32.ofNat s.cachedTokens.length
  let bytes := rowBytes s.state.currentPos (orDefault s.numKvHeads 2) (orDefault s.headDim 128)
  encodeU32 tokCount ++ (encodeWords ((s.cachedTokens.take tokCount.toNat).map Int32.toUInt32) ++
    (s.state.cache.take (layerCount s.state.cache.length).toNat).flatMap fun c =>
      encodeRows bytes c.k ++ encodeRows bytes c.v)

theorem isInt32_orDefault {x d : ℤ} (hx : IsInt32 x) (hd : IsInt32 d) : IsInt32 (orDefault x d) := by
  unfold orDefault
  split_ifs
  · exact hx
  · exact hd

/-- The signed fields of the session are `int`s. -/
structure IntFields (s : SessionKVState) : Prop where
  numKvHeads : IsInt32 s.numKvHeads
  headDim : IsInt32 s.headDim
  maxContextAllocated : IsInt32 s.maxContextAllocated
  currentPos : IsInt32 s.state.currentPos

theorem SessionOf.intFields (h : SessionOf c s) : IntFields s where
  numKvHeads := by
    rw [h.numKvHeads]
    exact isInt32_int32OfU32 _
  headDim := by
    rw [h.headDim]
    exact isInt32_int32OfU32 _
  maxContextAllocated := h.allocated
  currentPos := by
    have := h.pos
    have := h.allocated
    unfold IsInt32 at *
    omega

/-- The header is read back when both identities are short, context and position as far as they are
`int`s. -/
theorem readHeader_wrapped (hk : IsInt32 s.numKvHeads) (hd : IsInt32 s.headDim)
    (hm : s.modelIdentity.length < 4096) (ht : s.tokenizerIdentity.length < 4096) (b : Bytes) :
    readHeader 3 ⟨encodeU32 s.modelHash ++ (encodeIdentity s.modelIdentity ++
      (encodeIdentity s.tokenizerIdentity ++ (encodeInt (layerCount s.state.cache.length) ++
      (encodeInt (orDefault s.numKvHeads 2) ++ (encodeInt (orDefault s.headDim 128) ++
      (encodeInt s.maxContextAllocated ++ (encodeInt s.state.currentPos ++ b))))))), true⟩ =
      ({ savedHeader s with
        maxCtx := int32OfU32 (u32OfInt s.maxContextAllocated)
        curPos := int32OfU32 (u32OfInt s.state.currentPos) }, ⟨b, true⟩) := by
  have hl : IsInt32 (layerCount s.state.cache.length) := isInt32_int32OfU32 _
  have hk' : IsInt32 (orDefault s.numKvHeads 2) := isInt32_orDefault hk (by decide)
  have hd' : IsInt32 (orDefault s.headDim 128) := isInt32_orDefault hd (by decide)
  obtain ⟨h2, h3⟩ := version_three
  unfold readHeader
  simp only [if_pos h2, if_pos h3, readU32_append, readIdentity_append hm, readIdentity_append ht,
    readInt_encodeInt, int32OfU32_u32OfInt hl, int32OfU32_u32OfInt hk', int32OfU32_u32OfInt hd']
  rfl

theorem readHeader_save (h : IntFields s) (hm : s.modelIdentity.length < 4096)
    (ht : s.tokenizerIdentity.length < 4096) (b : Bytes) :
    readHeader 3 ⟨encodeU32 s.modelHash ++ (encodeIdentity s.modelIdentity ++
      (encodeIdentity s.tokenizerIdentity ++ (encodeInt (layerCount s.state.cache.length) ++
      (encodeInt (orDefault s.numKvHeads 2) ++ (encodeInt (orDefault s.headDim 128) ++
      (encodeInt s.maxContextAllocated ++ (encodeInt s.state.currentPos ++ b))))))), true⟩ =
      (savedHeader s, ⟨b, true⟩) := by
  rw [readHeader_wrapped h.numKvHeads h.headDim hm ht, int32OfU32_u32OfInt h.maxContextAllocated,
    int32OfU32_u32OfInt h.currentPos]
  rfl

/-- The file starts with magic and version. -/
theorem save_eq (h : s.isInitialized = true) : saveToDiskInternal s = some (encodeU32 dlkvMagic ++
    (encodeU32 3 ++ (encodeU32 s.modelHash ++ (encodeIdentity s.modelIdentity ++
      (encodeIdentity s.tokenizerIdentity ++ (encodeInt (layerCount s.state.cache.length) ++
      (encodeInt (orDefault s.numKvHeads 2) ++ (encodeInt (orDefault s.headDim 128) ++
      (encodeInt s.maxContextAllocated ++ (encodeInt s.state.currentPos ++ savedBody s)))))))))) := by
  unfold saveToDiskInternal
  rw [if_pos h]
  rfl

/-- The file after magic and version. -/
theorem drop_save (hf : saveToDiskInternal s = some f) :
    f.drop 8 = encodeU32 s.modelHash ++ (encodeIdentity s.modelIdentity ++
      (encodeIdentity s.tokenizerIdentity ++ (encodeInt (layerCount s.state.cache.length) ++
      (encodeInt (orDefault s.numKvHeads 2) ++ (encodeInt (orDefault s.headDim 128) ++
      (encodeInt s.maxContextAllocated ++ (encodeInt s.state.currentPos ++ savedBody s))))))) := by
  rw [save_eq (initialized_of_save hf), Option.some.injEq] at hf
  have h8 : 8 = (encodeU32 dlkvMagic ++ encodeU32 3).length := by simp
  rw [← hf, ← List.append_assoc, h8, List.drop_left]

/-- Whether a file is accepted is decided by its header. -/
theorem restore_initialized_iff_header (hf : saveToDiskInternal s = some f) :
    (restore c f (newState c now)).session.isInitialized = true ↔
      headerMatches c (readHeader 3 ⟨f.drop 8, true⟩).1 = true := by
  rw [drop_save hf]
  rw [save_eq (initialized_of_save hf), Option.some.injEq] at hf
  rw [← hf]
  unfold restore
  simp only [readU32_append]
  generalize readHeader 3 _ = h
  cases headerMatches c h.1
  · exact iff_of_false (fun h0 => by cases h0) (fun h0 => by cases h0)
  · exact iff_of_true rfl rfl

/-- A file with short identities is accepted exactly when the header that was written passes the checks. -/
theorem restore_initialized_iff (hk : IsInt32 s.numKvHeads) (hd : IsInt32 s.headDim)
    (hm : s.modelIdentity.length < 4096) (ht : s.tokenizerIdentity.length < 4096)
    (hf : saveToDiskInternal s = some f) :
    (restore c f (newState c now)).session.isInitialized = true ↔
      headerMatches c (savedHeader s) = true := by
  rw [restore_initialized_iff_header hf, drop_save hf, readHeader_wrapped hk hd hm ht]
  rfl

/-- The tokens and rows are read back from the state the header leaves. -/
def restoredFrom (c : ModelConfig) (now : ℤ) (s : SessionKVState) (cache : List LayerCache) :
    SessionKVState :=
  { newState c now with
    state := ⟨cache, ropeTable c s.maxContextAllocated, s.state.currentPos⟩
    cachedTokens := s.cachedTokens.take (s.cachedTokens.length % 2 ^ 32)
    maxContextAllocated := s.maxContextAllocated
    isInitialized := true }

theorem layerCount_toNat (c : ModelConfig) : (layerCount c.numLayers.toNat).toNat =
    if c.numLayers.toNat < 2 ^ 31 then c.numLayers.toNat else 0 := by
  have hn : UInt32.ofNat c.numLayers.toNat = c.numLayers := UInt32.ofNat_toNat
  have hlt : c.numLayers.toNat < 2 ^ 32 := c.numLayers.toNat_lt
  rw [layerCount, hn]
  unfold int32OfU32
  split_ifs <;> omega

/-- The bytes of the rows are exact when the rows lie inside a vector. -/
theorem rowBytes_eq (h : SessionOf c s) (hc : Carried s) (hne : s.state.cache ≠ []) :
    rowBytes s.state.currentPos s.numKvHeads s.headDim = 4 * (activeFloats s : ℤ) := by
  obtain ⟨l, hl⟩ := List.exists_mem_of_ne_nil _ hne
  have h1 := (h.rows l hl).1
  have h2 := h.vectors l hl
  have h0 : 0 ≤ s.state.currentPos * s.numKvHeads * s.headDim :=
    Int.mul_nonneg (Int.mul_nonneg h.pos.1 (Int.le_of_lt hc.numKvHeads)) (Int.le_of_lt hc.headDim)
  have hact : (activeFloats s : ℤ) = s.state.currentPos * s.numKvHeads * s.headDim :=
    Int.toNat_of_nonneg h0
  unfold rowBytes
  rw [← hact] at h1 ⊢
  rw [Int.bmod_eq_of_le (by omega) (by omega)]
  omega

theorem map_toInt32_toUInt32 (ts : List Token) : (ts.map Int32.toUInt32).map UInt32.toInt32 = ts := by
  rw [List.map_map]
  exact List.map_id'' (fun t => by simp) ts

/-- The tokens are read back, up to `2 ^ 32` of them. -/
theorem readTokens_append (ts : List Token) (b : Bytes) :
    (IStream.mk (encodeWords ((ts.take (UInt32.ofNat ts.length).toNat).map Int32.toUInt32) ++ b) true).read
      (4 * (UInt32.ofNat ts.length).toNat) =
      (encodeWords ((ts.take (UInt32.ofNat ts.length).toNat).map Int32.toUInt32), ⟨b, true⟩) := by
  have hle : (UInt32.ofNat ts.length).toNat ≤ ts.length := by
    rw [UInt32.toNat_ofNat']
    exact Nat.mod_le _ _
  have hlen : 4 * (UInt32.ofNat ts.length).toNat =
      (encodeWords ((ts.take (UInt32.ofNat ts.length).toNat).map Int32.toUInt32)).length := by
    rw [length_encodeWords, List.length_map, List.length_take, Nat.min_eq_left hle]
  rw [hlen]
  exact read_append _ _

theorem decodeTokens (ts : List Token) :
    (decodeWords (UInt32.ofNat ts.length).toNat
      (encodeWords ((ts.take (UInt32.ofNat ts.length).toNat).map Int32.toUInt32))).map UInt32.toInt32 =
      ts.take (ts.length % 2 ^ 32) := by
  have hval : (UInt32.ofNat ts.length).toNat = ts.length % 2 ^ 32 := UInt32.toNat_ofNat'
  have hle : ts.length % 2 ^ 32 ≤ ts.length := Nat.mod_le _ _
  have hlen : (UInt32.ofNat ts.length).toNat =
      ((ts.take (UInt32.ofNat ts.length).toNat).map Int32.toUInt32).length + 0 := by
    rw [List.length_map, List.length_take, hval]
    omega
  nth_rewrite 1 [hlen]
  rw [decodeWords_encodeWords, List.replicate_zero, List.append_nil, map_toInt32_toUInt32, hval]

theorem headerMatches_save (h : SessionOf c s) (hc : Carried s) :
    headerMatches c (savedHeader s) = true := by
  have hl : layerCount s.state.cache.length = int32OfU32 c.numLayers := by
    rw [h.layers, layerCount, UInt32.ofNat_toNat]
  have hk : orDefault s.numKvHeads 2 = int32OfU32 c.numKvHeads := by
    rw [orDefault, if_pos hc.numKvHeads, h.numKvHeads]
  have hd : orDefault s.headDim 128 = int32OfU32 c.headDim := by
    rw [orDefault, if_pos hc.headDim, h.headDim]
  unfold headerMatches savedHeader
  simp only [hl, hk, hd, h.modelHash, h.modelIdentity, ne_eq, not_true_eq_false, and_false,
    not_false_eq_true, and_self, decide_true]

/-- The layers the reader leaves: the saved floats in vectors of the size of the context. From
`2 ^ 31` layers on the loop over the layers, an `int`, makes no step. -/
def restoredCache (c : ModelConfig) (s : SessionKVState) : List LayerCache :=
  if c.numLayers.toNat < 2 ^ 31 then
    s.state.cache.map (restoredLayer (layerFloats c s.maxContextAllocated) (activeFloats s))
  else List.replicate c.numLayers.toNat (zeroLayer (layerFloats c s.maxContextAllocated))

theorem readLayers_zero (bytes : ℤ) (cs : List LayerCache) (i : IStream) :
    readLayers bytes 0 cs i = (cs, true, i) := by
  cases cs <;> rfl

theorem readLayers_nil (bytes : ℤ) (n : ℕ) (i : IStream) : readLayers bytes n [] i = ([], true, i) := by
  cases n <;> rfl

/-- The layers are read back. -/
theorem readLayers_save (h : SessionOf c s) (hc : Carried s) :
    readLayers (rowBytes s.state.currentPos s.numKvHeads s.headDim)
      (layerCount s.state.cache.length).toNat
      (List.replicate c.numLayers.toNat (zeroLayer (layerFloats c s.maxContextAllocated)))
      ⟨(s.state.cache.take (layerCount s.state.cache.length).toNat).flatMap fun l =>
        encodeRows (rowBytes s.state.currentPos s.numKvHeads s.headDim) l.k ++
          encodeRows (rowBytes s.state.currentPos s.numKvHeads s.headDim) l.v, true⟩ =
      (restoredCache c s, decide (2 ^ 31 ≤ c.numLayers.toNat ∨ s.state.cache = [] ∨
        activeFloats s ≤ layerFloats c s.maxContextAllocated), ⟨[], true⟩) := by
  have hcount := layerCount_toNat c
  rw [← h.layers] at hcount
  unfold restoredCache
  by_cases hlt : c.numLayers.toNat < 2 ^ 31
  · rw [← h.layers] at hlt ⊢
    rw [hcount, if_pos hlt, if_pos hlt, List.take_length]
    by_cases hnil : s.state.cache = []
    · rw [hnil]
      simp [readLayers_nil]
    · have hrows : ∀ l ∈ s.state.cache,
          activeFloats s ≤ l.k.length ∧ activeFloats s ≤ l.v.length := by
        intro l hl
        have := h.rows l hl
        unfold activeFloats
        omega
      have hread := readLayers_append (layerFloats c s.maxContextAllocated) [] s.state.cache hrows
      rw [List.append_nil] at hread
      rw [rowBytes_eq h hc hnil, hread]
      have hnot : ¬ 2 ^ 31 ≤ s.state.cache.length := by omega
      simp only [hnot, false_or]
  · rw [← h.layers] at hlt ⊢
    rw [hcount, if_neg hlt, if_neg hlt, readLayers_zero]
    have hge : 2 ^ 31 ≤ s.state.cache.length := by omega
    rw [List.take_zero, List.flatMap_nil, decide_eq_true (Or.inl hge)]

/-- **A session that the format carries is read back**, its rows cut or filled up to the size that
the context has under the configuration. -/
theorem restore_save (h : SessionOf c s) (hc : Carried s) (hf : saveToDiskInternal s = some f) :
    restore c f (newState c now) = ⟨restoredFrom c now s (restoredCache c s),
      decide (InvFreqInBounds c) && decide (2 ^ 31 ≤ c.numLayers.toNat ∨ s.state.cache = [] ∨
        activeFloats s ≤ layerFloats c s.maxContextAllocated), true⟩ := by
  rw [save_eq h.initialized, Option.some.injEq] at hf
  have ht : s.tokenizerIdentity.length < 4096 := by
    rw [hc.tokenizerIdentity]
    decide
  have hk : orDefault s.numKvHeads 2 = s.numKvHeads := if_pos hc.numKvHeads
  have hd : orDefault s.headDim 128 = s.headDim := if_pos hc.headDim
  have hcache : (initInferenceState c s.maxContextAllocated (newState c now).state).cache =
      List.replicate c.numLayers.toNat (zeroLayer (layerFloats c s.maxContextAllocated)) := resize_nil _ _
  have hlayers := readLayers_save h hc
  have hbody : savedBody s = encodeU32 (UInt32.ofNat s.cachedTokens.length) ++
      (encodeWords ((s.cachedTokens.take (UInt32.ofNat s.cachedTokens.length).toNat).map
        Int32.toUInt32) ++
      (s.state.cache.take (layerCount s.state.cache.length).toNat).flatMap fun l =>
        encodeRows (rowBytes s.state.currentPos s.numKvHeads s.headDim) l.k ++
          encodeRows (rowBytes s.state.currentPos s.numKvHeads s.headDim) l.v) := by
    unfold savedBody
    rw [hk, hd]
  rw [← hf]
  unfold restore
  simp only [readU32_append, readHeader_save h.intFields hc.modelIdentity ht,
    headerMatches_save h hc, if_true]
  simp only [hbody, readU32_append, readTokens_append, decodeTokens, savedHeader, hk, hd, hcache,
    hlayers]
  rw [h.numKvHeads, h.headDim]
  rfl

end Save

/-! ### Which sessions are read back -/

/-- The floats of one row of a session. -/
def rowWidth (s : SessionKVState) : ℕ := (s.numKvHeads * s.headDim).toNat

/-- `r` is a session restored from `s`: initialised, with its tokens, its position, its context, its
identities, and its rows below the position. -/
structure Recovered (s r : SessionKVState) : Prop where
  initialized : r.isInitialized = true
  cachedTokens : r.cachedTokens = s.cachedTokens
  currentPos : r.state.currentPos = s.state.currentPos
  maxContextAllocated : r.maxContextAllocated = s.maxContextAllocated
  modelIdentity : r.modelIdentity = s.modelIdentity
  tokenizerIdentity : r.tokenizerIdentity = s.tokenizerIdentity
  rows : ∀ p : ℕ, (p : ℤ) < s.state.currentPos →
    kvRowAt (rowWidth s) p r.state.cache = kvRowAt (rowWidth s) p s.state.cache

/-- The session is saved, and the reader recovers it from the file, all its writes going inside. -/
def RoundTrips (c : ModelConfig) (now : ℤ) (s : SessionKVState) : Prop :=
  ∃ f, saveToDiskInternal s = some f ∧ (restore c f (newState c now)).inside = true ∧
    Recovered s (restore c f (newState c now)).session

/-- What the format preserves: an even head dimension, which lets the reader set up a state at all, short
identities of the model and none of the tokenizer, positive dimensions, fewer than `2 ^ 32` tokens, rows
that fit the vectors of the context, and fewer than `2 ^ 31` layers unless all rows are zero. -/
structure Preserved (c : ModelConfig) (s : SessionKVState) : Prop where
  evenHead : EvenHead c
  carried : Carried s
  tokens : s.cachedTokens.length < 2 ^ 32
  fits : c.numLayers = 0 ∨ activeFloats s ≤ layerFloats c s.maxContextAllocated
  loop : c.numLayers.toNat < 2 ^ 31 ∨ ∀ p : ℕ, (p : ℤ) < s.state.currentPos →
    kvRowAt (rowWidth s) p s.state.cache = zeroRow (rowWidth s) c.numLayers.toNat

section RoundTrip

variable {c : ModelConfig} {s : SessionKVState} {now : ℤ} {f : Bytes}

/-- The reader never stores the identity of the tokenizer. -/
theorem restore_tokenizerIdentity (c : ModelConfig) (f : Bytes) (s : SessionKVState) :
    (restore c f s).session.tokenizerIdentity = s.tokenizerIdentity := by
  unfold restore
  simp only
  split_ifs <;> rfl

/-- A model with a long identity is never recognised. -/
theorem restore_long_identity (h : SessionOf c s) (hlong : 4096 ≤ s.modelIdentity.length)
    (hf : saveToDiskInternal s = some f) :
    (restore c f (newState c now)).session.isInitialized = false := by
  have hmatch : ∀ i : IStream, headerMatches c (readHeader 3 i).1 = false := by
    intro i
    obtain ⟨h2, h3⟩ := version_three
    rw [h.modelIdentity] at hlong
    have hne : c.modelId ≠ [] := by
      intro h0
      rw [h0] at hlong
      simp at hlong
    have hid : (readHeader 3 i).1.modelId ≠ c.modelId := by
      intro heq
      have hlt : (readHeader 3 i).1.modelId.length < 4096 := by
        unfold readHeader
        simp only [if_pos h2, if_pos h3]
        exact length_readIdentity _
      rw [heq] at hlt
      omega
    have hv : (readHeader 3 i).1.version = 3 := rfl
    unfold headerMatches
    simp [hv, hne, hid]
  rw [← Bool.not_eq_true, restore_initialized_iff_header hf, hmatch]
  simp

/-- A header with a default in place of a dimension is not that of the model. -/
theorem carried_of_initialized (h : SessionOf c s) (hm : s.modelIdentity.length < 4096)
    (ht : s.tokenizerIdentity = []) (hf : saveToDiskInternal s = some f)
    (hi : (restore c f (newState c now)).session.isInitialized = true) : Carried s := by
  have ht' : s.tokenizerIdentity.length < 4096 := by
    rw [ht]
    decide
  have hmatch := (restore_initialized_iff h.intFields.numKvHeads h.intFields.headDim hm ht' hf).mp hi
  unfold headerMatches savedHeader at hmatch
  simp only [decide_eq_true_eq] at hmatch
  obtain ⟨-, hk, hd, -, -⟩ := hmatch
  rw [← h.numKvHeads] at hk
  rw [← h.headDim] at hd
  unfold orDefault at hk hd
  refine ⟨hm, ht, ?_, ?_⟩
  · split_ifs at hk <;> omega
  · split_ifs at hd <;> omega

theorem activeFloats_eq (h : SessionOf c s) (hc : Carried s) :
    activeFloats s = s.state.currentPos.toNat * rowWidth s := by
  obtain ⟨n, hn⟩ := Int.eq_ofNat_of_zero_le h.pos.1
  obtain ⟨w, hw⟩ := Int.eq_ofNat_of_zero_le
    (Int.mul_nonneg (Int.le_of_lt hc.numKvHeads) (Int.le_of_lt hc.headDim))
  unfold activeFloats rowWidth
  rw [Int.mul_assoc, hw, hn]
  exact_mod_cast rfl

/-- Rows below the position are among the saved floats. -/
theorem row_le_activeFloats (h : SessionOf c s) (hc : Carried s) {p : ℕ}
    (hp : (p : ℤ) < s.state.currentPos) : p * rowWidth s + rowWidth s ≤ activeFloats s := by
  rw [activeFloats_eq h hc, ← Nat.succ_mul]
  exact Nat.mul_le_mul_right _ (by omega)

theorem activeFloats_le (h : SessionOf c s) {l : LayerCache} (hl : l ∈ s.state.cache) :
    activeFloats s ≤ l.k.length ∧ activeFloats s ≤ l.v.length := by
  have := h.rows l hl
  unfold activeFloats
  omega

/-- The saved rows, read back into vectors they fit in. -/
theorem kvRowAt_restoredLayer (h : SessionOf c s) (hc : Carried s) {len p : ℕ}
    (hfit : activeFloats s ≤ len) (hp : (p : ℤ) < s.state.currentPos) :
    kvRowAt (rowWidth s) p (s.state.cache.map (restoredLayer len (activeFloats s))) =
      kvRowAt (rowWidth s) p s.state.cache := by
  have hrow := row_le_activeFloats h hc hp
  unfold kvRowAt
  rw [List.map_map]
  refine List.map_congr_left fun l hl => ?_
  obtain ⟨hk, hv⟩ := activeFloats_le h hl
  show (row _ p (resize len 0 (l.k.take _)), row _ p (resize len 0 (l.v.take _))) = _
  rw [row_resize (by omega) (by rw [List.length_take]; omega), row_take hrow,
    row_resize (by omega) (by rw [List.length_take]; omega), row_take hrow]

/-- A recovered row lies inside the vectors of the context. -/
theorem activeFloats_le_layerFloats (h : SessionOf c s) (hc : Carried s) (hl : c.numLayers ≠ 0)
    {cache : List LayerCache} {len : ℕ}
    (hlen : ∀ l ∈ cache, l.k.length = len)
    (hrows : ∀ p : ℕ, (p : ℤ) < s.state.currentPos →
      kvRowAt (rowWidth s) p cache = kvRowAt (rowWidth s) p s.state.cache) :
    activeFloats s ≤ len := by
  have hact := activeFloats_eq h hc
  rcases Nat.eq_zero_or_pos (rowWidth s) with hw | hw
  · rw [hact, hw]
    simp
  rcases Nat.eq_zero_or_pos s.state.currentPos.toNat with hcur | hcur
  · rw [hact, hcur]
    simp
  have hne : s.state.cache ≠ [] := by
    intro h0
    have := h.layers
    rw [h0, List.length_nil] at this
    exact hl (UInt32.toNat_inj.mp this.symm)
  have hrow := hrows (s.state.currentPos.toNat - 1) (by omega)
  have hcount := congrArg List.length hrow
  unfold kvRowAt at hcount hrow
  rw [List.length_map, List.length_map] at hcount
  obtain ⟨l, hmem⟩ := List.exists_mem_of_ne_nil _ hne
  have hin := List.mem_map_of_mem
    (f := fun l : LayerCache => (row (rowWidth s) (s.state.currentPos.toNat - 1) l.k,
      row (rowWidth s) (s.state.currentPos.toNat - 1) l.v)) hmem
  rw [← hrow] at hin
  obtain ⟨l', hmem', heq⟩ := List.mem_map.mp hin
  -- the row of `l` has full width, so the row of `l'` that equals it lies inside `l'`
  have hwidth : (row (rowWidth s) (s.state.currentPos.toNat - 1) l'.k).length = rowWidth s := by
    have hfst := congrArg Prod.fst heq
    simp only at hfst
    rw [hfst]
    have h1 := (activeFloats_le h hmem).1
    have h2 := row_le_activeFloats h hc (p := s.state.currentPos.toNat - 1) (by omega)
    exact length_row (by omega)
  have hfit := le_of_length_row hwidth hw
  rw [hlen l' hmem', ← Nat.succ_mul, show (s.state.currentPos.toNat - 1).succ =
    s.state.currentPos.toNat by omega] at hfit
  rw [hact]
  exact hfit

theorem kvRowAt_replicate_zeroLayer {w p len n : ℕ} (hfit : p * w + w ≤ len) :
    kvRowAt w p (List.replicate n (zeroLayer len)) = zeroRow w n := by
  unfold kvRowAt zeroRow zeroLayer
  rw [List.map_replicate]
  simp only [row_replicate (0 : F32) hfit]

/-- A file that restores the rows fits the vectors that are made for it. -/
theorem fits_of_rows (h : SessionOf c s) (hc : Carried s)
    (hrows : ∀ p : ℕ, (p : ℤ) < s.state.currentPos →
      kvRowAt (rowWidth s) p (restoredCache c s) = kvRowAt (rowWidth s) p s.state.cache) :
    c.numLayers = 0 ∨ activeFloats s ≤ layerFloats c s.maxContextAllocated := by
  refine or_iff_not_imp_left.mpr fun hl => activeFloats_le_layerFloats h hc hl (fun l hmem => ?_) hrows
  unfold restoredCache at hmem
  split_ifs at hmem
  · obtain ⟨l0, -, rfl⟩ := List.mem_map.mp hmem
    simp [restoredLayer]
  · rw [List.eq_of_mem_replicate hmem]
    simp [zeroLayer]

/-- From `2 ^ 31` layers on the loop over them makes no step, and the restored rows are zero. -/
theorem loop_of_rows (h : SessionOf c s) (hc : Carried s)
    (hrows : ∀ p : ℕ, (p : ℤ) < s.state.currentPos →
      kvRowAt (rowWidth s) p (restoredCache c s) = kvRowAt (rowWidth s) p s.state.cache) :
    c.numLayers.toNat < 2 ^ 31 ∨ ∀ p : ℕ, (p : ℤ) < s.state.currentPos →
      kvRowAt (rowWidth s) p s.state.cache = zeroRow (rowWidth s) c.numLayers.toNat := by
  refine or_iff_not_imp_left.mpr fun hlt p hp => ?_
  have hl : c.numLayers ≠ 0 := by
    rintro h0
    rw [h0] at hlt
    simp at hlt
  have hfit := (fits_of_rows h hc hrows).resolve_left hl
  have hrow := row_le_activeFloats h hc hp
  rw [← hrows p hp, restoredCache, if_neg hlt, kvRowAt_replicate_zeroLayer (by omega)]

theorem cache_nil_of_numLayers (h : SessionOf c s) (hl : c.numLayers = 0) : s.state.cache = [] := by
  have hlen := h.layers
  rw [hl] at hlen
  exact List.length_eq_zero_iff.mp hlen

/-- What is preserved comes back with all its rows. -/
theorem kvRowAt_restoredCache (h : SessionOf c s) (hpres : Preserved c s) {p : ℕ}
    (hp : (p : ℤ) < s.state.currentPos) :
    kvRowAt (rowWidth s) p (restoredCache c s) = kvRowAt (rowWidth s) p s.state.cache := by
  by_cases hl : c.numLayers = 0
  · unfold restoredCache
    rw [hl, cache_nil_of_numLayers h hl]
    rfl
  have hfit := hpres.fits.resolve_left hl
  have hrow := row_le_activeFloats h hpres.carried hp
  unfold restoredCache
  split_ifs with hlt
  · exact kvRowAt_restoredLayer h hpres.carried hfit hp
  · rw [kvRowAt_replicate_zeroLayer (by omega), hpres.loop.resolve_left hlt p hp]

/-- A session that comes back is one that the format preserves. -/
theorem preserved_of_roundTrips (h : SessionOf c s) (hround : RoundTrips c now s) : Preserved c s := by
  obtain ⟨f, hf, hin, hrec⟩ := hround
  have ht : s.tokenizerIdentity = [] := by
    rw [← hrec.tokenizerIdentity, restore_tokenizerIdentity]
    rfl
  have hm : s.modelIdentity.length < 4096 := by
    by_contra hlong
    have hi : (restore c f (newState c now)).session.isInitialized = false :=
      restore_long_identity h (by omega) hf
    simp [hrec.initialized] at hi
  have hc := carried_of_initialized h hm ht hf hrec.initialized
  rw [restore_save h hc hf] at hin hrec
  have heven : EvenHead c := by
    rw [Bool.and_eq_true, decide_eq_true_eq, invFreqInBounds_iff] at hin
    exact hin.1
  have htokens : s.cachedTokens.length < 2 ^ 32 := by
    have htok : s.cachedTokens.take (s.cachedTokens.length % 2 ^ 32) = s.cachedTokens := hrec.cachedTokens
    have hlen := congrArg List.length htok
    rw [List.length_take] at hlen
    omega
  exact ⟨heven, hc, htokens, fits_of_rows h hc hrec.rows, loop_of_rows h hc hrec.rows⟩

theorem roundTrips_of_preserved (h : SessionOf c s) (hpres : Preserved c s) : RoundTrips c now s := by
  have hc := hpres.carried
  refine ⟨_, save_eq h.initialized, ?_, ?_⟩
  · rw [restore_save h hc (save_eq h.initialized), Bool.and_eq_true, decide_eq_true_eq, decide_eq_true_eq,
      invFreqInBounds_iff]
    exact ⟨hpres.evenHead, Or.inr (hpres.fits.imp_left (cache_nil_of_numLayers h))⟩
  · rw [restore_save h hc (save_eq h.initialized)]
    refine ⟨rfl, ?_, rfl, rfl, h.modelIdentity.symm, hc.tokenizerIdentity.symm,
      fun p hp => kvRowAt_restoredCache h hpres hp⟩
    show s.cachedTokens.take (s.cachedTokens.length % 2 ^ 32) = s.cachedTokens
    rw [Nat.mod_eq_of_lt hpres.tokens, List.take_length]

end RoundTrip

/-- **The round trip of a session.** Saving and reading back under the same configuration recovers the
session exactly when the format preserves it. -/
theorem round_trip_iff (c : ModelConfig) (now : ℤ) (s : SessionKVState) (h : SessionOf c s) :
    RoundTrips c now s ↔ Preserved c s :=
  ⟨preserved_of_roundTrips h, roundTrips_of_preserved h⟩

/-! ### Concrete sessions -/

/-- One layer with rows of two floats. -/
def smallConfig : ModelConfig := { modelId := [109], numLayers := 1, numKvHeads := 1, headDim := 2 }

/-- A session with two rows, and the identity of a tokenizer. -/
def smallSession (tokenizerIdentity : Bytes) : SessionKVState where
  state := ⟨[⟨[7, 8, 9, 1, 0, 0, 0, 0], [5, 6, 3, 4, 0, 0, 0, 0]⟩], ropeTable smallConfig 4, 2⟩
  cachedTokens := [1, 2]
  maxContextAllocated := 4
  numKvHeads := 1
  headDim := 2
  modelHash := computeModelHash smallConfig
  modelIdentity := [109]
  tokenizerIdentity := tokenizerIdentity
  isInitialized := true

theorem smallSession_of (ti : Bytes) : SessionOf smallConfig (smallSession ti) := by
  refine ⟨rfl, rfl, rfl, rfl, rfl, rfl, (by decide : (0 : ℤ) ≤ 2 ∧ (2 : ℤ) ≤ 4),
    (by decide : IsInt32 4), ?_, ?_⟩
  · intro l hl
    rw [List.mem_singleton.mp hl]
    have hle : (2 * 1 * 2 : ℤ) ≤ ([7, 8, 9, 1, 0, 0, 0, 0] : List F32).length := by decide
    exact ⟨hle, hle⟩
  · intro l hl
    rw [List.mem_singleton.mp hl]
    decide

/-- Without the identity of a tokenizer it is recovered. -/
theorem round_trip_iff_small :
    RoundTrips smallConfig 0 (smallSession []) ↔ Preserved smallConfig (smallSession []) :=
  round_trip_iff smallConfig 0 (smallSession []) (smallSession_of [])

/-- With one, the reader drops it. -/
theorem round_trip_lost : SessionOf smallConfig (smallSession [116]) ∧
    ¬ RoundTrips smallConfig 0 (smallSession [116]) := by
  refine ⟨smallSession_of [116], ?_⟩
  rintro ⟨f, -, -, hrec⟩
  have hti := hrec.tokenizerIdentity
  rw [restore_tokenizerIdentity] at hti
  revert hti
  decide

end DenseLite.SessionKV.RoundTrip
