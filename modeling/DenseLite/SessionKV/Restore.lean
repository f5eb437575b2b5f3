import DenseLite.SessionKV.Dlkv

/-! # Restoring an arbitrary file

The reader of `get_or_create` on any bytes at all. `headerAt` gives the fields it reads by their
offsets in the file, missing bytes being zero; `restore_streamAt` says what the reader does in these
terms. No read is checked for a short count and no field against the size of the vectors, so the
reader is safe exactly on files that its checks reject, and, for an even head dimension, on those that
happen to be complete and to fit: `restore_safe_iff`. -/

namespace DenseLite.SessionKV.Restore

open DenseLite.Lib.ByteStream DenseLite.Lib.FlatRows DenseLite.Infer.State DenseLite.Infer.Generate
open DenseLite.SessionKV.Dlkv

/-! ### The fields of a file -/

/-- The identity at byte `k`, and the offset after it. -/
def identityAt (f : Bytes) (k : ℕ) : Bytes × ℕ :=
  if 0 < u32At f k ∧ u32At f k < 4096 then
    (stringAt f (k + 4) (u32At f k).toNat, k + 4 + (u32At f k).toNat)
  else ([], k + 4)

/-- The signed field at byte `k`. -/
def intAt (f : Bytes) (k : ℕ) : ℤ := int32OfU32 (u32At f k)

/-- The offset of the first identity. -/
def idsStart (f : Bytes) : ℕ := if 2 ≤ u32At f 4 then 12 else 8

/-- The two identities, and the offset after them. -/
def identitiesAt (f : Bytes) : Bytes × Bytes × ℕ :=
  if 3 ≤ u32At f 4 then
    let (modelId, k) := identityAt f (idsStart f)
    let (tokId, k) := identityAt f k
    (modelId, tokId, k)
  else ([], [], idsStart f)

/-- The header of the file, and the offset after it. -/
def headerAt (f : Bytes) : Header × ℕ :=
  let (modelId, tokId, k) := identitiesAt f
  (⟨u32At f 4, if 2 ≤ u32At f 4 then u32At f 8 else 0, modelId, tokId, intAt f k, intAt f (k + 4),
    intAt f (k + 8), intAt f (k + 12), intAt f (k + 16)⟩, k + 20)

/-- The number of tokens. -/
def tokCountAt (f : Bytes) : ℕ := (u32At f (headerAt f).2).toNat

/-- The offset of the rows. -/
def rowsStart (f : Bytes) : ℕ := (headerAt f).2 + 4 + 4 * tokCountAt f

/-- The floats of one side of a layer, as the header gives them. -/
def rowFloats (f : Bytes) : ℤ :=
  (headerAt f).1.curPos * (headerAt f).1.numKvHeads * (headerAt f).1.headDim

/-- The checks of the reader fail. -/
def Rejected (c : ModelConfig) (f : Bytes) : Prop :=
  ¬ (u32At f 0 = dlkvMagic ∧ 1 ≤ u32At f 4 ∧ u32At f 4 ≤ 3) ∨ headerMatches c (headerAt f).1 = false

/-- The file goes on to the end of its tokens, and of the rows of every layer. -/
def Complete (c : ModelConfig) (f : Bytes) : Prop :=
  rowsStart f ≤ f.length ∧ (c.numLayers = 0 ∨ rowFloats f = 0 ∨
    (c.numLayers.toNat < 2 ^ 31 ∧ 0 ≤ rowFloats f ∧
      rowsStart f + 8 * c.numLayers.toNat * rowFloats f ≤ f.length))

/-- The rows fit the vectors of the context the header names. -/
def Fits (c : ModelConfig) (f : Bytes) : Prop :=
  c.numLayers = 0 ∨ rowFloats f ≤ layerFloats c (headerAt f).1.maxCtx

theorem readIdentity_streamAt (f : Bytes) (k : ℕ) :
    readIdentity (streamAt f k) = ((identityAt f k).1, streamAt f (identityAt f k).2) := by
  unfold readIdentity identityAt
  simp only [readU32_streamAt]
  split_ifs
  · rw [readString_streamAt]
  · rfl

theorem readInt_streamAt (f : Bytes) (k : ℕ) :
    readInt (streamAt f k) = (intAt f k, streamAt f (k + 4)) := by
  unfold readInt intAt
  simp only [readU32_streamAt]

theorem readHeader_streamAt (f : Bytes) :
    readHeader (u32At f 4) (streamAt f 8) = ((headerAt f).1, streamAt f (headerAt f).2) := by
  unfold readHeader headerAt identitiesAt idsStart
  by_cases h2 : 2 ≤ u32At f 4
  · by_cases h3 : 3 ≤ u32At f 4
    · simp only [if_pos h2, if_pos h3, readU32_streamAt, readIdentity_streamAt, readInt_streamAt]
    · simp only [if_pos h2, if_neg h3, readU32_streamAt, readInt_streamAt]
  · have h3 : ¬ 3 ≤ u32At f 4 := by
      intro h3
      exact h2 (UInt32.le_trans (by decide) h3)
    simp only [if_neg h2, if_neg h3, readInt_streamAt]

/-! ### What the reader does -/

section Reader

variable {c : ModelConfig} {f : Bytes} {s : SessionKVState}

theorem restore_rejected (h : Rejected c f) :
    (restore c f s).session = s ∧ (restore c f s).inside = true := by
  unfold restore
  simp only [streamAt_zero, readU32_streamAt, Nat.zero_add, Nat.reduceAdd, readHeader_streamAt]
  split_ifs with h1 h2
  · rcases h with h | h
    · exact absurd h1 h
    · simp [h] at h2
  · exact ⟨rfl, rfl⟩
  · exact ⟨rfl, rfl⟩

/-- The layers a file that is not rejected is read into. -/
def layersRead (c : ModelConfig) (f : Bytes) (cache : List LayerCache) :
    List LayerCache × Bool × IStream :=
  readLayers (Int.bmod (rowFloats f * 4) (2 ^ 64)) (int32OfU32 c.numLayers).toNat
    (resize c.numLayers.toNat (zeroLayer (layerFloats c (headerAt f).1.maxCtx)) cache)
    (streamAt f (rowsStart f))

/-- **The reader on a file that it does not reject.** -/
theorem restore_streamAt (h : ¬ Rejected c f) :
    (restore c f s).session.isInitialized = true ∧
      (restore c f s).session.state.currentPos = (headerAt f).1.curPos ∧
      (restore c f s).session.numKvHeads = (headerAt f).1.numKvHeads ∧
      (restore c f s).session.headDim = (headerAt f).1.headDim ∧
      (restore c f s).inside = (decide (InvFreqInBounds c) && (layersRead c f s.state.cache).2.1) ∧
      (restore c f s).complete = (layersRead c f s.state.cache).2.2.good := by
  obtain ⟨h1, h2⟩ := not_or.mp h
  rw [not_not] at h1
  rw [Bool.not_eq_false] at h2
  have hl : (headerAt f).1.numLayers = int32OfU32 c.numLayers := by
    unfold headerMatches at h2
    simp only [decide_eq_true_eq] at h2
    exact h2.1
  unfold restore layersRead
  simp only [streamAt_zero, readU32_streamAt, Nat.zero_add, Nat.reduceAdd, if_pos h1,
    readHeader_streamAt, h2, if_true, read_streamAt, hl]
  exact ⟨trivial, trivial, trivial, trivial, rfl, rfl⟩

end Reader

/-! ### The loop over the layers -/

section Layers

variable {f : Bytes} {len : ℕ}

theorem readSigned_not_good {n : ℤ} {i : IStream} (h : i.good = false) :
    (i.readSigned n).2.good = false := by
  unfold IStream.readSigned IStream.read
  split_ifs <;> simp_all

theorem readRows_not_good {n : ℤ} {i : IStream} (h : i.good = false) :
    (readRows n len i).2.2.good = false := readSigned_not_good h

/-- A stream that has failed stays so. -/
theorem readLayers_not_good {b : ℤ} : ∀ {n : ℕ} {cs : List LayerCache} {i : IStream},
    i.good = false → (readLayers b n cs i).2.2.good = false
  | 0, cs, i, h => by
    cases cs <;> exact h
  | _ + 1, [], i, h => h
  | n + 1, c :: cs, i, h => by
    rw [readLayers]
    exact readLayers_not_good (readRows_not_good (readRows_not_good h))

/-- A negative size fails at the first layer. -/
theorem readLayers_negative {b : ℤ} (hb : b < 0) {n : ℕ} {c : LayerCache} {cs : List LayerCache}
    {i : IStream} : (readLayers b (n + 1) (c :: cs) i).2.2.good = false := by
  rw [readLayers]
  refine readLayers_not_good (readRows_not_good ?_)
  show (i.readSigned b).2.good = false
  unfold IStream.readSigned
  rw [if_pos hb]

theorem readRows_streamAt (b k : ℕ) : readRows b len (streamAt f k) =
    (decodeWords len ((f.drop k).take b), decide (min b (f.length - k) ≤ 4 * len),
      streamAt f (k + b)) := by
  unfold readRows IStream.readSigned
  rw [if_neg (by omega), Int.toNat_natCast, read_streamAt]
  simp only [List.length_take, List.length_drop]

/-- Reading `n` layers of the file asks for `2 * b * n` bytes. -/
theorem readLayers_good (b : ℕ) : ∀ (n k : ℕ), (readLayers b n (List.replicate n (zeroLayer len))
    (streamAt f k)).2.2 = streamAt f (k + 2 * b * n)
  | 0, k => by simp [readLayers]
  | n + 1, k => by
    rw [List.replicate_succ, readLayers]
    simp only [readRows_streamAt]
    rw [readLayers_good b n]
    congr 1
    ring

/-- If all of them are there, the writes stay inside exactly when one side of a layer fits. -/
theorem readLayers_inside (b : ℕ) : ∀ (n k : ℕ), k + 2 * b * n ≤ f.length →
    (readLayers b n (List.replicate n (zeroLayer len)) (streamAt f k)).2.1 =
      decide (n = 0 ∨ b ≤ 4 * len)
  | 0, k, _ => by simp [readLayers]
  | n + 1, k, h => by
    have hsplit : k + 2 * b * (n + 1) = k + b + b + 2 * b * n := by ring
    have hk : (zeroLayer len).k.length = len := by simp [zeroLayer]
    have hv : (zeroLayer len).v.length = len := by simp [zeroLayer]
    rw [List.replicate_succ, readLayers]
    simp only [readRows_streamAt, hk, hv]
    rw [readLayers_inside b n _ (by omega), Nat.min_eq_left (by omega), Nat.min_eq_left (by omega)]
    by_cases hb : b ≤ 4 * len <;> simp [hb]

end Layers

/-! ### Safety -/

/-- The restored state is safe: every write stays inside its vector; an initialised state was read in
full, no read coming up short and the rows asked for being all the rows of all layers; a state that is
not initialised has no cached tokens. -/
structure Safe (c : ModelConfig) (r : Restored) : Prop where
  inside : r.inside = true
  present : r.session.isInitialized = true → r.complete = true ∧
    2 * (int32OfU32 c.numLayers).toNat *
        rowBytes r.session.state.currentPos r.session.numKvHeads r.session.headDim =
      8 * c.numLayers.toNat *
        (r.session.state.currentPos * r.session.numKvHeads * r.session.headDim)
  fresh : r.session.isInitialized = false → r.session.cachedTokens = []

section Safety

variable {c : ModelConfig} {f : Bytes} {now : ℤ}

/-- On a file that is not rejected the head dimension and the loop over the layers decide. -/
theorem safe_iff_layersRead (h : ¬ Rejected c f) : Safe c (restore c f (newState c now)) ↔
    EvenHead c ∧ (layersRead c f []).2.1 = true ∧ (layersRead c f []).2.2.good = true ∧
      2 * (int32OfU32 c.numLayers).toNat * Int.bmod (rowFloats f * 4) (2 ^ 64) =
        8 * c.numLayers.toNat * rowFloats f := by
  obtain ⟨hi, hpos, hkv, hhd, hin, hcomp⟩ := restore_streamAt (s := newState c now) h
  have hrow : rowBytes (headerAt f).1.curPos (headerAt f).1.numKvHeads (headerAt f).1.headDim =
    Int.bmod (rowFloats f * 4) (2 ^ 64) := rfl
  constructor
  · rintro ⟨h1, h2, -⟩
    obtain ⟨h3, h4⟩ := h2 hi
    rw [hin, Bool.and_eq_true, decide_eq_true_eq, invFreqInBounds_iff] at h1
    rw [hcomp] at h3
    rw [hpos, hkv, hhd, hrow] at h4
    exact ⟨h1.1, h1.2, h3, h4⟩
  · rintro ⟨heven, h1, h2, h3⟩
    have hwrites : (restore c f (newState c now)).inside = true := by
      rw [hin, Bool.and_eq_true, decide_eq_true_eq, invFreqInBounds_iff]
      exact ⟨heven, h1⟩
    refine ⟨hwrites, fun _ => ⟨by rw [hcomp]; exact h2, ?_⟩, fun h0 => ?_⟩
    · rw [hpos, hkv, hhd, hrow]
      exact h3
    · simp [hi] at h0

/-- The bytes asked for in a complete file are exact. -/
theorem complete_bytes (hf : f.length < 2 ^ 63) (hl : c.numLayers ≠ 0) (h : Complete c f) :
    0 ≤ rowFloats f ∧ rowsStart f + 8 * c.numLayers.toNat * rowFloats f ≤ f.length ∧
      Int.bmod (rowFloats f * 4) (2 ^ 64) = 4 * rowFloats f := by
  have hpos : 0 < c.numLayers.toNat := Nat.pos_of_ne_zero fun h0 => hl (UInt32.toNat_inj.mp h0)
  obtain ⟨hstart, hrows⟩ := h
  rcases hrows with h0 | h0 | ⟨-, h0, hlen⟩
  · exact absurd h0 hl
  · rw [h0]
    refine ⟨le_refl _, ?_, rfl⟩
    rw [Int.mul_zero]
    omega
  · have hle : 8 * rowFloats f ≤ 8 * c.numLayers.toNat * rowFloats f := by
      have hone : (8 : ℤ) * 1 ≤ 8 * (c.numLayers.toNat : ℤ) := by omega
      have := Int.mul_le_mul_of_nonneg_right hone h0
      omega
    refine ⟨h0, hlen, ?_⟩
    rw [Int.bmod_eq_of_le (by omega) (by omega)]
    omega

/-- The bytes of the keys and values of all layers, from those of one row. -/
theorem allRows_bytes {b : ℕ} (layers : ℕ) (hb : 4 * rowFloats f = b) :
    8 * (layers : ℤ) * rowFloats f = ((2 * b * layers : ℕ) : ℤ) := by
  push_cast
  rw [← hb]
  ring

/-- With layers that the loop goes through, the reader is safe exactly on a complete file that fits. -/
theorem layersRead_iff (hf : f.length < 2 ^ 63) (hl : c.numLayers ≠ 0)
    (hlt : c.numLayers.toNat < 2 ^ 31) :
    ((layersRead c f []).2.1 = true ∧ (layersRead c f []).2.2.good = true ∧
      2 * (int32OfU32 c.numLayers).toNat * Int.bmod (rowFloats f * 4) (2 ^ 64) =
        8 * c.numLayers.toNat * rowFloats f) ↔ Complete c f ∧ Fits c f := by
  have hpos : 0 < c.numLayers.toNat := Nat.pos_of_ne_zero fun h0 => hl (UInt32.toNat_inj.mp h0)
  have hn : (int32OfU32 c.numLayers).toNat = c.numLayers.toNat := by
    rw [int32OfU32_of_lt hlt, Int.toNat_natCast]
  unfold layersRead
  rw [hn, resize_nil]
  constructor
  · rintro ⟨hin, hgood, hasked⟩
    have hbytes : Int.bmod (rowFloats f * 4) (2 ^ 64) = 4 * rowFloats f := by
      have hcancel : (2 * (c.numLayers.toNat : ℤ)) * Int.bmod (rowFloats f * 4) (2 ^ 64) =
          (2 * (c.numLayers.toNat : ℤ)) * (4 * rowFloats f) := by
        rw [hasked]
        ring
      exact Int.eq_of_mul_eq_mul_left (by omega) hcancel
    rw [hbytes] at hin hgood
    have h0 : 0 ≤ rowFloats f := by
      by_contra hneg
      obtain ⟨n, hn'⟩ := Nat.exists_eq_succ_of_ne_zero (Nat.pos_iff_ne_zero.mp hpos)
      rw [hn', List.replicate_succ, readLayers_negative (by omega)] at hgood
      cases hgood
    obtain ⟨b, hb⟩ := Int.eq_ofNat_of_zero_le (show 0 ≤ 4 * rowFloats f by omega)
    rw [hb] at hin hgood
    rw [readLayers_good, streamAt_good, decide_eq_true_eq] at hgood
    rw [readLayers_inside b _ _ hgood, decide_eq_true_eq] at hin
    have hsum := allRows_bytes c.numLayers.toNat hb
    refine ⟨⟨by omega, Or.inr (Or.inr ⟨hlt, h0, ?_⟩)⟩, Or.inr ?_⟩
    · rw [hsum]
      omega
    · rcases hin with hin | hin <;> omega
  · rintro ⟨hcomp, hfits⟩
    obtain ⟨h0, hlen, hbytes⟩ := complete_bytes hf hl hcomp
    have hfit := hfits.resolve_left hl
    obtain ⟨b, hb⟩ := Int.eq_ofNat_of_zero_le (show 0 ≤ 4 * rowFloats f by omega)
    have hsum := allRows_bytes c.numLayers.toNat hb
    rw [hsum] at hlen
    have hall : rowsStart f + 2 * b * c.numLayers.toNat ≤ f.length := by exact_mod_cast hlen
    refine ⟨?_, ?_, ?_⟩
    · rw [hbytes, hb, readLayers_inside b _ _ hall, decide_eq_true_eq]
      right
      omega
    · rw [hbytes, hb, readLayers_good, streamAt_good, decide_eq_true_eq]
      exact hall
    · rw [hbytes]
      ring

/-- Without such layers the loop makes no step. -/
theorem layersRead_none (hn : (int32OfU32 c.numLayers).toNat = 0) :
    (layersRead c f []).2.1 = true ∧ (layersRead c f []).2.2 = streamAt f (rowsStart f) := by
  unfold layersRead
  rw [hn, resize_nil]
  cases List.replicate c.numLayers.toNat (zeroLayer (layerFloats c (headerAt f).1.maxCtx)) <;>
    exact ⟨rfl, rfl⟩

theorem layersRead_iff_of_eq_zero (hl : c.numLayers = 0) :
    ((layersRead c f []).2.1 = true ∧ (layersRead c f []).2.2.good = true ∧
      2 * (int32OfU32 c.numLayers).toNat * Int.bmod (rowFloats f * 4) (2 ^ 64) =
        8 * c.numLayers.toNat * rowFloats f) ↔ Complete c f ∧ Fits c f := by
  have hn : (int32OfU32 c.numLayers).toNat = 0 := by
    rw [hl]
    decide
  obtain ⟨hin, hstream⟩ := layersRead_none (f := f) hn
  rw [hin, hstream, streamAt_good, decide_eq_true_eq, hn, hl]
  unfold Complete Fits
  simp [hl]

/-- From `2 ^ 31` layers on nothing is read, so there may be no rows. -/
theorem layersRead_iff_of_not_lt (hl : c.numLayers ≠ 0) (hlt : ¬ c.numLayers.toNat < 2 ^ 31) :
    ((layersRead c f []).2.1 = true ∧ (layersRead c f []).2.2.good = true ∧
      2 * (int32OfU32 c.numLayers).toNat * Int.bmod (rowFloats f * 4) (2 ^ 64) =
        8 * c.numLayers.toNat * rowFloats f) ↔ Complete c f ∧ Fits c f := by
  have hn : (int32OfU32 c.numLayers).toNat = 0 := by
    have hneg : ¬ 0 ≤ int32OfU32 c.numLayers := fun h0 => hlt ((int32OfU32_nonneg_iff _).mp h0)
    omega
  obtain ⟨hin, hstream⟩ := layersRead_none (f := f) hn
  rw [hin, hstream, streamAt_good, decide_eq_true_eq, hn]
  have hpos : (0 : ℤ) < c.numLayers.toNat := by omega
  unfold Complete Fits
  constructor
  · rintro ⟨-, hlen, hrows⟩
    have hzero : rowFloats f = 0 := by
      simp only [Nat.cast_zero, Int.mul_zero, Int.zero_mul] at hrows
      rcases Int.mul_eq_zero.mp hrows.symm with h | h
      · omega
      · exact h
    exact ⟨⟨hlen, Or.inr (Or.inl hzero)⟩, Or.inr (by omega)⟩
  · rintro ⟨⟨hlen, hrows⟩, -⟩
    rcases hrows with h | h | h
    · exact absurd h hl
    · refine ⟨rfl, hlen, ?_⟩
      rw [h]
      simp
    · exact absurd h.1 hlt

/-- A file that is rejected leaves the new state as it is. -/
theorem safe_of_rejected (h : Rejected c f) : Safe c (restore c f (newState c now)) := by
  obtain ⟨hs, hin⟩ := restore_rejected (s := newState c now) h
  refine ⟨hin, ?_, ?_⟩
  · rw [hs]
    intro hi
    cases hi
  · rw [hs]
    intro _
    rfl

end Safety

/-- **Restoring a file is safe** exactly when the checks of the reader reject it, or when the head
dimension is even, the file is complete and its rows fit the vectors. -/
theorem restore_safe_iff (c : ModelConfig) (f : Bytes) (now : ℤ) (hf : f.length < 2 ^ 63) :
    Safe c (restore c f (newState c now)) ↔ Rejected c f ∨ (EvenHead c ∧ Complete c f ∧ Fits c f) := by
  by_cases hrej : Rejected c f
  · exact iff_of_true (safe_of_rejected hrej) (Or.inl hrej)
  rw [safe_iff_layersRead hrej, or_iff_right hrej]
  refine and_congr_right fun _ => ?_
  by_cases hl : c.numLayers = 0
  · exact layersRead_iff_of_eq_zero hl
  by_cases hlt : c.numLayers.toNat < 2 ^ 31
  · exact layersRead_iff hf hl hlt
  · exact layersRead_iff_of_not_lt hl hlt

/-- One layer with rows of two floats. -/
def oneLayer : ModelConfig := { numLayers := 1, numKvHeads := 1, headDim := 2 }

/-- A file of version 1 for one layer: its context, its position, no tokens, and its rows. -/
def fileV1 (maxCtx curPos : UInt32) (rows : List F32) : Bytes :=
  encodeWords ([dlkvMagic, 1, 1, 1, 2, maxCtx, curPos, 0] ++ rows)

/-- A file with the rows it announces, for a context that has room for them. -/
theorem restore_safe_iff_fileV1 : Safe oneLayer (restore oneLayer (fileV1 2 1 [5, 6, 7, 8]) (newState oneLayer 0)) ↔
    Rejected oneLayer (fileV1 2 1 [5, 6, 7, 8]) ∨
      (EvenHead oneLayer ∧ Complete oneLayer (fileV1 2 1 [5, 6, 7, 8]) ∧ Fits oneLayer (fileV1 2 1 [5, 6, 7, 8])) :=
  restore_safe_iff oneLayer (fileV1 2 1 [5, 6, 7, 8]) 0 (by decide +kernel)

/-- A file whose position is beyond its context writes outside the vectors; one that ends before its rows
gives an initialised state all the same. -/
theorem restore_unsafe :
    (restore oneLayer (fileV1 1 2 [5, 6, 7, 8, 9, 10, 11, 12]) (newState oneLayer 0)).inside = false ∧
    (restore oneLayer (fileV1 2 1 [5, 6, 7]) (newState oneLayer 0)).session.isInitialized = true ∧
    (restore oneLayer (fileV1 2 1 [5, 6, 7]) (newState oneLayer 0)).complete = false ∧
    ¬ Safe oneLayer (restore oneLayer (fileV1 1 2 [5, 6, 7, 8, 9, 10, 11, 12]) (newState oneLayer 0)) ∧
    ¬ Safe oneLayer (restore oneLayer (fileV1 2 1 [5, 6, 7]) (newState oneLayer 0)) := by
  have h1 : (restore oneLayer (fileV1 1 2 [5, 6, 7, 8, 9, 10, 11, 12]) (newState oneLayer 0)).inside = false := by
    decide +kernel
  have h2 : (restore oneLayer (fileV1 2 1 [5, 6, 7]) (newState oneLayer 0)).session.isInitialized = true := by
    decide +kernel
  have h3 : (restore oneLayer (fileV1 2 1 [5, 6, 7]) (newState oneLayer 0)).complete = false := by
    decide +kernel
  refine ⟨h1, h2, h3, fun h => ?_, fun h => ?_⟩
  · have := h.inside
    simp [h1] at this
  · have := (h.present h2).1
    simp [h3] at this

end DenseLite.SessionKV.Restore
