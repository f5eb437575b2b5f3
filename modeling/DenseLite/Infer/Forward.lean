import DenseLite.Gguf.RoundTrip
import DenseLite.Lib.Decimal

/-! # The indices of `forward_pass`

The elements that a forward pass reads and writes, loop by loop, and the sizes of what it indexes: its buffers, the
layer caches as `init_inference_state` makes them, and the weight tensors by their shapes; and what it divides by. The
dimensions come from keys of the metadata that nothing compares, so a pass stays inside, and divides by nothing that is
zero, only where they fit each other (`inBounds_iff`).

Products of `int`s are exact here (an overflow of them is undefined), products with an unsigned factor wrap. Left out
are the activations `x` and `residual`, the results of the matrices, the scores and the logits: their loops are as long
as they are, but for `x`, which `rmsnorm` takes eight floats at a time (so past its end, where assertions are not
compiled in and the embedding length is no multiple of eight). -/

namespace DenseLite.Infer.Forward

open DenseLite.Lib.ByteStream DenseLite.Lib.Decimal DenseLite.Gguf.Config DenseLite.Gguf.Loader
open DenseLite.Gguf.Format DenseLite.Gguf.ParseEncode DenseLite.Gguf.Alignment DenseLite.Gguf.RoundTrip
open DenseLite.Infer.State (ascii Token TensorType layerFloats nativeTensorSupported)

/-! ### Dimensions -/

/-- What the floats decide and the dimensions do not: whether `std::sqrt(ss / size + eps)` is zero in the norm of a
number (the two of layer `l` are `2 * l` and `2 * l + 1`, the last norm follows), and whether the `sum` of a head in a
layer is. An `eps` above zero rules out the first, a score that is not far below `-1e9` the second. -/
structure Vanishing where
  root : ℕ → Bool
  sum : ℕ → ℕ → Bool

/-- A call of `forward_pass`: the model, whether `assert` is compiled in, the context that the state was set up for,
the position, the token, and the floats that vanish. -/
structure Pass where
  model : DenseModel
  asserts : Bool
  maxContext : ℤ
  pos : ℕ
  token : Token
  vanishing : Vanishing

namespace Pass

variable (r : Pass)

/-- The configuration of the model. -/
def config : ModelConfig := r.model.config

/-- `config.embedding_length` as an `int`. -/
def embeddingLength : ℤ := int32OfU32 r.config.embeddingLength

/-- `head_dim`. -/
def headDim : ℤ := int32OfU32 r.config.headDim

/-- `num_kv_features`: an unsigned product, taken as an `int`. -/
def numKvFeatures : ℤ := int32OfU32 (r.config.numKvHeads * r.config.headDim)

/-- `mlp_hidden_dim`. -/
def mlpHiddenDim : ℤ := int32OfU32 r.config.intermediateDim

/-- `kv_groups`. -/
def kvGroups : ℕ :=
  if 0 < r.config.numKvHeads then (r.config.numHeads / r.config.numKvHeads).toNat else 1

/-- `embd_blocks`. -/
def embdBlocks : ℕ := r.config.embeddingLength.toNat / 32

/-- The blocks of a row of `matvec`. -/
def blocks (inFeatures : ℤ) : ℕ := inFeatures.toNat / 32

/-! ### Tensors -/

/-- The tensor of a name. -/
def tensor (name : Bytes) : Option Tensor := r.model.tensors.find? (·.name = name)

/-- The name of the embedding table. -/
def tokenEmbd : Bytes := ascii "token_embd.weight"

/-- The tests at the beginning, which make `forward_pass` return false. -/
def rejects : Bool :=
  r.model.tensors.any (fun t => !nativeTensorSupported t.name t.type) ||
  decide (r.token < 0 ∨ Int32.ofUInt32 r.config.vocabSize ≤ r.token) ||
  match r.tensor tokenEmbd with
  | none => true
  | some t => !(t.type = .Q4_0 ∨ t.type = .Q8_0)

/-- The product of the dimensions. -/
def elements : List UInt32 → ℕ
  | [] => 1
  | d :: ds => d.toNat * elements ds

/-- What the kernels index in a tensor: floats, or blocks of 32. -/
def units (t : Tensor) : ℕ := if t.type = .FP32 then elements t.shape else elements t.shape / 32

/-- The name of a tensor of a layer. -/
def layerName (l : ℕ) (suffix : Bytes) : Bytes := ascii "blk." ++ natText l ++ ascii "." ++ suffix

/-- A matrix, as `matvec` is called with it. -/
structure Matrix where
  suffix : Bytes
  inFeatures : ℤ
  outFeatures : ℤ

/-- The matrices of a layer. -/
def matrices : List Matrix :=
  [⟨ascii "attn_q.weight", r.embeddingLength, r.embeddingLength⟩,
    ⟨ascii "attn_k.weight", r.embeddingLength, r.numKvFeatures⟩,
    ⟨ascii "attn_v.weight", r.embeddingLength, r.numKvFeatures⟩,
    ⟨ascii "attn_output.weight", r.embeddingLength, r.embeddingLength⟩,
    ⟨ascii "ffn_gate.weight", r.embeddingLength, r.mlpHiddenDim⟩,
    ⟨ascii "ffn_up.weight", r.embeddingLength, r.mlpHiddenDim⟩,
    ⟨ascii "ffn_down.weight", r.mlpHiddenDim, r.embeddingLength⟩]

/-- The biases of a layer, with their lengths; they may be absent. -/
def biases : List (Bytes × ℤ) :=
  [(ascii "attn_q.bias", r.embeddingLength), (ascii "attn_k.bias", r.numKvFeatures),
    (ascii "attn_v.bias", r.numKvFeatures)]

/-- The norms of a layer. -/
def norms : List Bytes := [ascii "attn_norm.weight", ascii "ffn_norm.weight"]

/-- The matrix of the logits. -/
def outputWeight : Bytes :=
  if (r.tensor (ascii "output.weight")).isSome then ascii "output.weight" else tokenEmbd

/-! ### Indices -/

/-- What is indexed. -/
inductive Buffer
  | q | k | v | attOut | kCache (l : ℕ) | vCache (l : ℕ) | invFreq | weight (name : Bytes)
deriving DecidableEq

/-- How many elements there are. A tensor that is missing has no data. -/
def size : Buffer → ℕ
  | .q | .attOut => r.config.embeddingLength.toNat
  | .k | .v => r.numKvFeatures.toNat
  | .kCache l | .vCache l =>
    if l < r.config.numLayers.toNat then layerFloats r.config.toModelConfig r.maxContext else 0
  | .invFreq => r.config.headDim.toNat / 2
  | .weight name => ((r.tensor name).map units).getD 0

/-- The pass gets beyond the embedding lookup: its buffers can be made, and no assertion of `rmsnorm` fails. -/
def Runs : Prop :=
  0 ≤ r.numKvFeatures ∧ 0 ≤ r.mlpHiddenDim ∧ (r.asserts = true → r.config.embeddingLength.toNat % 8 = 0)

/-- **The elements that a pass uses**, one constructor for each loop of the source. -/
inductive Uses : Buffer → ℤ → Prop
  /-- `dequantize_q4_row`, `dequantize_q8_row`. -/
  | embedding {i : ℕ} (hi : i < r.embdBlocks) : Uses (.weight tokenEmbd) (r.token.toInt * r.embdBlocks + i)
  /-- `rmsnorm` reads eight weights at a time. -/
  | norm (hrun : r.Runs) {l : ℕ} (hl : l < r.config.numLayers.toNat) {suffix : Bytes} (hs : suffix ∈ norms)
      {i c : ℕ} (hi : 8 * (i : ℤ) < r.embeddingLength) (hc : c < 8) :
      Uses (.weight (layerName l suffix)) (8 * i + c)
  /-- `matvec`: the weights. -/
  | matrix (hrun : r.Runs) {l : ℕ} (hl : l < r.config.numLayers.toNat) {w : Matrix} (hw : w ∈ r.matrices)
      {i j : ℕ} (hi : i < w.outFeatures) (hj : j < blocks w.inFeatures) :
      Uses (.weight (layerName l w.suffix)) (i * blocks w.inFeatures + j)
  /-- `matvec`, and the bias: the results. -/
  | projectQ (hrun : r.Runs) (hl : 0 < r.config.numLayers.toNat) {i : ℕ} (hi : i < r.embeddingLength) : Uses .q i
  | projectK (hrun : r.Runs) (hl : 0 < r.config.numLayers.toNat) {i : ℕ} (hi : i < r.numKvFeatures) : Uses .k i
  | projectV (hrun : r.Runs) (hl : 0 < r.config.numLayers.toNat) {i : ℕ} (hi : i < r.numKvFeatures) : Uses .v i
  /-- The biases that are present. -/
  | bias (hrun : r.Runs) {l : ℕ} (hl : l < r.config.numLayers.toNat) {w : Bytes × ℤ} (hw : w ∈ r.biases)
      (hpresent : (r.tensor (layerName l w.1)).isSome) {i : ℕ} (hi : i < w.2) :
      Uses (.weight (layerName l w.1)) i
  /-- `rope` of the queries and of the keys. -/
  | ropeFreq (hrun : r.Runs) (hl : 0 < r.config.numLayers.toNat) {h i : ℕ}
      (hh : h < int32OfU32 r.config.numHeads ∨ h < int32OfU32 r.config.numKvHeads) (hi : 2 * (i : ℤ) < r.headDim) :
      Uses .invFreq i
  | ropeQ (hrun : r.Runs) (hl : 0 < r.config.numLayers.toNat) {h i c : ℕ} (hh : h < int32OfU32 r.config.numHeads)
      (hi : 2 * (i : ℤ) < r.headDim) (hc : c < 2) : Uses .q (h * r.headDim + 2 * i + c)
  | ropeK (hrun : r.Runs) (hl : 0 < r.config.numLayers.toNat) {h i c : ℕ} (hh : h < int32OfU32 r.config.numKvHeads)
      (hi : 2 * (i : ℤ) < r.headDim) (hc : c < 2) : Uses .k (h * r.headDim + 2 * i + c)
  /-- The store of `k` and `v`, if they fit the layer. -/
  | storeK (hrun : r.Runs) {l : ℕ} (hl : l < r.config.numLayers.toNat)
      (hfit : r.pos * r.numKvFeatures + r.numKvFeatures ≤ r.size (.kCache l)) {i : ℕ} (hi : i < r.numKvFeatures) :
      Uses (.kCache l) (r.pos * r.numKvFeatures + i)
  | storeV (hrun : r.Runs) {l : ℕ} (hl : l < r.config.numLayers.toNat)
      (hfit : r.pos * r.numKvFeatures + r.numKvFeatures ≤ r.size (.kCache l)) {i : ℕ} (hi : i < r.numKvFeatures) :
      Uses (.vCache l) (r.pos * r.numKvFeatures + i)
  /-- `&state.k_cache[l][cache_offset]` and `&state.v_cache[l][cache_offset]`, which index their first element also
  where no float is copied. -/
  | storeKStart (hrun : r.Runs) {l : ℕ} (hl : l < r.config.numLayers.toNat)
      (hfit : r.pos * r.numKvFeatures + r.numKvFeatures ≤ r.size (.kCache l)) :
      Uses (.kCache l) (r.pos * r.numKvFeatures)
  | storeVStart (hrun : r.Runs) {l : ℕ} (hl : l < r.config.numLayers.toNat)
      (hfit : r.pos * r.numKvFeatures + r.numKvFeatures ≤ r.size (.kCache l)) :
      Uses (.vCache l) (r.pos * r.numKvFeatures)
  /-- The attention of one head: its query and its result. -/
  | attendQ (hrun : r.Runs) (hl : 0 < r.config.numLayers.toNat) {h d : ℕ} (hh : h < r.config.numHeads.toNat)
      (hd : d < r.headDim) : Uses .q ((h * r.config.headDim.toNat % 2 ^ 32 : ℕ) + d)
  | attendOut (hrun : r.Runs) (hl : 0 < r.config.numLayers.toNat) {h d : ℕ} (hh : h < r.config.numHeads.toNat)
      (hd : d < r.headDim) : Uses .attOut ((h * r.config.headDim.toNat % 2 ^ 32 : ℕ) + d)
  /-- The attention of one head: the rows of the cache up to the position. -/
  | attendK (hrun : r.Runs) {l : ℕ} (hl : l < r.config.numLayers.toNat) {h p d : ℕ}
      (hh : h < r.config.numHeads.toNat) (hp : p ≤ r.pos) (hd : d < r.headDim) :
      Uses (.kCache l) ((p * r.numKvFeatures + h / r.kvGroups * r.config.headDim.toNat) % 2 ^ 32 + d)
  | attendV (hrun : r.Runs) {l : ℕ} (hl : l < r.config.numLayers.toNat) {h p d : ℕ}
      (hh : h < r.config.numHeads.toNat) (hp : p ≤ r.pos) (hd : d < r.headDim) :
      Uses (.vCache l) ((p * r.numKvFeatures + h / r.kvGroups * r.config.headDim.toNat) % 2 ^ 32 + d)
  /-- `k_head` and `v_head`, which index the first element of the row of a head also where the loop over `d` makes no
  step. -/
  | attendKStart (hrun : r.Runs) {l : ℕ} (hl : l < r.config.numLayers.toNat) {h p : ℕ}
      (hh : h < r.config.numHeads.toNat) (hp : p ≤ r.pos) :
      Uses (.kCache l) ((p * r.numKvFeatures + h / r.kvGroups * r.config.headDim.toNat) % 2 ^ 32)
  | attendVStart (hrun : r.Runs) {l : ℕ} (hl : l < r.config.numLayers.toNat) {h p : ℕ}
      (hh : h < r.config.numHeads.toNat) (hp : p ≤ r.pos) :
      Uses (.vCache l) ((p * r.numKvFeatures + h / r.kvGroups * r.config.headDim.toNat) % 2 ^ 32)
  /-- The output projection reads what the heads have written. -/
  | outputQ (hrun : r.Runs) (hl : 0 < r.config.numLayers.toNat) {j c : ℕ} (hj : j < blocks r.embeddingLength)
      (hc : c < 32) : Uses .attOut (32 * j + c)
  /-- After the layers: the last norm and the logits. -/
  | outputNorm (hrun : r.Runs) {i c : ℕ} (hi : 8 * (i : ℤ) < r.embeddingLength) (hc : c < 8) :
      Uses (.weight (ascii "output_norm.weight")) (8 * i + c)
  | logits (hrun : r.Runs) {i j : ℕ} (hi : i < int32OfU32 r.config.vocabSize) (hj : j < blocks r.embeddingLength) :
      Uses (.weight r.outputWeight) (i * blocks r.embeddingLength + j)

/-! ### Divisors -/

/-- What is divided by: `kv_groups`, `std::sqrt((float)head_dim)`, the `size` and the root of a norm, and the `sum` of a
head. (`swiglu` divides by one and an exponential.) -/
inductive Divisor
  | kvGroups | headRoot | size | root (norm : ℕ) | sum (l h : ℕ)
deriving DecidableEq

/-- The divisor is zero. -/
def vanishes : Divisor → Bool
  | .kvGroups => r.kvGroups == 0
  | .headRoot => r.headDim == 0
  | .size => r.embeddingLength == 0
  | .root norm => r.vanishing.root norm
  | .sum l h => r.vanishing.sum l h

/-- The norms of a pass: two for each layer, and the last one. -/
def numNorms : ℕ := 2 * r.config.numLayers.toNat + 1

/-- **What a pass divides by**, one constructor for each division of the source. -/
inductive DividesBy : Divisor → Prop
  /-- `h / kv_groups`. -/
  | kvHead (hrun : r.Runs) (hl : 0 < r.config.numLayers.toNat) (hh : 0 < r.config.numHeads.toNat) :
      DividesBy .kvGroups
  /-- `score /= std::sqrt((float)head_dim)`. -/
  | score (hrun : r.Runs) (hl : 0 < r.config.numLayers.toNat) (hh : 0 < r.config.numHeads.toNat) : DividesBy .headRoot
  /-- `att_scores[p] /= sum`. -/
  | softmax (hrun : r.Runs) {l h : ℕ} (hl : l < r.config.numLayers.toNat) (hh : h < r.config.numHeads.toNat) :
      DividesBy (.sum l h)
  /-- `ss / size`, in every norm. -/
  | mean (hrun : r.Runs) : DividesBy .size
  /-- `1.0f / std::sqrt(ss / size + eps)`. -/
  | scale (hrun : r.Runs) {norm : ℕ} (hn : norm < r.numNorms) : DividesBy (.root norm)

/-- **A pass stays in bounds** and divides by nothing that is zero, or returns false. -/
def InBounds : Prop :=
  r.rejects = true ∨
    (∀ b i, r.Uses b i → 0 ≤ i ∧ i < r.size b) ∧ ∀ d, r.DividesBy d → r.vanishes d = false

/-! ### Dimensions that fit -/

/-- The floats that `rmsnorm` reads. -/
def normFloats : ℕ := (r.embeddingLength.toNat + 7) / 8 * 8

/-- The blocks that `matvec` reads of a matrix. -/
def Matrix.blocksRead (w : Matrix) : ℕ := w.outFeatures.toNat * blocks w.inFeatures

/-- The tensors of a layer are as large as its loops are. -/
structure LayerFits (l : ℕ) : Prop where
  norms : ∀ suffix ∈ norms, r.normFloats ≤ r.size (.weight (layerName l suffix))
  matrices : ∀ w ∈ r.matrices, w.blocksRead ≤ r.size (.weight (layerName l w.suffix))
  biases : ∀ w ∈ r.biases, (r.tensor (layerName l w.1)).isSome → w.2.toNat ≤ r.size (.weight (layerName l w.1))

/-- The last key head that a query head is mapped to. -/
def lastKvHead : ℕ := (r.config.numHeads.toNat - 1) / r.kvGroups

/-- The heads fit each other, the embedding, and the cache. A head dimension from `2 ^ 31` on is negative as an `int`:
then a head reads no row of the cache, but indexes the first element of each. -/
structure HeadsFit : Prop where
  features : 0 < r.numKvFeatures
  groups : 0 < r.config.numHeads.toNat → r.config.numKvHeads.toNat ≤ r.config.numHeads.toNat
  query : 0 < r.headDim → 0 < r.config.numHeads.toNat →
    r.config.numHeads.toNat * r.config.headDim.toNat ≤ r.config.embeddingLength.toNat ∧
    (r.pos * r.config.numKvHeads.toNat + (r.lastKvHead + 1)) * r.config.headDim.toNat ≤
      layerFloats r.config.toModelConfig r.maxContext
  starts : r.headDim < 0 → ∀ h < r.config.numHeads.toNat, ∀ p ≤ r.pos,
    (p * r.numKvFeatures + h / r.kvGroups * r.config.headDim.toNat) % 2 ^ 32 <
      layerFloats r.config.toModelConfig r.maxContext
  rope : 0 < r.headDim → 0 < int32OfU32 r.config.numKvHeads →
    r.config.headDim.toNat % 2 = 0 ∧ r.config.numKvHeads.toNat * r.config.headDim.toNat < 2 ^ 31

/-- The floats that the pass divides by are not zero: the roots of the norms, and the sums of the heads. -/
structure NonzeroFloats : Prop where
  roots : ∀ norm < r.numNorms, r.vanishing.root norm = false
  sums : ∀ l < r.config.numLayers.toNat, ∀ h < r.config.numHeads.toNat, r.vanishing.sum l h = false

/-- **The dimensions fit**: those of the embedding table, and, if the pass gets beyond the lookup, those of the layers,
of the heads, and of the norms and the logits; and the floats that are divisors are not zero. -/
structure Consistent : Prop where
  embedding : r.embdBlocks = 0 ∨ r.token.toInt * r.embdBlocks + r.embdBlocks ≤ r.size (.weight tokenEmbd)
  layers : r.Runs → ∀ l < r.config.numLayers.toNat, r.LayerFits l
  heads : r.Runs → 0 < r.config.numLayers.toNat → r.HeadsFit
  outputNorm : r.Runs → r.normFloats ≤ r.size (.weight (ascii "output_norm.weight"))
  logits : r.Runs → (int32OfU32 r.config.vocabSize).toNat * blocks r.embeddingLength ≤
    r.size (.weight r.outputWeight)
  normSize : r.Runs → r.config.embeddingLength.toNat ≠ 0
  floats : r.Runs → r.NonzeroFloats

section Loops

/-- A loop over the blocks of a matrix stays inside if and only if it has them all. -/
theorem forall_block_lt_iff {rows columns n : ℕ} :
    (∀ i < rows, ∀ j < columns, i * columns + j < n) ↔ rows * columns ≤ n := by
  constructor
  · intro h
    by_contra hlt
    have hpos : 0 < rows * columns := by omega
    have hrows : 0 < rows := Nat.pos_of_mul_pos_right hpos
    have hcolumns : 0 < columns := Nat.pos_of_mul_pos_left hpos
    have hlast := h (rows - 1) (by omega) (columns - 1) (by omega)
    rw [Nat.sub_mul, Nat.one_mul] at hlast
    have hle : columns ≤ rows * columns := Nat.le_mul_of_pos_left columns hrows
    omega
  · intro h i hi j hj
    calc i * columns + j < i * columns + columns := by omega
      _ = (i + 1) * columns := by ring
      _ ≤ rows * columns := Nat.mul_le_mul_right columns hi
      _ ≤ n := h

/-- A loop in steps of eight stays inside if and only if it has the last step whole. -/
theorem forall_lane_lt_iff {length n : ℕ} :
    (∀ i, 8 * i < length → ∀ c < 8, 8 * i + c < n) ↔ (length + 7) / 8 * 8 ≤ n := by
  constructor
  · intro h
    rcases Nat.eq_zero_or_pos length with rfl | hpos
    · simp
    · have hlast := h ((length - 1) / 8) (by omega) 7 (by omega)
      omega
  · intro h i hi c hc
    omega

/-- Unsigned offsets of heads stay inside if and only if there is room for all heads, as no offset wraps below
the first one that is outside. -/
theorem forall_head_lt_iff {heads dim n : ℕ} (hn : n < 2 ^ 32) :
    (∀ h < heads, ∀ d < dim, h * dim % 2 ^ 32 + d < n) ↔ heads * dim ≤ n := by
  constructor
  · intro h
    by_contra hlt
    have hdim : 0 < dim := Nat.pos_of_mul_pos_left (by omega : 0 < heads * dim)
    have hhead : n / dim < heads := (Nat.div_lt_iff_lt_mul hdim).mpr (by omega)
    have hle := Nat.div_mul_le_self n dim
    have hout := h (n / dim) hhead (n % dim) (Nat.mod_lt _ hdim)
    rw [Nat.mod_eq_of_lt (by omega), Nat.mul_comm, Nat.div_add_mod] at hout
    exact absurd hout (lt_irrefl n)
  · intro h i hi d hd
    have hlt := forall_block_lt_iff.mpr h i hi d hd
    rwa [Nat.mod_eq_of_lt (by omega)]

/-- The key heads that the query heads are mapped to reach at least to the last one of a row. -/
theorem kvHeads_le {heads kvHeads : ℕ} (hkv : 0 < kvHeads) (hle : kvHeads ≤ heads) :
    kvHeads ≤ (heads - 1) / (heads / kvHeads) + 1 := by
  have hgroups : 0 < heads / kvHeads := Nat.div_pos hle hkv
  have hmul : heads / kvHeads * kvHeads ≤ heads := Nat.div_mul_le_self heads kvHeads
  have hlast : kvHeads - 1 ≤ (heads - 1) / (heads / kvHeads) := by
    rw [Nat.le_div_iff_mul_le hgroups, Nat.mul_comm, Nat.mul_sub, Nat.mul_one]
    omega
  omega

/-- Every element up to the last key head of the last row is used, if it is below the wrap. -/
theorem exists_cache_index {heads kvHeads dim pos n : ℕ} (hkv : 0 < kvHeads) (hle : kvHeads ≤ heads)
    (hlt : n < (pos * kvHeads + ((heads - 1) / (heads / kvHeads) + 1)) * dim) :
    ∃ h < heads, ∃ p ≤ pos, ∃ d < dim, p * (kvHeads * dim) + h / (heads / kvHeads) * dim + d = n := by
  have hdim : 0 < dim := Nat.pos_of_mul_pos_left (Nat.zero_lt_of_lt hlt)
  have hgroups : 0 < heads / kvHeads := Nat.div_pos hle hkv
  have hlast := kvHeads_le hkv hle
  -- the row of the element, and its key head in the row
  obtain ⟨p, kvHead, hp, hhead, hindex⟩ : ∃ p kvHead, p ≤ pos ∧ kvHead ≤ (heads - 1) / (heads / kvHeads) ∧
      p * (kvHeads * dim) + kvHead * dim + n % dim = n := by
    have hn := Nat.div_add_mod' n dim
    rcases Nat.lt_or_ge pos (n / dim / kvHeads) with hbeyond | hwithin
    · refine ⟨pos, n / dim - pos * kvHeads, le_rfl, ?_, ?_⟩
      · have hquot : n / dim < pos * kvHeads + ((heads - 1) / (heads / kvHeads) + 1) :=
          (Nat.div_lt_iff_lt_mul hdim).mpr hlt
        omega
      · have hrow : pos * kvHeads ≤ n / dim :=
          (Nat.le_div_iff_mul_le hkv).mp hbeyond.le
        rw [← Nat.mul_assoc, ← Nat.add_mul, Nat.add_sub_cancel' hrow]
        exact hn
    · refine ⟨n / dim / kvHeads, n / dim % kvHeads, hwithin, ?_, ?_⟩
      · have hmod := Nat.mod_lt (n / dim) hkv
        omega
      · rw [← Nat.mul_assoc, ← Nat.add_mul, Nat.div_add_mod']
        exact hn
  refine ⟨kvHead * (heads / kvHeads), ?_, p, hp, n % dim, Nat.mod_lt _ hdim, ?_⟩
  · have hmul := (Nat.le_div_iff_mul_le hgroups).mp hhead
    have hheads : 0 < heads := hkv.trans_le hle
    omega
  · rwa [Nat.mul_div_cancel _ hgroups]

/-- The attention stays inside the cache if and only if the cache has the last key head of the last row. -/
theorem forall_cache_lt_iff {heads kvHeads dim pos n : ℕ} (hkv : 0 < kvHeads) (hle : kvHeads ≤ heads)
    (hn : n < 2 ^ 32) :
    (∀ h < heads, ∀ p ≤ pos, ∀ d < dim,
        (p * (kvHeads * dim) + h / (heads / kvHeads) * dim) % 2 ^ 32 + d < n) ↔
      (pos * kvHeads + ((heads - 1) / (heads / kvHeads) + 1)) * dim ≤ n := by
  constructor
  · intro h
    by_contra hlt
    obtain ⟨i, hi, p, hp, d, hd, hindex⟩ := exists_cache_index hkv hle (not_le.mp hlt)
    have hout := h i hi p hp d hd
    rw [Nat.mod_eq_of_lt (by omega), hindex] at hout
    exact absurd hout (lt_irrefl n)
  · intro h i hi p hp d hd
    have hhead : i / (heads / kvHeads) ≤ (heads - 1) / (heads / kvHeads) := Nat.div_le_div_right (by omega)
    have hlt : p * (kvHeads * dim) + i / (heads / kvHeads) * dim + d < n := by
      calc p * (kvHeads * dim) + i / (heads / kvHeads) * dim + d
          = (p * kvHeads + i / (heads / kvHeads)) * dim + d := by ring
        _ < (p * kvHeads + i / (heads / kvHeads)) * dim + dim := by omega
        _ = (p * kvHeads + (i / (heads / kvHeads) + 1)) * dim := by ring
        _ ≤ (pos * kvHeads + ((heads - 1) / (heads / kvHeads) + 1)) * dim :=
          Nat.mul_le_mul_right dim (Nat.add_le_add (Nat.mul_le_mul_right kvHeads hp) (by omega))
        _ ≤ n := h
    rwa [Nat.mod_eq_of_lt (by omega)]

end Loops

/-! ### Conversions -/

section Conversions

variable {r : Pass}

/-- A positive `int` is the value of the unsigned word. -/
theorem int32_of_pos {u : UInt32} (h : 0 < int32OfU32 u) : int32OfU32 u = u.toNat ∧ u.toNat < 2 ^ 31 := by
  have hlt := (int32OfU32_nonneg_iff u).mp h.le
  exact ⟨int32OfU32_of_lt hlt, hlt⟩

/-- A word that is not zero is no zero `int`. -/
theorem int32_ne_zero {u : UInt32} (h : u.toNat ≠ 0) : int32OfU32 u ≠ 0 := by
  have hlt : u.toNat < 2 ^ 32 := u.toNat_lt
  unfold int32OfU32
  split_ifs <;> omega

theorem toNat_int32_le (u : UInt32) : (int32OfU32 u).toNat ≤ u.toNat := by
  unfold int32OfU32
  split_ifs <;> omega

/-- The features of a row, where the product does not overflow an `int`. -/
theorem numKvFeatures_of_lt (h : r.config.numKvHeads.toNat * r.config.headDim.toNat < 2 ^ 31) :
    r.numKvFeatures = (r.config.numKvHeads.toNat * r.config.headDim.toNat : ℕ) := by
  have hmul : (r.config.numKvHeads * r.config.headDim).toNat =
      r.config.numKvHeads.toNat * r.config.headDim.toNat := by
    rw [UInt32.toNat_mul, Nat.mod_eq_of_lt (by omega)]
  unfold numKvFeatures
  rw [int32OfU32_of_lt (by rwa [hmul]), hmul]

/-- A buffer can be made for the features only if their product does not overflow, where it does not wrap. -/
theorem features_lt_of_runs (hrun : r.Runs)
    (h : r.config.numKvHeads.toNat * r.config.headDim.toNat < 2 ^ 32) :
    r.config.numKvHeads.toNat * r.config.headDim.toNat < 2 ^ 31 := by
  have hlt := (int32OfU32_nonneg_iff _).mp hrun.1
  rwa [UInt32.toNat_mul, Nat.mod_eq_of_lt h] at hlt

theorem kvGroups_of_pos (h : 0 < r.config.numKvHeads.toNat) :
    r.kvGroups = r.config.numHeads.toNat / r.config.numKvHeads.toNat := by
  have hpos : 0 < r.config.numKvHeads := UInt32.lt_iff_toNat_lt.mpr (by simpa using h)
  unfold kvGroups
  rw [if_pos hpos, UInt32.toNat_div]

theorem size_kCache {l : ℕ} (hl : l < r.config.numLayers.toNat) :
    r.size (.kCache l) = layerFloats r.config.toModelConfig r.maxContext := if_pos hl

theorem layerFloats_lt (r : Pass) : layerFloats r.config.toModelConfig r.maxContext < 2 ^ 32 :=
  Nat.mod_lt _ (by decide)

/-- Where there are key features, there are key heads, and they have a dimension. -/
theorem factors_pos (h : 0 < r.numKvFeatures) :
    0 < r.config.numKvHeads.toNat ∧ 0 < r.config.headDim.toNat := by
  have hpos : 0 < (r.config.numKvHeads * r.config.headDim).toNat := by
    have heq := (int32_of_pos h).1
    unfold numKvFeatures at h
    omega
  rw [UInt32.toNat_mul] at hpos
  constructor
  · by_contra hzero
    rw [Nat.eq_zero_of_not_pos hzero, Nat.zero_mul, Nat.zero_mod] at hpos
    exact lt_irrefl 0 hpos
  · by_contra hzero
    rw [Nat.eq_zero_of_not_pos hzero, Nat.mul_zero, Nat.zero_mod] at hpos
    exact lt_irrefl 0 hpos

/-- Without key features a layer of the cache is empty. -/
theorem layerFloats_eq_zero (h : r.numKvFeatures = 0) :
    layerFloats r.config.toModelConfig r.maxContext = 0 := by
  have hlt := (int32OfU32_nonneg_iff _).mp (show 0 ≤ r.numKvFeatures from h.ge)
  have hzero : (r.config.numKvHeads * r.config.headDim).toNat = 0 := by
    unfold numKvFeatures at h
    rw [int32OfU32_of_lt hlt] at h
    omega
  rw [UInt32.toNat_mul] at hzero
  unfold layerFloats
  rw [Nat.mul_assoc, Nat.mul_mod, hzero, Nat.mul_zero, Nat.zero_mod]

/-- A token that is not rejected is an index of the vocabulary. -/
theorem token_nonneg (h : r.rejects = false) : 0 ≤ r.token.toInt := by
  unfold rejects at h
  simp only [Bool.or_eq_false_iff, decide_eq_false_iff_not, not_or] at h
  have hneg := h.1.2.1
  rw [Int32.lt_iff_toInt_lt] at hneg
  exact not_lt.mp hneg

/-- The attention reads the cache only if heads fit each other; the offsets are those of the rows. -/
theorem cache_index (hrun : r.Runs) (hle : r.config.numKvHeads.toNat ≤ r.config.numHeads.toNat)
    (hkv : 0 < r.config.numKvHeads.toNat) {h : ℕ}
    (hquery : r.config.numHeads.toNat * r.config.headDim.toNat ≤ r.config.embeddingLength.toNat) (p : ℕ) :
    (p * r.numKvFeatures + h / r.kvGroups * r.config.headDim.toNat) % 2 ^ 32 =
      ((p * (r.config.numKvHeads.toNat * r.config.headDim.toNat) +
        h / (r.config.numHeads.toNat / r.config.numKvHeads.toNat) * r.config.headDim.toNat) % 2 ^ 32 : ℕ) := by
  have hembedding : r.config.embeddingLength.toNat < 2 ^ 32 := r.config.embeddingLength.toNat_lt
  have hfeatures : r.config.numKvHeads.toNat * r.config.headDim.toNat < 2 ^ 31 :=
    features_lt_of_runs hrun (lt_of_le_of_lt ((Nat.mul_le_mul_right _ hle).trans hquery) hembedding)
  rw [numKvFeatures_of_lt hfeatures, kvGroups_of_pos hkv]
  push_cast
  rfl

end Conversions

/-! ### Dimensions that fit keep a pass inside -/

section Sufficient

variable {r : Pass} {b : Buffer} {i : ℤ}

/-- The elements of a tensor or a buffer that are used are a part of it. -/
theorem inside_of_lt {n size : ℕ} (h : n < size) : 0 ≤ (n : ℤ) ∧ (n : ℤ) < size := ⟨by omega, by omega⟩

/-- The loop of `matvec`. -/
theorem inside_matrix {rows : ℤ} {columns size i j : ℕ} (h : rows.toNat * columns ≤ size) (hi : i < rows)
    (hj : j < columns) : 0 ≤ (i * columns + j : ℤ) ∧ (i * columns + j : ℤ) < size := by
  have hlt := forall_block_lt_iff.mpr h i (by omega) j hj
  have hcast : (i * columns + j : ℤ) = (i * columns + j : ℕ) := by push_cast; rfl
  rw [hcast]
  exact inside_of_lt hlt

/-- The loop of `rmsnorm`. -/
theorem inside_norm {length : ℤ} {size i c : ℕ} (h : (length.toNat + 7) / 8 * 8 ≤ size) (hi : 8 * (i : ℤ) < length)
    (hc : c < 8) : 0 ≤ (8 * i + c : ℤ) ∧ (8 * i + c : ℤ) < size := by
  have hlt := forall_lane_lt_iff.mpr h i (by omega) c hc
  omega

/-- The loop of `rope` over heads of an even dimension. -/
theorem inside_rope {heads dim : ℤ} {size h i c : ℕ} (hfit : heads * dim ≤ size) (heven : dim % 2 = 0)
    (hh : h < heads) (hi : 2 * (i : ℤ) < dim) (hc : c < 2) :
    0 ≤ (h * dim + 2 * i + c : ℤ) ∧ (h * dim + 2 * i + c : ℤ) < size := by
  have hdim : 0 < dim := by omega
  have hoffset : 0 ≤ (h : ℤ) * dim := by positivity
  have hnext : ((h : ℤ) + 1) * dim ≤ heads * dim := Int.mul_le_mul_of_nonneg_right (by omega) hdim.le
  rw [Int.add_mul, Int.one_mul] at hnext
  omega

theorem HeadsFit.kvHeads (h : r.HeadsFit) (hrun : r.Runs) (hdim : 0 < r.headDim)
    (hheads : 0 < r.config.numHeads.toNat) :
    0 < int32OfU32 r.config.numKvHeads ∧ r.config.headDim.toNat % 2 = 0 := by
  obtain ⟨hquery, -⟩ := h.query hdim hheads
  obtain ⟨hkv, hdimPos⟩ := factors_pos h.features
  have hembedding : r.config.embeddingLength.toNat < 2 ^ 32 := r.config.embeddingLength.toNat_lt
  have hfeatures : r.config.numKvHeads.toNat * r.config.headDim.toNat < 2 ^ 31 :=
    features_lt_of_runs hrun (lt_of_le_of_lt ((Nat.mul_le_mul_right _ (h.groups hheads)).trans hquery) hembedding)
  have hkvLt : r.config.numKvHeads.toNat < 2 ^ 31 :=
    lt_of_le_of_lt (Nat.le_mul_of_pos_right _ hdimPos) hfeatures
  have hint : 0 < int32OfU32 r.config.numKvHeads := by
    rw [int32OfU32_of_lt hkvLt]
    omega
  exact ⟨hint, (h.rope hdim hint).1⟩

/-- The queries of all heads are part of the buffer. -/
theorem inside_query (h : r.HeadsFit) (hdim : 0 < r.headDim) {head d : ℕ} (hh : head < r.config.numHeads.toNat)
    (hd : d < r.headDim) : 0 ≤ ((head * r.config.headDim.toNat % 2 ^ 32 : ℕ) + d : ℤ) ∧
      ((head * r.config.headDim.toNat % 2 ^ 32 : ℕ) + d : ℤ) < r.config.embeddingLength.toNat := by
  have heq : r.headDim = r.config.headDim.toNat := (int32_of_pos hdim).1
  have hlt := (forall_head_lt_iff r.config.embeddingLength.toNat_lt).mpr (h.query hdim (by omega)).1 head hh d
    (by omega)
  omega

/-- The rows of the cache that a head reads are part of a layer. -/
theorem inside_cache (h : r.HeadsFit) (hrun : r.Runs) (hdim : 0 < r.headDim) {head p d : ℕ}
    (hh : head < r.config.numHeads.toNat) (hp : p ≤ r.pos) (hd : d < r.headDim) :
    0 ≤ ((p * r.numKvFeatures + head / r.kvGroups * r.config.headDim.toNat) % 2 ^ 32 + d : ℤ) ∧
      ((p * r.numKvFeatures + head / r.kvGroups * r.config.headDim.toNat) % 2 ^ 32 + d : ℤ) <
        layerFloats r.config.toModelConfig r.maxContext := by
  obtain ⟨hquery, hcache⟩ := h.query hdim (by omega)
  have hkv := (factors_pos h.features).1
  have heq : r.headDim = r.config.headDim.toNat := (int32_of_pos hdim).1
  have hle := h.groups (by omega)
  unfold lastKvHead at hcache
  rw [kvGroups_of_pos hkv] at hcache
  have hlt := (forall_cache_lt_iff hkv hle (layerFloats_lt r)).mpr hcache head hh p hp d (by omega)
  rw [cache_index hrun hle hkv hquery p]
  omega

/-- So are the first elements of these rows, of whatever sign the head dimension is. -/
theorem inside_cache_start (h : r.HeadsFit) (hrun : r.Runs) {head p : ℕ} (hh : head < r.config.numHeads.toNat)
    (hp : p ≤ r.pos) : 0 ≤ ((p * r.numKvFeatures + head / r.kvGroups * r.config.headDim.toNat) % 2 ^ 32 : ℤ) ∧
      ((p * r.numKvFeatures + head / r.kvGroups * r.config.headDim.toNat) % 2 ^ 32 : ℤ) <
        layerFloats r.config.toModelConfig r.maxContext := by
  rcases lt_trichotomy r.headDim 0 with hneg | hzero | hpos
  · exact ⟨Int.emod_nonneg _ (by decide), h.starts hneg head hh p hp⟩
  · exact absurd hzero (int32_ne_zero (factors_pos h.features).2.ne')
  · have hfirst := inside_cache h hrun hpos hh hp (d := 0) (by omega)
    rwa [Nat.cast_zero, Int.add_zero] at hfirst

/-- **Dimensions that fit keep a pass inside.** -/
theorem inside_of_consistent (h : r.Consistent) (hreject : r.rejects = false) (hu : r.Uses b i) :
    0 ≤ i ∧ i < r.size b := by
  cases hu with
  | embedding hi =>
    have htoken := token_nonneg hreject
    have hblocks : (0 : ℤ) ≤ r.token.toInt * r.embdBlocks := by positivity
    have hfit := h.embedding.resolve_left (by omega)
    omega
  | norm hrun hl hs hi hc => exact inside_norm ((h.layers hrun _ hl).norms _ hs) hi hc
  | matrix hrun hl hw hi hj => exact inside_matrix ((h.layers hrun _ hl).matrices _ hw) hi hj
  | projectQ hrun hl hi =>
    have hle := toNat_int32_le r.config.embeddingLength
    unfold embeddingLength at hi
    exact inside_of_lt (show _ < r.config.embeddingLength.toNat by omega)
  | projectK hrun hl hi | projectV hrun hl hi => exact inside_of_lt (show _ < r.numKvFeatures.toNat by omega)
  | bias hrun hl hw hpresent hi =>
    have hfit := (h.layers hrun _ hl).biases _ hw hpresent
    exact inside_of_lt (by omega)
  | ropeFreq hrun hl hh hi =>
    have hdim : 0 < r.headDim := by omega
    have heq : r.headDim = r.config.headDim.toNat := (int32_of_pos hdim).1
    have heads := h.heads hrun hl
    have heven : r.config.headDim.toNat % 2 = 0 := by
      rcases hh with hh | hh
      · have hheads := int32_of_pos (u := r.config.numHeads) (by omega)
        exact (heads.kvHeads hrun hdim (by omega)).2
      · exact (heads.rope hdim (by omega)).1
    exact inside_of_lt (show _ < r.config.headDim.toNat / 2 by omega)
  | ropeQ hrun hl hh hi hc =>
    have hdim : 0 < r.headDim := by omega
    have heq : r.headDim = r.config.headDim.toNat := (int32_of_pos hdim).1
    have heads := h.heads hrun hl
    have hheads := int32_of_pos (u := r.config.numHeads) (by omega)
    have heven := (heads.kvHeads hrun hdim (by omega)).2
    refine inside_rope ?_ (by omega) hh hi hc
    rw [hheads.1, heq]
    exact_mod_cast (heads.query hdim (by omega)).1
  | ropeK hrun hl hh hi hc =>
    have hdim : 0 < r.headDim := by omega
    have heq : r.headDim = r.config.headDim.toNat := (int32_of_pos hdim).1
    have hkv := int32_of_pos (u := r.config.numKvHeads) (by omega)
    obtain ⟨heven, hfeatures⟩ := (h.heads hrun hl).rope hdim (by omega)
    refine inside_rope ?_ (by omega) hh hi hc
    have hsize : r.size .k = r.config.numKvHeads.toNat * r.config.headDim.toNat := by
      change r.numKvFeatures.toNat = _
      rw [numKvFeatures_of_lt hfeatures, Int.toNat_natCast]
    rw [hkv.1, heq, hsize]
    push_cast
    exact le_rfl
  -- both caches have the same size
  | storeK hrun hl hfit hi | storeV hrun hl hfit hi =>
    have hoffset : (0 : ℤ) ≤ r.pos * r.numKvFeatures := Int.mul_nonneg (by omega) hrun.1
    change _ ∧ _ < (r.size (.kCache _) : ℤ)
    omega
  | storeKStart hrun hl hfit | storeVStart hrun hl hfit =>
    have hfeatures := (h.heads hrun (by omega)).features
    have hoffset : (0 : ℤ) ≤ r.pos * r.numKvFeatures := Int.mul_nonneg (by omega) hrun.1
    change _ ∧ _ < (r.size (.kCache _) : ℤ)
    omega
  | attendQ hrun hl hh hd | attendOut hrun hl hh hd => exact inside_query (h.heads hrun hl) (by omega) hh hd
  | attendK hrun hl hh hp hd | attendV hrun hl hh hp hd =>
    change _ ∧ _ < (r.size (.kCache _) : ℤ)
    rw [size_kCache hl]
    exact inside_cache (h.heads hrun (by omega)) hrun (by omega) hh hp hd
  | attendKStart hrun hl hh hp | attendVStart hrun hl hh hp =>
    change _ ∧ _ < (r.size (.kCache _) : ℤ)
    rw [size_kCache hl]
    exact inside_cache_start (h.heads hrun (by omega)) hrun hh hp
  | outputQ hrun hl hj hc =>
    have hle := toNat_int32_le r.config.embeddingLength
    change _ ∧ _ < (r.config.embeddingLength.toNat : ℤ)
    unfold blocks embeddingLength at hj
    omega
  | outputNorm hrun hi hc => exact inside_norm (h.outputNorm hrun) hi hc
  | logits hrun hi hj => exact inside_matrix (h.logits hrun) hi hj

/-- **Dimensions that fit keep a pass from dividing by zero.** -/
theorem vanishes_of_consistent (h : r.Consistent) {d : Divisor} (hd : r.DividesBy d) : r.vanishes d = false := by
  cases hd with
  | kvHead hrun hl hh =>
    have heads := h.heads hrun hl
    have hkv := (factors_pos heads.features).1
    have hpos := Nat.div_pos (heads.groups hh) hkv
    simp only [vanishes, beq_eq_false_iff_ne, kvGroups_of_pos hkv]
    omega
  | score hrun hl hh =>
    have hdim := (factors_pos (h.heads hrun hl).features).2
    simp only [vanishes, beq_eq_false_iff_ne]
    exact int32_ne_zero hdim.ne'
  | softmax hrun hl hh => exact (h.floats hrun).sums _ hl _ hh
  | mean hrun =>
    simp only [vanishes, beq_eq_false_iff_ne]
    exact int32_ne_zero (h.normSize hrun)
  | scale hrun hn => exact (h.floats hrun).roots _ hn

end Sufficient

/-! ### A pass that stays inside has dimensions that fit -/

section Necessary

variable {r : Pass}

/-- All elements that a pass uses are there. -/
def Inside (r : Pass) : Prop := ∀ b i, r.Uses b i → 0 ≤ i ∧ i < r.size b

/-- A loop from the beginning of a buffer that stays inside has its elements. -/
theorem length_le_of_forall_lt {length : ℤ} {size : ℕ} (h : ∀ i : ℕ, (i : ℤ) < length → (i : ℤ) < size) :
    length.toNat ≤ size := by
  rcases Nat.eq_zero_or_pos length.toNat with hzero | hpos
  · omega
  · have hlast := h (length.toNat - 1) (by omega)
    omega

theorem Inside.layerFits (h : r.Inside) (hrun : r.Runs) {l : ℕ} (hl : l < r.config.numLayers.toNat) :
    r.LayerFits l where
  norms suffix hs := forall_lane_lt_iff.mp fun i hi c hc => by
    have hlt := (h _ _ (.norm hrun hl hs (by omega : 8 * (i : ℤ) < _) hc)).2
    omega
  matrices w hw := forall_block_lt_iff.mp fun i hi j hj => by
    have hlt := (h _ _ (.matrix hrun hl hw (by omega : (i : ℤ) < _) hj)).2
    exact_mod_cast hlt
  biases w hw hpresent := length_le_of_forall_lt fun i hi => (h _ _ (.bias hrun hl hw hpresent hi)).2

theorem Inside.query (h : r.Inside) (hrun : r.Runs) (hl : 0 < r.config.numLayers.toNat) (hdim : 0 < r.headDim) :
    r.config.numHeads.toNat * r.config.headDim.toNat ≤ r.config.embeddingLength.toNat := by
  have heq : r.headDim = r.config.headDim.toNat := (int32_of_pos hdim).1
  refine (forall_head_lt_iff r.config.embeddingLength.toNat_lt).mp fun head hh d hd => ?_
  have hlt := (h _ _ (.attendQ hrun hl hh (by omega : (d : ℤ) < _))).2
  change _ < (r.config.embeddingLength.toNat : ℤ) at hlt
  omega

/-- A layer needs key features: without them its cache is empty, and the store takes the address of an element of it. -/
theorem Inside.features (h : r.Inside) (hrun : r.Runs) (hl : 0 < r.config.numLayers.toNat) : 0 < r.numKvFeatures := by
  by_contra hnone
  have hzero : r.numKvFeatures = 0 := le_antisymm (not_lt.mp hnone) hrun.1
  have hfit : r.pos * r.numKvFeatures + r.numKvFeatures ≤ r.size (.kCache 0) := by
    rw [hzero]
    omega
  have hlt := (h _ _ (.storeKStart hrun hl hfit)).2
  rw [hzero, Int.mul_zero, size_kCache hl, layerFloats_eq_zero hzero] at hlt
  exact lt_irrefl _ hlt

theorem Inside.cache (h : r.Inside) (hrun : r.Runs) (hl : 0 < r.config.numLayers.toNat) (hdim : 0 < r.headDim)
    (hkv : 0 < r.config.numKvHeads.toNat) (hle : r.config.numKvHeads.toNat ≤ r.config.numHeads.toNat) :
    (r.pos * r.config.numKvHeads.toNat + (r.lastKvHead + 1)) * r.config.headDim.toNat ≤
      layerFloats r.config.toModelConfig r.maxContext := by
  have heq : r.headDim = r.config.headDim.toNat := (int32_of_pos hdim).1
  unfold lastKvHead
  rw [kvGroups_of_pos hkv]
  refine (forall_cache_lt_iff hkv hle (layerFloats_lt r)).mp fun head hh p hp d hd => ?_
  have hlt := (h _ _ (.attendK hrun hl hh hp (by omega : (d : ℤ) < _))).2
  rw [size_kCache hl, cache_index hrun hle hkv (h.query hrun hl hdim) p] at hlt
  omega

theorem Inside.rope (h : r.Inside) (hrun : r.Runs) (hl : 0 < r.config.numLayers.toNat) (hdim : 0 < r.headDim)
    (hkv : 0 < int32OfU32 r.config.numKvHeads) :
    r.config.headDim.toNat % 2 = 0 ∧ r.config.numKvHeads.toNat * r.config.headDim.toNat < 2 ^ 31 := by
  have heq : r.headDim = r.config.headDim.toNat := (int32_of_pos hdim).1
  have hkvEq := (int32_of_pos hkv).1
  have heven : r.config.headDim.toNat % 2 = 0 := by
    -- the last angle of an odd dimension is not there
    by_contra hodd
    have hlt := (h _ _ (.ropeFreq hrun hl (i := r.config.headDim.toNat / 2) (Or.inr hkv) (by omega))).2
    change _ < ((r.config.headDim.toNat / 2 : ℕ) : ℤ) at hlt
    omega
  refine ⟨heven, ?_⟩
  have hlt := (h _ _ (.ropeK hrun hl (h := r.config.numKvHeads.toNat - 1) (i := r.config.headDim.toNat / 2 - 1)
    (c := 1) (by omega) (by omega) (by omega))).2
  change _ < (r.numKvFeatures.toNat : ℤ) at hlt
  have hfeatures := (isInt32_int32OfU32 (r.config.numKvHeads * r.config.headDim)).2
  have hrow : ((r.config.numKvHeads.toNat - 1 : ℕ) : ℤ) * r.headDim + r.headDim =
      (r.config.numKvHeads.toNat * r.config.headDim.toNat : ℕ) := by
    rw [heq, Nat.cast_sub (by omega)]
    push_cast
    ring
  unfold numKvFeatures at hlt
  omega

/-- No divisor of a pass is zero. -/
def NoZeroDivisor (r : Pass) : Prop := ∀ d, r.DividesBy d → r.vanishes d = false

/-- Heads are divided by the groups, so there are at least as many as key heads. -/
theorem NoZeroDivisor.groups (h : r.NoZeroDivisor) (hrun : r.Runs) (hl : 0 < r.config.numLayers.toNat)
    (hkv : 0 < r.config.numKvHeads.toNat) (hheads : 0 < r.config.numHeads.toNat) :
    r.config.numKvHeads.toNat ≤ r.config.numHeads.toNat := by
  have hne := h _ (.kvHead hrun hl hheads)
  simp only [vanishes, beq_eq_false_iff_ne, kvGroups_of_pos hkv] at hne
  by_contra hlt
  exact hne (Nat.div_eq_of_lt (not_le.mp hlt))

theorem Inside.headsFit (h : r.Inside) (hdiv : r.NoZeroDivisor) (hrun : r.Runs) (hl : 0 < r.config.numLayers.toNat) :
    r.HeadsFit := by
  have hfeatures := h.features hrun hl
  have hkv := (factors_pos hfeatures).1
  have hgroups := hdiv.groups hrun hl hkv
  refine ⟨hfeatures, hgroups, fun hdim hheads => ?_, fun hneg head hh p hp => ?_, h.rope hrun hl⟩
  · exact ⟨h.query hrun hl hdim, h.cache hrun hl hdim hkv (hgroups hheads)⟩
  · have hlt := (h _ _ (.attendKStart hrun hl hh hp)).2
    rwa [size_kCache hl] at hlt

/-- The size of a norm is not zero. -/
theorem NoZeroDivisor.embedding_ne_zero (h : r.NoZeroDivisor) (hrun : r.Runs) :
    r.config.embeddingLength.toNat ≠ 0 := by
  intro hzero
  have hne := h _ (.mean hrun)
  simp only [vanishes, beq_eq_false_iff_ne, embeddingLength] at hne
  rw [int32OfU32_of_lt (by omega), hzero] at hne
  exact hne rfl

theorem NoZeroDivisor.floats (h : r.NoZeroDivisor) (hrun : r.Runs) : r.NonzeroFloats where
  roots _ hn := h _ (.scale hrun hn)
  sums _ hl _ hh := h _ (.softmax hrun hl hh)

/-- **A pass that stays inside has dimensions that fit.** -/
theorem Inside.consistent (h : r.Inside) (hdiv : r.NoZeroDivisor) : r.Consistent where
  embedding := by
    refine or_iff_not_imp_left.mpr fun hne => ?_
    have hlt := (h _ _ (.embedding (i := r.embdBlocks - 1) (by omega))).2
    omega
  layers hrun _ hl := h.layerFits hrun hl
  heads hrun hl := h.headsFit hdiv hrun hl
  outputNorm hrun := forall_lane_lt_iff.mp fun i hi c hc => by
    have hlt := (h _ _ (.outputNorm hrun (by omega : 8 * (i : ℤ) < _) hc)).2
    omega
  logits hrun := forall_block_lt_iff.mp fun i hi j hj => by
    have hlt := (h _ _ (.logits hrun (by omega : (i : ℤ) < _) hj)).2
    exact_mod_cast hlt
  normSize := hdiv.embedding_ne_zero
  floats := hdiv.floats

end Necessary

/-- **A pass stays in bounds** exactly when it returns false, or its dimensions fit. -/
theorem inBounds_iff (r : Pass) : r.InBounds ↔ (r.rejects = true ∨ r.Consistent) := by
  constructor
  · rintro (hreject | ⟨hinside, hdiv⟩)
    · exact Or.inl hreject
    · exact Or.inr (Inside.consistent hinside hdiv)
  · intro h
    rcases Bool.eq_false_or_eq_true r.rejects with hreject | haccept
    · exact Or.inl hreject
    · have hfit := h.resolve_left (by simp [haccept])
      exact Or.inr ⟨fun b i hu => inside_of_consistent hfit haccept hu, fun d hd => vanishes_of_consistent hfit hd⟩

/-- A file with one layer, a vocabulary of one token, and no tensor but the embedding table. -/
def embeddingFile : File where
  entries := [wordEntry ⟨ascii "llama.block_count", by decide +kernel⟩ 1,
    wordEntry ⟨ascii "llama.embedding_length", by decide +kernel⟩ 32,
    ⟨⟨ascii "tokenizer.ggml.tokens", by decide +kernel⟩, .ARRAY,
      .array .STRING 1 fun _ => .string ⟨ascii "hi", by decide +kernel⟩⟩]
  tensors := [⟨⟨tokenEmbd, by decide +kernel⟩, [32, 1], by decide, 8, 0⟩]
  data := List.replicate 64 0
  keys := by decide +kernel
  names := by decide +kernel
  size := by decide +kernel

/-- The first pass of the file's model, in which no float vanishes. -/
def embeddingPass (m : DenseModel) : Pass := ⟨m, false, 1, 0, 0, ⟨fun _ => false, fun _ _ => false⟩⟩

/-- The file is loaded, and its first pass reads the norm of the layer, which it does not have. -/
theorem not_inBounds_embeddingFile : ∃ m, loadGgufModel embeddingFile.encode (fun _ => true) = .ok (true, m) ∧
    ¬ (embeddingPass m).InBounds := by
  have hplain : NoAlignment embeddingFile.entries := by
    unfold NoAlignment
    decide +kernel
  have hload := load_encode embeddingFile (fun _ _ => rfl : Ample embeddingFile.encode fun _ => true) hplain
  rw [finish_loaded (nothingFollows_of_noAlignment hplain _) ⟨by decide +kernel, by decide +kernel⟩
    fun _ => rfl] at hload
  refine ⟨loadedModel embeddingFile, hload, ?_⟩
  -- the model is built once for all facts
  have hmodel : (embeddingPass (loadedModel embeddingFile)).rejects = false ∧
      0 ≤ (embeddingPass (loadedModel embeddingFile)).numKvFeatures ∧
      0 ≤ (embeddingPass (loadedModel embeddingFile)).mlpHiddenDim ∧
      0 < (embeddingPass (loadedModel embeddingFile)).config.numLayers.toNat ∧
      0 < (embeddingPass (loadedModel embeddingFile)).embeddingLength ∧
      (embeddingPass (loadedModel embeddingFile)).size (.weight (layerName 0 (ascii "attn_norm.weight"))) = 0 := by
    decide +kernel
  obtain ⟨haccept, hkv, hhidden, hlayers, hlength, hsize⟩ := hmodel
  rintro (hreject | ⟨hinside, -⟩)
  · rw [haccept] at hreject
    cases hreject
  · have huse : (embeddingPass (loadedModel embeddingFile)).Uses
        (.weight (layerName 0 (ascii "attn_norm.weight"))) (8 * (0 : ℕ) + (0 : ℕ)) :=
      .norm ⟨hkv, hhidden, fun h => by cases h⟩ hlayers List.mem_cons_self hlength (by decide)
    have hlt := (hinside _ _ huse).2
    rw [hsize] at hlt
    exact absurd hlt (by decide)

end Pass

end DenseLite.Infer.Forward
