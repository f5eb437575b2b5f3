import DenseLite.Lib.ByteStream
import DenseLite.Lib.FlatRows
import Mathlib.Data.List.Induction

/-! # The model and the inference state

The configuration and tensors of a loaded model (`model.hpp`), the state of one generation with its
KV cache (`infer.hpp`), `initInferenceState` and `forwardPass` (`infer.cpp`).

Floats are their 32-bit patterns; what the transformer computes from them stays a parameter: `kv`
of a `DenseModel` gives, from the RoPE table, the token and the rows below the current position, the
K and V rows that every layer stores. A layer of the cache is a pair of flat vectors, so how many
rows it has room for depends on the length `init_inference_state` gave it. -/

namespace DenseLite.Infer.State

open DenseLite.Lib.ByteStream DenseLite.Lib.FlatRows

/-- A token id, an `int` of the source. -/
abbrev Token := Int32

/-- A float, as its bit pattern. -/
abbrev F32 := UInt32

/-- An ASCII string of the source, as bytes. -/
def ascii (s : String) : Bytes := s.toList.map fun c => UInt8.ofNat c.toNat

/-- The bytes from the characters, without a way through UTF-8: closed texts evaluate much faster so. -/
theorem ascii_ofList (l : List Char) : ascii (String.ofList l) = l.map fun c => UInt8.ofNat c.toNat := by
  rw [ascii, String.toList_ofList]

/-! ### The model -/

/-- `TensorType`: the representations the file format knows, and any other number. -/
inductive TensorType
  | FP32 | FP16 | Q4_0 | Q4_1 | Q5_0 | Q5_1 | Q8_0 | Q8_1 | Q2_K | Q3_K | Q4_K | Q5_K | Q6_K | Q8_K
  | unknown (t : UInt32)
deriving DecidableEq, Repr

/-- `name.find(part) != npos`. -/
def occursIn (part name : Bytes) : Bool := name.tails.any fun t => part.isPrefixOf t

/-- `native_tensor_supported`: FP32 for norms and biases, Q4_0 or Q8_0 for matrices. -/
def nativeTensorSupported (name : Bytes) (type : TensorType) : Bool :=
  if occursIn (ascii "norm.weight") name || (ascii ".bias").isSuffixOf name then type = .FP32
  else type = .Q4_0 ∨ type = .Q8_0

/-- `ModelConfig`, as far as inference and the session cache read it. -/
structure ModelConfig where
  architecture : Bytes := []
  modelId : Bytes := []
  contextLength : UInt32 := 0
  numLayers : UInt32 := 0
  numHeads : UInt32 := 0
  numKvHeads : UInt32 := 0
  headDim : UInt32 := 0
  intermediateDim : UInt32 := 0
  vocabSize : UInt32 := 0
  eosTokenId : Token := -1
  ropeBase : F32 := 0
deriving DecidableEq, Repr

/-- The floats of one K or V row: `num_kv_heads * head_dim`, a 32-bit product. -/
def ModelConfig.numKvFeatures (c : ModelConfig) : ℕ := (c.numKvHeads * c.headDim).toNat

/-- The floats `init_inference_state` gives a layer: `max_context * num_kv_heads * head_dim` in
32-bit arithmetic. -/
def layerFloats (c : ModelConfig) (maxContext : ℤ) : ℕ :=
  (maxContext % 2 ^ 32).toNat * c.numKvHeads.toNat * c.headDim.toNat % 2 ^ 32

/-- One position of the cache: the K row and the V row of every layer. -/
abbrev KVRow := List (List F32 × List F32)

/-- The table `inv_freq`, as the data it is computed from: the context enters only when it is
long enough for the NTK scaling. -/
structure RopeTable where
  headDim : UInt32 := 0
  base : F32 := 0
  scaleContext : Option ℤ := none
deriving DecidableEq, Repr

/-- The table `init_inference_state` computes. -/
def ropeTable (c : ModelConfig) (maxContext : ℤ) : RopeTable where
  headDim := c.headDim
  base := c.ropeBase
  scaleContext := if 8192 < maxContext ∧ 2 < c.headDim then some maxContext else none

/-- A loaded model: its configuration, the strings of its vocabulary, the types of its tensors, and
what its layers compute. -/
structure DenseModel where
  config : ModelConfig
  vocabTokens : List Bytes
  tensors : List (Bytes × TensorType)
  kv : RopeTable → Token → List KVRow → KVRow
  kv_length : ∀ rope t below, (kv rope t below).length = config.numLayers.toNat
  kv_width : ∀ rope t below, ∀ r ∈ kv rope t below,
    r.1.length = config.numKvFeatures ∧ r.2.length = config.numKvFeatures

/-! ### The cache -/

/-- One layer of the cache: `k_cache[l]` and `v_cache[l]`. -/
structure LayerCache where
  k : List F32
  v : List F32
deriving DecidableEq, Repr

/-- A layer of `n` zeros on both sides. -/
def zeroLayer (n : ℕ) : LayerCache := ⟨List.replicate n 0, List.replicate n 0⟩

/-- The rows of all layers at position `p`, each `w` floats wide. -/
def kvRowAt (w p : ℕ) (cache : List LayerCache) : KVRow :=
  cache.map fun c => (row w p c.k, row w p c.v)

/-- The rows below position `n`. -/
def rowsUpTo (w n : ℕ) (cache : List LayerCache) : List KVRow :=
  (List.range n).map fun p => kvRowAt w p cache

/-- A row of zeros in `layers` layers. -/
def zeroRow (w layers : ℕ) : KVRow :=
  List.replicate layers (List.replicate w 0, List.replicate w 0)

/-- The store of `forward_pass` in one layer: skipped when the row does not fit `k_cache[l]`. -/
def LayerCache.store (w pos : ℕ) (r : List F32 × List F32) (c : LayerCache) : LayerCache :=
  if pos * w + w ≤ c.k.length then ⟨setRow w pos r.1 c.k, setRow w pos r.2 c.v⟩ else c

/-- The stores of `forward_pass`, layer by layer. -/
def storeRow (w pos : ℕ) : List LayerCache → KVRow → List LayerCache
  | c :: cs, r :: rs => c.store w pos r :: storeRow w pos cs rs
  | cs, _ => cs

/-- `cache` has `layers` layers, each with `cap` floats on both sides. -/
structure Shaped (layers cap : ℕ) (cache : List LayerCache) : Prop where
  length : cache.length = layers
  size : ∀ c ∈ cache, c.k.length = cap ∧ c.v.length = cap

/-! ### The inference state -/

/-- `InferenceState`, without the activations of the current token. -/
structure InferenceState where
  cache : List LayerCache := []
  invFreq : RopeTable := {}
  currentPos : ℤ := 0
deriving DecidableEq, Repr

/-- `init_inference_state`. The cache is resized, so layers that are there keep their vectors. This is
the state it leaves when `InvFreqInBounds`; elsewhere it writes past the end of `inv_freq`, and what the
source does is undefined. -/
def initInferenceState (c : ModelConfig) (maxContext : ℤ) (st : InferenceState) : InferenceState where
  cache := resize c.numLayers.toNat (zeroLayer (layerFloats c maxContext)) st.cache
  invFreq := ropeTable c maxContext
  currentPos := 0

/-- The writes of `init_inference_state` to `inv_freq[i / 2]`, for `i = 0, 2, ..` below `(int)head_dim`,
are inside the `head_dim / 2` entries of the table; `rope` reads the same entries. -/
def InvFreqInBounds (c : ModelConfig) : Prop :=
  ∀ i < (int32OfU32 c.headDim).toNat, i % 2 = 0 → i / 2 < c.headDim.toNat / 2

/-- The head dimension is even, or no positive `int`, so that the loop makes no step. -/
def EvenHead (c : ModelConfig) : Prop := c.headDim.toNat % 2 = 0 ∨ 2 ^ 31 ≤ c.headDim.toNat

instance (c : ModelConfig) : Decidable (EvenHead c) := inferInstanceAs (Decidable (_ ∨ _))

/-- **`inv_freq` is written inside** exactly for even head dimensions: an odd one has a step more than
the table has entries. -/
theorem invFreqInBounds_iff {c : ModelConfig} : InvFreqInBounds c ↔ EvenHead c := by
  unfold InvFreqInBounds EvenHead
  constructor
  · intro h
    by_contra hne
    obtain ⟨hodd, hlt⟩ := not_or.mp hne
    have hint : (int32OfU32 c.headDim).toNat = c.headDim.toNat := by
      rw [int32OfU32_of_lt (by omega), Int.toNat_natCast]
    have hlast := h (c.headDim.toNat - 1) (by omega) (by omega)
    omega
  · rintro (heven | hbig) i hi hstep
    · have hle : (int32OfU32 c.headDim).toNat ≤ c.headDim.toNat := by
        unfold int32OfU32
        omega
      omega
    · have hneg : (int32OfU32 c.headDim).toNat = 0 := by
        have hnot := mt (int32OfU32_nonneg_iff c.headDim).mp (by omega)
        omega
      omega

instance (c : ModelConfig) : Decidable (InvFreqInBounds c) := decidable_of_iff _ invFreqInBounds_iff.symm

/-- The checks `forward_pass` makes before it computes anything: tensor types, the token id, and the
embedding table. -/
def forwardRejects (m : DenseModel) (token : Token) : Bool :=
  m.tensors.any (fun e => !nativeTensorSupported e.1 e.2) ||
  decide (token < 0 ∨ Int32.ofUInt32 m.config.vocabSize ≤ token) ||
  match m.tensors.lookup (ascii "token_embd.weight") with
  | none => true
  | some type => !(type = .Q4_0 ∨ type = .Q8_0)

/-- The cache after the stores of a pass: the rows of `token`, computed from the rows below, at the
current position. The offsets are `int` products, exact as long as they stay below `2 ^ 31`. -/
def storedCache (m : DenseModel) (st : InferenceState) (token : Token) : List LayerCache :=
  let w := m.config.numKvFeatures
  let pos := st.currentPos.toNat
  storeRow w pos st.cache (m.kv st.invFreq token (rowsUpTo w pos st.cache))

/-- `forward_pass`: `none` when it returns false. -/
def forwardPass (m : DenseModel) (st : InferenceState) (token : Token) : Option InferenceState :=
  if forwardRejects m token then none else some { st with cache := storedCache m st token }

/-! ### Shapes -/

theorem shaped_replicate (layers cap : ℕ) : Shaped layers cap (List.replicate layers (zeroLayer cap)) where
  length := List.length_replicate
  size c hc := by
    rw [List.eq_of_mem_replicate hc]
    simp [zeroLayer]

theorem length_storeRow (w pos : ℕ) : ∀ (cache : List LayerCache) (r : KVRow),
    (storeRow w pos cache r).length = cache.length
  | [], _ => by simp [storeRow]
  | _ :: _, [] => by simp [storeRow]
  | c :: cs, r :: rs => by rw [storeRow, List.length_cons, length_storeRow w pos cs rs, List.length_cons]

theorem store_size {w pos cap : ℕ} {r : List F32 × List F32} {c : LayerCache}
    (hr : r.1.length = w ∧ r.2.length = w) (hc : c.k.length = cap ∧ c.v.length = cap) :
    (c.store w pos r).k.length = cap ∧ (c.store w pos r).v.length = cap := by
  unfold LayerCache.store
  split_ifs with hfit
  · rw [length_setRow hr.1 hfit, length_setRow hr.2 (by rw [hc.2, ← hc.1]; exact hfit)]
    exact hc
  · exact hc

theorem storeRow_size {w pos cap : ℕ} : ∀ {cache : List LayerCache} {r : KVRow},
    (∀ x ∈ r, x.1.length = w ∧ x.2.length = w) →
    (∀ c ∈ cache, c.k.length = cap ∧ c.v.length = cap) →
    ∀ c ∈ storeRow w pos cache r, c.k.length = cap ∧ c.v.length = cap
  | [], _, _, _ => by simp [storeRow]
  | _ :: _, [], _, hc => by simpa [storeRow] using hc
  | c :: cs, r :: rs, hr, hc => by
    intro d hd
    rw [storeRow] at hd
    rcases List.mem_cons.mp hd with rfl | hd
    · exact store_size (hr r (by simp)) (hc c (by simp))
    · exact storeRow_size (fun x hx => hr x (by simp [hx])) (fun e he => hc e (by simp [he])) d hd

theorem Shaped.storeRow {layers cap w pos : ℕ} {cache : List LayerCache} {r : KVRow}
    (h : Shaped layers cap cache) (hr : ∀ x ∈ r, x.1.length = w ∧ x.2.length = w) :
    Shaped layers cap (storeRow w pos cache r) where
  length := by rw [length_storeRow, h.length]
  size := storeRow_size hr h.size

/-! ### Rows after a store -/

theorem row_store_ne {w pos cap p : ℕ} {r : List F32 × List F32} {c : LayerCache}
    (hr : r.1.length = w ∧ r.2.length = w) (hc : c.k.length = cap ∧ c.v.length = cap) (hne : p ≠ pos) :
    row w p (c.store w pos r).k = row w p c.k ∧ row w p (c.store w pos r).v = row w p c.v := by
  unfold LayerCache.store
  split_ifs with hfit
  · exact ⟨row_setRow_ne hr.1 hfit hne, row_setRow_ne hr.2 (by rw [hc.2, ← hc.1]; exact hfit) hne⟩
  · exact ⟨rfl, rfl⟩

theorem row_store_self {w pos cap : ℕ} {r : List F32 × List F32} {c : LayerCache}
    (hr : r.1.length = w ∧ r.2.length = w) (hc : c.k.length = cap ∧ c.v.length = cap)
    (hfit : pos * w + w ≤ cap) :
    row w pos (c.store w pos r).k = r.1 ∧ row w pos (c.store w pos r).v = r.2 := by
  unfold LayerCache.store
  rw [if_pos (by omega)]
  exact ⟨row_setRow_self hr.1 (by omega), row_setRow_self hr.2 (by omega)⟩

theorem kvRowAt_storeRow_ne {w pos cap p : ℕ} (hne : p ≠ pos) : ∀ {cache : List LayerCache} {r : KVRow},
    (∀ x ∈ r, x.1.length = w ∧ x.2.length = w) →
    (∀ c ∈ cache, c.k.length = cap ∧ c.v.length = cap) →
    kvRowAt w p (storeRow w pos cache r) = kvRowAt w p cache
  | [], _, _, _ => by simp [storeRow]
  | _ :: _, [], _, _ => by simp [storeRow]
  | c :: cs, r :: rs, hr, hc => by
    have hhd := row_store_ne (hr r (by simp)) (hc c (by simp)) hne
    have htl : kvRowAt w p (storeRow w pos cs rs) = kvRowAt w p cs :=
      kvRowAt_storeRow_ne hne (fun x hx => hr x (by simp [hx])) fun e he => hc e (by simp [he])
    unfold kvRowAt at htl ⊢
    rw [storeRow, List.map_cons, List.map_cons, htl, hhd.1, hhd.2]

theorem kvRowAt_storeRow_self {w pos cap : ℕ} (hfit : pos * w + w ≤ cap) :
    ∀ {cache : List LayerCache} {r : KVRow}, r.length = cache.length →
    (∀ x ∈ r, x.1.length = w ∧ x.2.length = w) →
    (∀ c ∈ cache, c.k.length = cap ∧ c.v.length = cap) →
    kvRowAt w pos (storeRow w pos cache r) = r
  | [], [], _, _, _ => rfl
  | c :: cs, r :: rs, hl, hr, hc => by
    have hhd := row_store_self (hr r (by simp)) (hc c (by simp)) hfit
    have htl : kvRowAt w pos (storeRow w pos cs rs) = rs :=
      kvRowAt_storeRow_self hfit (by simpa using hl) (fun x hx => hr x (by simp [hx]))
        fun e he => hc e (by simp [he])
    unfold kvRowAt at htl ⊢
    rw [storeRow, List.map_cons, htl, hhd.1, hhd.2]

@[simp] theorem length_rowsUpTo (w n : ℕ) (cache : List LayerCache) :
    (rowsUpTo w n cache).length = n := by
  simp [rowsUpTo]

theorem rowsUpTo_succ (w n : ℕ) (cache : List LayerCache) :
    rowsUpTo w (n + 1) cache = rowsUpTo w n cache ++ [kvRowAt w n cache] := by
  simp [rowsUpTo, List.range_succ]

theorem take_rowsUpTo {w k n : ℕ} (h : k ≤ n) (cache : List LayerCache) :
    (rowsUpTo w n cache).take k = rowsUpTo w k cache := by
  rw [rowsUpTo, ← List.map_take, List.take_range, Nat.min_eq_left h, rowsUpTo]

theorem getElem?_rowsUpTo {w n p : ℕ} (h : p < n) (cache : List LayerCache) :
    (rowsUpTo w n cache)[p]? = some (kvRowAt w p cache) := by
  simp [rowsUpTo, h]

theorem rowsUpTo_congr {w n : ℕ} {cache cache' : List LayerCache}
    (h : ∀ p < n, kvRowAt w p cache = kvRowAt w p cache') :
    rowsUpTo w n cache = rowsUpTo w n cache' :=
  List.map_congr_left fun p hp => h p (List.mem_range.mp hp)

theorem kvRowAt_eq_of_rowsUpTo {w n p : ℕ} {cache cache' : List LayerCache}
    (h : rowsUpTo w n cache = rowsUpTo w n cache') (hp : p < n) :
    kvRowAt w p cache = kvRowAt w p cache' := by
  have := congrArg (·[p]?) h
  simpa [getElem?_rowsUpTo hp] using this

/-! ### What a fresh prefill writes -/

/-- The rows a prefill of `ts` into an empty cache writes. -/
def freshRows (m : DenseModel) (rope : RopeTable) (ts : List Token) : List KVRow :=
  ts.foldl (fun rows t => rows ++ [m.kv rope t rows]) []

@[simp] theorem freshRows_nil (m : DenseModel) (rope : RopeTable) : freshRows m rope [] = [] := rfl

theorem freshRows_concat (m : DenseModel) (rope : RopeTable) (ts : List Token) (t : Token) :
    freshRows m rope (ts ++ [t]) = freshRows m rope ts ++ [m.kv rope t (freshRows m rope ts)] := by
  simp [freshRows, List.foldl_append]

@[simp] theorem length_freshRows (m : DenseModel) (rope : RopeTable) (ts : List Token) :
    (freshRows m rope ts).length = ts.length := by
  induction ts using List.reverseRecOn with
  | nil => rfl
  | append_singleton ts t ih => simp [freshRows_concat, ih]

theorem take_freshRows (m : DenseModel) (rope : RopeTable) (ts : List Token) (n : ℕ) :
    (freshRows m rope ts).take n = freshRows m rope (ts.take n) := by
  induction ts using List.reverseRecOn generalizing n with
  | nil => simp
  | append_singleton ts t ih =>
    rcases Nat.lt_or_ge ts.length n with hn | hn
    · rw [List.take_of_length_le (by simp; omega), List.take_of_length_le (by simp; omega)]
    · rw [freshRows_concat, List.take_append_of_le_length (by simpa using hn),
        List.take_append_of_le_length hn, ih]

/-- Row `p` of a prefill comes from token `p` and the prefill of the tokens before it. -/
theorem getElem?_freshRows (m : DenseModel) (rope : RopeTable) {ts : List Token} {p : ℕ} {t : Token}
    (ht : ts[p]? = some t) :
    (freshRows m rope ts)[p]? = some (m.kv rope t (freshRows m rope (ts.take p))) := by
  have hp : p < ts.length := (List.getElem?_eq_some_iff.mp ht).1
  have htake : ts.take (p + 1) = ts.take p ++ [t] := by
    rw [List.take_add_one, ht]
    rfl
  rw [← List.getElem?_take_of_lt (Nat.lt_succ_self p), take_freshRows, htake, freshRows_concat,
    List.getElem?_append_right (by simp)]
  simp [Nat.min_eq_left (Nat.le_of_lt hp)]

/-! ### The cache describes a list of tokens -/

/-- The first `ts.length` rows of the cache are those of a fresh prefill of `ts`. -/
def Filled (m : DenseModel) (rope : RopeTable) (cache : List LayerCache) (ts : List Token) : Prop :=
  rowsUpTo m.config.numKvFeatures ts.length cache = freshRows m rope ts

theorem filled_nil (m : DenseModel) (rope : RopeTable) (cache : List LayerCache) :
    Filled m rope cache [] := rfl

theorem Filled.take {m : DenseModel} {rope : RopeTable} {cache : List LayerCache} {ts : List Token}
    (h : Filled m rope cache ts) (n : ℕ) : Filled m rope cache (ts.take n) := by
  unfold Filled at h ⊢
  rw [← take_freshRows, ← h, List.length_take]
  rcases Nat.le_total n ts.length with hn | hn
  · rw [Nat.min_eq_left hn, take_rowsUpTo hn]
  · rw [Nat.min_eq_right hn, List.take_of_length_le (by simpa using hn)]

theorem Filled.of_prefix {m : DenseModel} {rope : RopeTable} {cache : List LayerCache}
    {ts known : List Token} (h : Filled m rope cache known) (hts : ts <+: known) :
    Filled m rope cache ts := by
  rw [List.prefix_iff_eq_take.mp hts]
  exact h.take _

theorem Filled.congr {m : DenseModel} {rope : RopeTable} {cache cache' : List LayerCache}
    {ts : List Token} (h : Filled m rope cache ts)
    (hrows : ∀ p < ts.length,
      kvRowAt m.config.numKvFeatures p cache' = kvRowAt m.config.numKvFeatures p cache) :
    Filled m rope cache' ts := by
  unfold Filled at h ⊢
  rw [← h]
  exact rowsUpTo_congr hrows

theorem filled_concat_iff {m : DenseModel} {rope : RopeTable} {cache : List LayerCache}
    {ts : List Token} {t : Token} :
    Filled m rope cache (ts ++ [t]) ↔ Filled m rope cache ts ∧
      kvRowAt m.config.numKvFeatures ts.length cache = m.kv rope t (freshRows m rope ts) := by
  unfold Filled
  rw [List.length_append, List.length_singleton, rowsUpTo_succ, freshRows_concat]
  constructor
  · intro h
    obtain ⟨h1, h2⟩ := List.append_inj h (by simp)
    exact ⟨h1, by simpa using h2⟩
  · rintro ⟨h1, h2⟩
    rw [h1, h2]

/-! ### One forward pass -/

theorem forwardPass_eq_none_iff {m : DenseModel} {st : InferenceState} {t : Token} :
    forwardPass m st t = none ↔ forwardRejects m t = true := by
  unfold forwardPass
  split_ifs with h <;> simp [h]

/-- What a pass that is not rejected does. -/
theorem forwardPass_eq_some {m : DenseModel} {st st' : InferenceState} {t : Token}
    (h : forwardPass m st t = some st') :
    st' = { st with cache := storedCache m st t } := by
  unfold forwardPass at h
  split_ifs at h
  exact (Option.some.inj h).symm

/-- A pass changes no row but the one at the current position. -/
theorem forwardPass_row_ne {m : DenseModel} {st st' : InferenceState} {t : Token} {layers cap p : ℕ}
    (h : forwardPass m st t = some st') (hs : Shaped layers cap st.cache)
    (hne : p ≠ st.currentPos.toNat) :
    kvRowAt m.config.numKvFeatures p st'.cache = kvRowAt m.config.numKvFeatures p st.cache := by
  rw [forwardPass_eq_some h]
  exact kvRowAt_storeRow_ne hne (m.kv_width _ _ _) hs.size

theorem forwardPass_shaped {m : DenseModel} {st st' : InferenceState} {t : Token} {layers cap : ℕ}
    (h : forwardPass m st t = some st') (hs : Shaped layers cap st.cache) :
    Shaped layers cap st'.cache := by
  rw [forwardPass_eq_some h]
  exact hs.storeRow (m.kv_width _ _ _)

/-- **One pass extends a filled cache by the row of its token**, when the row fits. -/
theorem forwardPass_filled {m : DenseModel} {st st' : InferenceState} {t : Token} {cap : ℕ}
    {ts : List Token} (h : forwardPass m st t = some st')
    (hs : Shaped m.config.numLayers.toNat cap st.cache) (hf : Filled m st.invFreq st.cache ts)
    (hpos : st.currentPos = ts.length)
    (hfit : (ts.length + 1) * m.config.numKvFeatures ≤ cap) :
    Filled m st'.invFreq st'.cache (ts ++ [t]) := by
  have hst := forwardPass_eq_some h
  have hnat : st.currentPos.toNat = ts.length := by omega
  have hrope : st'.invFreq = st.invFreq := by rw [hst]
  rw [hrope, filled_concat_iff]
  refine ⟨hf.congr fun p hp => forwardPass_row_ne h hs (by omega), ?_⟩
  rw [Nat.add_mul, Nat.one_mul] at hfit
  rw [hst]
  show kvRowAt _ _ (storeRow _ _ _ _) = _
  rw [hnat, kvRowAt_storeRow_self hfit (by rw [m.kv_length, hs.length]) (m.kv_width _ _ _) hs.size]
  rw [show rowsUpTo m.config.numKvFeatures ts.length st.cache = freshRows m st.invFreq ts from hf]

end DenseLite.Infer.State
