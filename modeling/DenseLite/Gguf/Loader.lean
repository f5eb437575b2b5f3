import DenseLite.Gguf.Format

/-! # `load_gguf_model`

The loader reads header, metadata and tensor infos through one unchecked cursor. The keys of the
metadata are matched in the order of the source (`branchOf`); a branch reads its value or skips it.
All branches but the one of `general.alignment` move the cursor over the value they read. -/

namespace DenseLite.Gguf.Loader

open DenseLite.Lib.ByteStream DenseLite.Lib.Cursor DenseLite.Gguf.Config DenseLite.Gguf.Format
open DenseLite.Infer.State (ascii occursIn F32 Token TensorType)

/-! ### What is loaded -/

/-- `TrieNode`. -/
inductive TrieNode
  | node (tokenId : Token) (children : List (UInt8 × TrieNode))

/-- The children with the one of `c` replaced; it is made if it is not there. -/
def modifyChild (c : UInt8) (g : TrieNode → TrieNode) : List (UInt8 × TrieNode) → List (UInt8 × TrieNode)
  | [] => [(c, g (.node (-1) []))]
  | (c', n) :: rest => if c' = c then (c, g n) :: rest else (c', n) :: modifyChild c g rest

/-- The trie with a token added. -/
def TrieNode.insert (tokenId : Token) : Bytes → TrieNode → TrieNode
  | [], .node _ children => .node tokenId children
  | c :: cs, .node id children => .node id (modifyChild c (TrieNode.insert tokenId cs) children)

/-- `Vocab`. -/
structure Vocab where
  tokens : List Bytes := []
  scores : List F32 := []
  root : TrieNode := .node (-1) []

/-- `Tensor`; `data` is the offset of the pointer into the mapped file. -/
structure Tensor where
  name : Bytes
  type : TensorType
  shape : List UInt32
  dataOffset : UInt64
  data : ℕ := 0
deriving DecidableEq, Repr

/-- `DenseModel`: what the loader fills in. The tensors are those of the map, in the order in which
their names were first written. -/
structure DenseModel where
  config : ModelConfig := {}
  vocab : Vocab := {}
  tensors : List Tensor := []

/-- The type that a number stands for. -/
def tensorType (code : UInt32) : TensorType :=
  if code = 0 then .FP32 else if code = 1 then .FP16 else if code = 2 then .Q4_0
  else if code = 3 then .Q4_1 else if code = 6 then .Q5_0 else if code = 7 then .Q5_1
  else if code = 8 then .Q8_0 else if code = 9 then .Q8_1 else if code = 10 then .Q2_K
  else if code = 11 then .Q3_K else if code = 12 then .Q4_K else if code = 13 then .Q5_K
  else if code = 14 then .Q6_K else if code = 15 then .Q8_K else .unknown code

/-- `tensors[t.name] = t`. -/
def insertTensor (ts : List Tensor) (t : Tensor) : List Tensor :=
  if ts.any (·.name = t.name) then ts.map fun t' => if t'.name = t.name then t else t' else ts ++ [t]

/-! ### The fields of the configuration -/

/-- The fields that one entry of the metadata is copied into. -/
inductive Field
  | eosTokenId | architecture | contextLength | embeddingLength | intermediateDim | numLayers | numHeads
  | numKvHeads | headDim | ropeBase | ropeScale | ropeType | rmsNormEps | chatTemplate
deriving DecidableEq, Repr

/-- The fields that hold a string; the others hold a word of four bytes. -/
def Field.isText : Field → Bool
  | .architecture | .ropeType | .chatTemplate => true
  | _ => false

/-- The field is set to the bytes of a value. -/
def setField (c : ModelConfig) (raw : Bytes) : Field → ModelConfig
  | .eosTokenId => { c with eosTokenId := (decodeU32 raw).toInt32 }
  | .architecture => { c with architecture := raw }
  | .contextLength => { c with contextLength := decodeU32 raw }
  | .embeddingLength => { c with embeddingLength := decodeU32 raw }
  | .intermediateDim => { c with intermediateDim := decodeU32 raw }
  | .numLayers => { c with numLayers := decodeU32 raw }
  | .numHeads => { c with numHeads := decodeU32 raw }
  | .numKvHeads => { c with numKvHeads := decodeU32 raw }
  | .headDim => { c with headDim := decodeU32 raw }
  | .ropeBase => { c with ropeBase := decodeU32 raw }
  | .ropeScale => { c with ropeScale := decodeU32 raw }
  | .ropeType => { c with ropeType := raw }
  | .rmsNormEps => { c with rmsNormEps := decodeU32 raw }
  | .chatTemplate => { c with chatTemplate := raw }

/-- What is done with an entry. -/
inductive Branch
  | alignment | tokens | scores | field (fld : Field) | skip
deriving DecidableEq, Repr

/-- The tests of a key. -/
inductive KeyTest
  /-- `key == s`. -/
  | eq (s : Bytes)
  /-- `key.find(s) != npos`. -/
  | has (s : Bytes)
  /-- It has `s` and not `t`. -/
  | hasNot (s t : Bytes)
  /-- It has `s` or `t`. -/
  | hasEither (s t : Bytes)
deriving DecidableEq, Repr

/-- The key passes the test. -/
def KeyTest.holds (key : Bytes) : KeyTest → Bool
  | .eq s => key = s
  | .has s => occursIn s key
  | .hasNot s t => occursIn s key && !occursIn t key
  | .hasEither s t => occursIn s key || occursIn t key

/-- One test of the chain in the metadata loop: of the key, of the number of the type, and the branch. -/
structure Rule where
  key : KeyTest
  types : List UInt32
  branch : Branch

/-- The chain of tests, in the order of the source. -/
def rules : List Rule :=
  [⟨.eq (ascii "general.alignment"), [4], .alignment⟩,
    ⟨.eq (ascii "tokenizer.ggml.tokens"), [9], .tokens⟩,
    ⟨.has (ascii ".eos_token_id"), [4, 5], .field .eosTokenId⟩,
    ⟨.eq (ascii "tokenizer.ggml.scores"), [9], .scores⟩,
    ⟨.eq (ascii "general.architecture"), [8], .field .architecture⟩,
    ⟨.has (ascii ".context_length"), [4], .field .contextLength⟩,
    ⟨.has (ascii ".embedding_length"), [4], .field .embeddingLength⟩,
    ⟨.has (ascii ".feed_forward_length"), [4], .field .intermediateDim⟩,
    ⟨.has (ascii ".block_count"), [4], .field .numLayers⟩,
    ⟨.hasNot (ascii ".attention.head_count") (ascii ".attention.head_count_kv"), [4], .field .numHeads⟩,
    ⟨.has (ascii ".attention.head_count_kv"), [4], .field .numKvHeads⟩,
    ⟨.hasEither (ascii ".attention.key_length") (ascii ".rope.dimension_count"), [4], .field .headDim⟩,
    ⟨.has (ascii ".rope.freq_base"), [6], .field .ropeBase⟩,
    ⟨.has (ascii ".rope.scale"), [6], .field .ropeScale⟩,
    ⟨.has (ascii ".rope.scaling.type"), [8], .field .ropeType⟩,
    ⟨.has (ascii ".attention.layer_norm_rms_epsilon"), [6], .field .rmsNormEps⟩,
    ⟨.eq (ascii "tokenizer.chat_template"), [8], .field .chatTemplate⟩]

/-- The branch of an entry, by its key and the number of its type: that of the first test that
holds. -/
def branchOf (key : Bytes) (type : UInt32) : Branch :=
  match rules.find? fun r => r.key.holds key && r.types.contains type with
  | some r => r.branch
  | none => .skip

/-- A branch other than skipping is that of a rule that the entry passes. -/
theorem exists_rule {key : Bytes} {type : UInt32} (h : branchOf key type ≠ .skip) :
    ∃ r ∈ rules, r.branch = branchOf key type ∧ r.key.holds key = true ∧ type ∈ r.types := by
  unfold branchOf at h ⊢
  cases hr : rules.find? fun r => r.key.holds key && r.types.contains type with
  | none =>
    rw [hr] at h
    exact absurd rfl h
  | some r =>
    have hpass := List.find?_some hr
    rw [Bool.and_eq_true, List.contains_iff_mem] at hpass
    exact ⟨r, List.mem_of_find?_eq_some hr, rfl, hpass.1, hpass.2⟩

/-! ### Reading -/

section Read

variable (f : Bytes) (grants : ℕ → Bool)

/-- An allocation of `n` bytes; `grants` says which sizes the allocator grants. -/
def allocate (n : ℕ) : Reader Unit := if grants n then pure () else throw .threw

/-- `read_string`. -/
def readString : Reader Bytes := do
  let len ← u64 f
  allocate grants len.toNat
  read f len.toNat

/-- The bytes that `skip_value` goes over for a type that is neither a string nor an array; unknown
types count as four bytes. -/
def skipWidth (type : UInt32) : ℕ :=
  if type = 0 ∨ type = 1 ∨ type = 7 then 1
  else if type = 2 ∨ type = 3 then 2
  else if type = 10 ∨ type = 11 ∨ type = 12 then 8
  else 4

/-- `skip_value`, with the depth of arrays it may go down to. -/
def skipValue : (fuel : ℕ) → UInt32 → Reader Unit
  | fuel, type =>
    if type = 8 then discard (readString f grants)
    else if type = 9 then
      match fuel with
      | 0 => throw .fuel
      | fuel + 1 => do
        let arrType ← u32 f
        let arrLen ← u64 f
        loop f (fun _ _ => skipValue fuel arrType) arrLen.toNat 0 ()
    else skip (skipWidth type)

theorem skipValue_string (fuel : ℕ) : skipValue f grants fuel 8 = discard (readString f grants) := by
  cases fuel <;> rfl

theorem skipValue_array (fuel : ℕ) : skipValue f grants (fuel + 1) 9 = (do
    let arrType ← u32 f
    let arrLen ← u64 f
    loop f (fun _ _ => skipValue f grants fuel arrType) arrLen.toNat 0 ()) := rfl

theorem skipValue_other (fuel : ℕ) {type : UInt32} (h8 : type ≠ 8) (h9 : type ≠ 9) :
    skipValue f grants fuel type = skip (skipWidth type) := by
  cases fuel <;> rw [skipValue, if_neg h8, if_neg h9]

/-- A depth that no array in the file can pass: each level has a header of twelve bytes. -/
def depth : ℕ := f.length

/-- The token that `t_str` makes the end of the text, if it does. -/
def detectEos (eos : Token) (token : Bytes) (j : ℕ) : Token :=
  if token = ascii "<|im_end|>" ∨ token = ascii "<|endoftext|>" ∨ token = ascii "</s>" then
    if eos = -1 ∨ token = ascii "<|im_end|>" then (UInt32.ofNat j).toInt32 else eos
  else eos

/-- A token added to the vocabulary. -/
def addToken (m : DenseModel) (j : ℕ) (token : Bytes) : DenseModel :=
  { m with
    vocab := { m.vocab with
      tokens := m.vocab.tokens ++ [token]
      root := m.vocab.root.insert (UInt32.ofNat j).toInt32 token }
    config := { m.config with eosTokenId := detectEos m.config.eosTokenId token j } }

/-- One round of the token loop. -/
def readToken (arrType : UInt32) (j : ℕ) (m : DenseModel) : Reader DenseModel :=
  if arrType = 8 then do
    let token ← readString f grants
    return addToken m j token
  else do
    skipValue f grants (depth f) arrType
    return m

/-- One round of the score loop. -/
def readScore (arrType : UInt32) (_ : ℕ) (m : DenseModel) : Reader DenseModel :=
  if arrType = 6 then do
    let score ← u32 f
    return { m with vocab := { m.vocab with scores := m.vocab.scores ++ [score] } }
  else do
    skipValue f grants (depth f) arrType
    return m

/-- The value of an entry, by its branch. -/
def readValue (type : UInt32) (m : DenseModel) : Branch → Reader DenseModel
  | .alignment => do
    -- the cursor stays before the value
    let a ← peekU32 f
    return { m with config := { m.config with alignment := a } }
  | .tokens => do
    let arrType ← u32 f
    let arrLen ← u64 f
    allocate grants (32 * arrLen.toNat)
    let m ← loop f (readToken f grants arrType) arrLen.toNat 0 m
    return { m with config := { m.config with vocabSize := arrLen.toUInt32 } }
  | .scores => do
    let arrType ← u32 f
    let arrLen ← u64 f
    allocate grants (4 * arrLen.toNat)
    loop f (readScore f grants arrType) arrLen.toNat 0 m
  | .field fld => do
    let raw ← if fld.isText then readString f grants else read f 4
    return { m with config := setField m.config raw fld }
  | .skip => do
    skipValue f grants (depth f) type
    return m

/-- One round of the metadata loop. -/
def readEntry (_ : ℕ) (m : DenseModel) : Reader DenseModel := do
  let key ← readString f grants
  let type ← u32 f
  readValue f grants type m (branchOf key type)

/-- One dimension of a tensor. -/
def readDim (_ : ℕ) (shape : List UInt32) : Reader (List UInt32) := do
  let dimSize ← u64 f
  return shape ++ [dimSize.toUInt32]

/-- One round of the tensor loop. -/
def readTensor (_ : ℕ) (m : DenseModel) : Reader DenseModel := do
  let name ← readString f grants
  let nDims ← u32 f
  let shape ← loop f (readDim f) nDims.toNat 0 []
  let type ← u32 f
  let offset ← u64 f
  let t : Tensor := { name := name, type := tensorType type, shape := shape, dataOffset := offset }
  return { m with tensors := insertTensor m.tensors t }

end Read

/-! ### Derived fields and tensor data -/

/-- `x == 0.0f`. -/
def isZeroF32 (x : F32) : Bool := x = 0 ∨ x = 0x80000000

/-- The dimensions that are derived after the metadata. -/
def deriveDims (c : ModelConfig) : ModelConfig :=
  { c with
    headDim := if c.headDim = 0 ∧ 0 < c.numHeads then c.embeddingLength / c.numHeads else c.headDim
    ropeBase := if isZeroF32 c.ropeBase then
        if c.architecture = ascii "qwen2" then 0x49742400 else 0x461c4000
      else c.ropeBase }

/-- The start of the tensor data: the end of the infos, padded to the alignment. -/
def dataStart (alignment : UInt32) (metadataSize : ℕ) : ℕ :=
  (metadataSize + (alignment.toNat - metadataSize % alignment.toNat) % alignment.toNat) % 2 ^ 64

/-- `absolute_offset` of a tensor. -/
def absoluteOffset (start : ℕ) (t : Tensor) : ℕ := (start + t.dataOffset.toNat) % 2 ^ 64

/-- The feed-forward dimension that the shapes of the tensors show, or zero. -/
def intermediateOf (ts : List Tensor) : UInt32 :=
  match ts.find? (·.name = ascii "blk.0.ffn_gate.weight") with
  | some t => t.shape.getD 1 0
  | none =>
    match ts.find? (·.name = ascii "blk.0.ffn_down.weight") with
    | some t => t.shape.getD 0 0
    | none => 0

/-- `intermediate_dim` is derived when the metadata leaves it zero. -/
def deriveIntermediate (ts : List Tensor) (c : ModelConfig) : ModelConfig :=
  if c.intermediateDim = 0 then { c with intermediateDim := intermediateOf ts } else c

/-- After the infos, which end at offset `k`: the tensors get their data, unless one is misaligned. -/
def finish (m : DenseModel) (k : ℕ) : Except Stop (Bool × DenseModel) :=
  if m.config.alignment = 0 then .error .divByZero
  else
    let start := dataStart m.config.alignment k
    if m.tensors.any fun t => absoluteOffset start t % 32 ≠ 0 then .ok (false, m)
    else
      .ok (true, { m with
        tensors := m.tensors.map fun t => { t with data := absoluteOffset start t }
        config := deriveIntermediate m.tensors m.config })

/-- The metadata and the tensor infos, from behind the magic number. -/
def readBody (f : Bytes) (grants : ℕ → Bool) : Reader DenseModel := do
  let _version ← u32 f
  let tensorCount ← u64 f
  let kvCount ← u64 f
  let m ← loop f (readEntry f grants) kvCount.toNat 0 {}
  loop f (readTensor f grants) tensorCount.toNat 0 { m with config := deriveDims m.config }

/-- `load_gguf_model` on a file: its result and the model it leaves. An empty file cannot be mapped. -/
def loadGgufModel (f : Bytes) (grants : ℕ → Bool) : Except Stop (Bool × DenseModel) :=
  if f = [] then .ok (false, {})
  else do
    let (magic, k) ← u32 f 0
    if magic ≠ ggufMagic then return (false, {})
    let (m, k) ← readBody f grants k
    finish m k

end DenseLite.Gguf.Loader
