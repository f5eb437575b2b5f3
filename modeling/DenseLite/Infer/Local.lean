import DenseLite.Gguf.Loader
import DenseLite.Infer.Setup

/-! # `infer_local`

What `ModelEngine::infer_local` hands to `generate`: the tokens of the prompt, and a context budget that the
resource governor computes from the memory of the host and the sizes of the model. -/

namespace DenseLite.Infer.Local

open DenseLite.Lib.ByteStream DenseLite.Infer.State DenseLite.Infer.Generate DenseLite.Infer.Setup
open DenseLite.Gguf.Loader (TrieNode)

/-! ### Tokens -/

/-- Spaces and newlines as a byte-pair vocabulary has them. -/
def bpeText (text : Bytes) : Bytes :=
  text.flatMap fun c => if c = 0x20 then [0xc4, 0xa0] else if c = 0x0a then [0xc4, 0x8a] else [c]

/-- The longest token at the front of a text, with its length; `best` is the longest one so far. -/
def longestMatch : TrieNode → ℕ → Option (Token × ℕ) → Bytes → Option (Token × ℕ)
  | _, _, best, [] => best
  | .node _ children, len, best, c :: cs =>
    match children.lookup c with
    | none => best
    | some (.node tokenId grandchildren) =>
      longestMatch (.node tokenId grandchildren) (len + 1)
        (if tokenId = -1 then best else some (tokenId, len + 1)) cs

/-- The tokens of a text of which `skip` bytes are taken already; a byte that begins no token is left out. -/
def tokensAfter (root : TrieNode) : (skip : ℕ) → Bytes → List Token
  | _, [] => []
  | skip + 1, _ :: cs => tokensAfter root skip cs
  | 0, c :: cs =>
    match longestMatch root 0 none (c :: cs) with
    | none => tokensAfter root 0 cs
    | some (tokenId, len) => tokenId :: tokensAfter root (len - 1) cs

/-- `tokenize`. `Tokenizer::count_tokens` goes through the same loop and counts. -/
def tokenize (root : TrieNode) (text : Bytes) : List Token := tokensAfter root 0 (bpeText text)

/-! ### The budget -/

/-- The memory of the host, as the governor reads it: what is available, the ceiling of the policy, and what the
process has. -/
structure HostMemory where
  availRam : UInt64
  ceiling : UInt64
  rss : UInt64
deriving DecidableEq, Repr

/-- A natural number as the nearest `double`, ties to even. -/
def roundDouble (n : ℕ) : ℕ :=
  let unit := 2 ^ (n.log2 - 52)
  let q := n / unit
  let rest := n % unit
  if unit < 2 * rest ∨ (unit = 2 * rest ∧ q % 2 = 1) then (q + 1) * unit else q * unit

/-- `static_cast<size_t>(n * 0.90)`: the factor is the double 8106479329266893 / 2^53. -/
def ninetyPercent (n : ℕ) : ℕ := roundDouble (roundDouble n * 8106479329266893) / 2 ^ 53

/-- `dynamic_kv_budget`. -/
def dynamicKvBudget (host : HostMemory) : ℕ :=
  let policyHeadroom := host.ceiling.toNat - host.rss.toNat
  let availableHeadroom := host.availRam.toNat - 1024 * 1024 * 1024
  ninetyPercent (min policyHeadroom availableHeadroom)

/-- `bytes_per_token`, in 64-bit arithmetic. -/
def bytesPerToken (c : ModelConfig) : ℕ :=
  let bytes := if 0 < c.numLayers ∧ 0 < c.numKvHeads then
    c.numLayers.toNat * c.numKvHeads.toNat * c.headDim.toNat * 8 % 2 ^ 64 else 57344
  if bytes = 0 then 57344 else bytes

/-- `ResourceGovernor::calculate_dynamic_context_tokens`. -/
def calculateDynamicContextTokens (c : ModelConfig) (host : HostMemory) : ℕ :=
  let budget := dynamicKvBudget host
  let bytes := bytesPerToken c
  if 65536 * bytes % 2 ^ 64 ≤ budget then 65536
  else if 32768 * bytes % 2 ^ 64 ≤ budget then 32768
  else if 16384 * bytes % 2 ^ 64 ≤ budget then 16384
  else min (budget / bytes / 1024 * 1024) 8192

/-- `dynamic_budget` of `infer_local`: at most the context window of the settings, if there is one. -/
def dynamicBudget (contextWindow : ℤ) (c : ModelConfig) (host : HostMemory) : ℕ :=
  let tokens := calculateDynamicContextTokens c host
  if 0 < contextWindow ∧ contextWindow < tokens then contextWindow.toNat else tokens

/-- A model as `infer_local` has it: the trie of its vocabulary beside what `generate` reads. -/
structure LocalModel extends DenseModel where
  root : TrieNode

/-- The call of `generate`, or nothing where `infer_local` answers with the status 503. The `maxTokens` are those of
the request, else those of the settings. -/
def localCall (contextWindow : ℤ) (host : HostMemory) (m : LocalModel) (prompt : Bytes) (maxTokens : ℤ)
    (sample : ℕ → Token) : Option Call :=
  let budget := dynamicBudget contextWindow m.config host
  if budget < 2 then none
  else some { prompt := tokenize m.root prompt, maxTokens := maxTokens, contextBudget := budget, sample := sample }

/-- A model that caches zeros, and has a token for each byte, beginning with `a`. -/
def byteModel (config : ModelConfig) : LocalModel where
  config := config
  vocabTokens := (List.range 256).map fun b => [UInt8.ofNat (b + 0x61)]
  tensors := [(ascii "token_embd.weight", .Q8_0)]
  kv _ _ _ := zeroRow config.numKvFeatures config.numLayers.toNat
  kv_length _ _ _ := List.length_replicate
  kv_width _ _ _ r hr := by
    rw [List.eq_of_mem_replicate hr]
    exact ⟨List.length_replicate, List.length_replicate⟩
  root := .node (-1) ((List.range 256).map fun b => (UInt8.ofNat (b + 0x61), .node (Int32.ofNat b) []))

/-! ### What the budget is -/

section Budget

variable {contextWindow : ℤ} {host : HostMemory} {config : ModelConfig} {m : LocalModel} {prompt : Bytes}
  {maxTokens : ℤ} {sample : ℕ → Token} {c : Call}

theorem calculateDynamicContextTokens_le : calculateDynamicContextTokens config host ≤ 65536 := by
  unfold calculateDynamicContextTokens
  dsimp only
  split_ifs
  · exact le_rfl
  · omega
  · omega
  · exact (min_le_right _ _).trans (by omega)

theorem dynamicBudget_le : dynamicBudget contextWindow config host ≤ 65536 := by
  have hle : calculateDynamicContextTokens config host ≤ 65536 := calculateDynamicContextTokens_le
  unfold dynamicBudget
  dsimp only
  split_ifs <;> omega

theorem localCall_eq_some_iff : localCall contextWindow host m prompt maxTokens sample = some c ↔
    2 ≤ dynamicBudget contextWindow m.config host ∧ c =
      { prompt := tokenize m.root prompt, maxTokens := maxTokens
        contextBudget := dynamicBudget contextWindow m.config host, sample := sample } := by
  unfold localCall
  dsimp only
  split_ifs with hsmall
  · exact iff_of_false (by simp) fun h => absurd h.1 (Nat.not_le.mpr hsmall)
  · rw [Option.some_inj, and_iff_right (Nat.not_lt.mp hsmall), eq_comm]

/-- **The context of a local call** is the budget. -/
theorem ctxOf_localCall (h : localCall contextWindow host m prompt maxTokens sample = some c) :
    ctxOf m.toDenseModel c = dynamicBudget contextWindow m.config host := by
  obtain ⟨hpos, rfl⟩ := localCall_eq_some_iff.mp h
  have hle : dynamicBudget contextWindow m.config host ≤ 65536 := dynamicBudget_le
  unfold ctxOf ctxLen
  dsimp only
  rw [if_pos (by omega)]
  omega

end Budget

end DenseLite.Infer.Local
