import DenseLite.Engine.Prompts
import DenseLite.Engine.Windows
import DenseLite.Infer.Local

/-! # A prompt on its way into a local model

A prompt is compiled for a limit of the settings, and run with a budget that the governor computes from the memory of
the host. A turn that goes on appends to it, and nothing compiles it again. `generate` drops the beginning of a prompt
that has as many tokens as the budget, whether the compiled prompt was within its own limit or not
(`reachesWhole_iff`). -/

namespace DenseLite.Engine.Whole

open DenseLite.Lib.ByteStream DenseLite.Infer.Generate DenseLite.Infer.Setup DenseLite.Infer.Local
open DenseLite.Engine.Context DenseLite.Engine.Pipeline DenseLite.Engine.Prompts
open DenseLite.Infer.State (ascii Token)
open DenseLite.Gguf.Loader (TrieNode)

/-- A compilation of the pipeline: before the loop with what the search finds and the limit of the settings, or when
the context is reduced. -/
structure Compilation (inp : Inputs) where
  env : Env
  evidence : List SearchResult
  limit : ℕ
  state : LoopState

variable {inp : Inputs}

/-- The result of the compilation. -/
def Compilation.result (k : Compilation inp) : Windows.ContextOptimizationResult :=
  Windows.optimizeWithEvidence (prepared inp).messages k.evidence (k.env.tokenizer k.state.target) (cfg inp) k.limit

/-- The messages that the compilation selects. -/
def Compilation.selected (k : Compilation inp) : List OpenAIMessage :=
  optimize (prepared inp).messages k.evidence (k.env.tokenizer k.state.target) k.limit

/-- The prompts of the pipeline are those of its compilations. -/
theorem result_compiledPrompt (k : Compilation inp) :
    k.result.compiledContext.prompt = (Pipeline.optimizeAndCompile inp k.env k.evidence k.limit k.state).prompt := by
  unfold Compilation.result
  rw [Windows.optimizeWithEvidence_compiledContext]
  rfl

/-- A call of the loop, with the compilation whose selection is in force. -/
structure CompiledCall (inp : Inputs) where
  call : Attempt
  mem : call ∈ attempts inp
  compilation : Compilation inp
  selected : call.selected = compilation.selected

/-- Every call of the loop comes after a compilation. -/
theorem exists_compiledCall {a : Attempt} (ha : a ∈ attempts inp) : ∃ t : CompiledCall inp, t.call = a := by
  obtain ⟨env, target, evidence, limit, hselected⟩ := (attempts_recorded a ha).selected
  exact ⟨⟨a, ha, ⟨env, evidence, limit, { start inp with target := target }⟩, hselected⟩, rfl⟩

/-- What a local model is given: the compiled prompt, and what was appended since. -/
theorem CompiledCall.sent_prompt (t : CompiledCall inp) {text : Bytes} (hsent : t.call.sent = .prompt text) :
    text = t.compilation.result.compiledContext.prompt ++ t.call.continuation := by
  rw [(attempts_recorded t.call t.mem).prompt text hsent, t.selected, result_compiledPrompt]
  rfl

/-- **A prompt that fits its budget reaches the model whole**, with what was appended to it since: in each session, the
tokens that the model reads are all tokens that it is given. -/
def ReachesWhole (t : CompiledCall inp) (host : HostMemory) (m : LocalModel) (maxTokens : ℤ) (sample : ℕ → Token)
    (s : SessionKVState) : Prop :=
  t.compilation.result.compiledContext.fitsBudget = true → ∀ text, t.call.sent = .prompt text →
    ∀ c, localCall inp.settings.contextWindow host m text maxTokens sample = some c →
      (setup m.toDenseModel s c).effective = c.prompt

/-- A call keeps all tokens of a prompt exactly when they are fewer than its context. -/
theorem effective_eq_prompt_iff {m : DenseLite.Infer.State.DenseModel} {s : SessionKVState} {c : Call}
    (hpos : 2 ≤ ctxOf m c) :
    (setup m s c).effective = c.prompt ↔ (c.prompt.length : ℤ) < ctxOf m c := by
  have hlength := setup_effective_length (m := m) (s := s) (c := c) (by omega)
  constructor
  · intro h
    rw [h] at hlength
    omega
  · intro h
    rw [setup_effective, if_neg fun ht => absurd ht.2 (not_le.mpr h)]

section Reaches

variable {t : CompiledCall inp} {host : HostMemory} {m : LocalModel} {maxTokens : ℤ} {sample : ℕ → Token}
  {s : SessionKVState}

/-- The tokens of the compiled prompt and of what was appended to it are fewer than the budget of the governor. -/
def WithinBudget (t : CompiledCall inp) (host : HostMemory) (m : LocalModel) : Prop :=
  (tokenize m.root (t.compilation.result.compiledContext.prompt ++ t.call.continuation)).length <
    dynamicBudget inp.settings.contextWindow m.config host

theorem reachesWhole_of_withinBudget (h : t.compilation.result.compiledContext.fitsBudget = true →
    (∃ text, t.call.sent = .prompt text) → 2 ≤ dynamicBudget inp.settings.contextWindow m.config host →
      WithinBudget t host m) :
    ReachesWhole t host m maxTokens sample s := by
  intro hfits text hsent c hc
  obtain ⟨hbudget, hcall⟩ := localCall_eq_some_iff.mp hc
  have hctx := ctxOf_localCall hc
  have hlt := h hfits ⟨text, hsent⟩ hbudget
  refine (effective_eq_prompt_iff (by rw [hctx]; omega)).mpr ?_
  rw [WithinBudget, ← t.sent_prompt hsent] at hlt
  rw [hctx, hcall]
  exact Int.ofNat_lt.mpr hlt

theorem withinBudget_of_reachesWhole (h : ReachesWhole t host m maxTokens sample s)
    (hfits : t.compilation.result.compiledContext.fitsBudget = true) {text : Bytes}
    (hsent : t.call.sent = .prompt text)
    (hbudget : 2 ≤ dynamicBudget inp.settings.contextWindow m.config host) : WithinBudget t host m := by
  have hcall : localCall inp.settings.contextWindow host m text maxTokens sample = some _ :=
    localCall_eq_some_iff.mpr ⟨hbudget, rfl⟩
  have hctx := ctxOf_localCall hcall
  have hwhole := (effective_eq_prompt_iff (by rw [hctx]; omega)).mp (h hfits text hsent _ hcall)
  rw [hctx] at hwhole
  rw [WithinBudget, ← t.sent_prompt hsent]
  exact Int.ofNat_lt.mp hwhole

end Reaches

/-- **A prompt that fits its budget reaches the model whole**, in every call of every run (each comes after a
compilation), exactly when the model reads it, with what the turns before have appended, as fewer tokens than the budget
of the governor. -/
theorem reachesWhole_iff (inp : Inputs) : (∀ a ∈ attempts inp, ∃ t : CompiledCall inp, t.call = a) ∧
    ∀ (t : CompiledCall inp) (host : HostMemory) (m : LocalModel) (maxTokens : ℤ) (sample : ℕ → Token)
      (s : SessionKVState), ReachesWhole t host m maxTokens sample s ↔
        (t.compilation.result.compiledContext.fitsBudget = true → (∃ text, t.call.sent = .prompt text) →
          2 ≤ dynamicBudget inp.settings.contextWindow m.config host → WithinBudget t host m) := by
  refine ⟨fun _ => exists_compiledCall, fun t host m maxTokens sample s => ?_⟩
  constructor
  · rintro h hfits ⟨_, hsent⟩ hbudget
    exact withinBudget_of_reachesWhole h hfits hsent hbudget
  · exact reachesWhole_of_withinBudget

/-- A coding request with a system message of 1100 bytes, for the model of the role. -/
def longRequest : Inputs :=
  { plainRequest [] fun _ => { plainEnv [] [] 200 [] with
      tokenizer := fun _ => some ⟨fun text => (tokenize (byteModel {}).root text).length⟩ } with
    request := { model := ascii "denselite"
                 messages := [
                   { role := ascii "system", content := List.replicate 1100 0x61 },
                   { role := ascii "user", content := ascii "hi" }] }
    decide := fun _ _ => { intent := ascii "coding", simple := false } }

/-- The compilation before the loop. -/
def first (inp : Inputs) : Compilation inp where
  env := inp.env 0
  evidence := searchHits inp
  limit := ctxCap inp
  state := { target := initialTarget inp, prompt := [], selected := [], continuation := [], attempts := [] }

/-- A model of 57344 bytes a token, on a host that has 90 MB for the cache: the budget is 1024 tokens, and the prompt
of 6144 tokens at most has more. -/
theorem not_reachesWhole_headroom : ¬ ∀ t : CompiledCall longRequest, ReachesWhole t
    { availRam := 1173741824, ceiling := 8589934592, rss := 1073741824 }
    (byteModel { numLayers := 28, numKvHeads := 2, headDim := 128 }) 16 (fun _ => 0) {} := by
  intro h
  -- the pipeline is run once for all facts
  have hrun : (attempts longRequest).any (fun a => decide (a.selected = (first longRequest).selected ∧
        a.sent = .prompt (first longRequest).result.compiledContext.prompt)) = true ∧
      (first longRequest).result.compiledContext.fitsBudget = true ∧
      1024 ≤ (tokenize (byteModel { numLayers := 28, numKvHeads := 2, headDim := 128 }).root
        (first longRequest).result.compiledContext.prompt).length := by
    decide +kernel
  obtain ⟨hcall, hfits, hlong⟩ := hrun
  obtain ⟨a, ha, hfirst⟩ := List.any_eq_true.mp hcall
  obtain ⟨hselected, hsent⟩ := of_decide_eq_true hfirst
  have hbudget : dynamicBudget longRequest.settings.contextWindow
      (byteModel { numLayers := 28, numKvHeads := 2, headDim := 128 }).config
      { availRam := 1173741824, ceiling := 8589934592, rss := 1073741824 } = 1024 := by
    decide +kernel
  have hlt := withinBudget_of_reachesWhole (h ⟨a, ha, first longRequest, hselected⟩) hfits hsent
    (by rw [hbudget]; decide)
  rw [WithinBudget, hbudget, ← CompiledCall.sent_prompt ⟨a, ha, first longRequest, hselected⟩ hsent] at hlt
  exact absurd hlong (Nat.not_le.mpr hlt)

end DenseLite.Engine.Whole
