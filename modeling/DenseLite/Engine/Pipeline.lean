import DenseLite.Engine.Context
import DenseLite.Engine.Sessions

/-! # `execute_pipeline`

The request on its way through the engine: routing, tool pruning, the choice of the model, context
optimisation, and the loop of turns and retries with its recovery actions. What lies outside is an
input (`Inputs`): the settings, the decision engine, the search results, the state of the machine,
and at each attempt (`Env`) the tables, the keys and what the called model answers. The result is the
record of all calls of a model, and how the turns ended, which `Sessions.executePipeline` takes up. -/

namespace DenseLite.Engine.Pipeline

open DenseLite.Lib.ByteStream DenseLite.Gguf.Config DenseLite.Engine.Context DenseLite.Engine.Sessions
open DenseLite.Infer.State (ascii occursIn)

/-! ### Router -/

/-- A row of `provider_models`. -/
structure ProviderModel where
  provider : Bytes
  modelName : Bytes
  modelType : Bytes
  priority : ℤ
deriving DecidableEq, Repr

/-- `get_provider_for_model`; the rows are in the order in which the query finds them. -/
def getProviderForModel (rows : List ProviderModel) (model : Bytes) : Bytes :=
  ((rows.find? (·.modelName = cstr model)).map (·.provider)).getD (ascii "local")

/-- `get_cheapest_model_for_provider`: the first row of the smallest priority, or the empty string. -/
def getCheapestModelForProvider (rows : List ProviderModel) (provider type : Bytes) : Bytes :=
  match rows.filter fun r => r.provider = provider ∧ r.modelType = type with
  | [] => []
  | r :: rs => (rs.foldl (fun best r => if r.priority < best.priority then r else best) r).modelName

/-- `get_provider_url`. -/
def getProviderUrl (provider : Bytes) : Bytes :=
  if provider = ascii "GROQ" then ascii "https://api.groq.com"
  else if provider = ascii "OPENROUTER" then ascii "https://openrouter.ai"
  else if provider = ascii "NOVITA" then ascii "https://api.novita.ai"
  else if provider = ascii "MISTRAL" then ascii "https://api.mistral.ai"
  else if provider = ascii "COHERE" then ascii "https://api.cohere.com"
  else if provider = ascii "GEMINI" then ascii "https://generativelanguage.googleapis.com"
  else if provider = ascii "OPENAI" then ascii "https://api.openai.com"
  else []

/-! ### What the pipeline reads -/

/-- What is outside at one attempt: the tables, the resident models and those on disk, the tokenizers,
the keys, and what the model that is called answers. -/
structure Env where
  providerModels : List ProviderModel
  /-- `ModelRegistryDB::get_model_for_role`. -/
  roleModel : Bytes → Bytes
  models : Bytes → Option ModelConfig
  /-- What `infer_local` loads on demand. -/
  onDisk : Bytes → Option ModelConfig
  tokenizer : Bytes → Option Tokenizer
  /-- `key_value` of `get_next_available_key`. -/
  keyValue : Bytes → Bytes
  statusCode : ℤ
  output : Bytes

/-- The fields of `InferenceConfig` that the pipeline reads. -/
structure InferenceConfig where
  routingMode : Bytes
  enableToolDedup : Bool
  systemPrompt : Bytes
  enableContextInjection : Bool
  contextWindow : ℤ

/-- The fields of `DecisionOutput` that the pipeline reads; `simple` is `complexity_score < 0.4f`. -/
structure DecisionOutput where
  intent : Bytes := ascii "text"
  requiresCodeContext : Bool := false
  requiresMemory : Bool := false
  simple : Bool := true

/-- The inputs of one run of `execute_pipeline`. -/
structure Inputs where
  request : OpenAIRequest
  settings : InferenceConfig
  decide : Bytes → OpenAIRequest → DecisionOutput
  /-- The tools that the session has registered. -/
  sessionTools : List OpenAITool
  /-- `should_route_to_cloud`. -/
  routeToCloud : Bool
  /-- `assess_eviction_stage() >= SHRINK_CONTEXT`. -/
  shrinkContext : Bool
  search : Bytes → Bytes → List SearchResult
  /-- The image or audio engine serves the request, if it is one for it. -/
  multimodalOk : Bool
  /-- `ResponseAnalyzer::analyze`. -/
  analyze : Bytes → ResponseAction
  env : ℕ → Env

/-! ### Before the loop -/

/-- `std::tolower` of a byte. -/
def lowerByte (c : UInt8) : UInt8 := if 0x41 ≤ c ∧ c ≤ 0x5a then c + 0x20 else c

/-- The words that make a query ask for tools. -/
def toolKeywords : List Bytes :=
  [ascii "artisan", ascii "run", ascii "execute", ascii "migrate", ascii "database", ascii "query",
    ascii "schema", ascii "tool", ascii "search_symbols", ascii "fetch", ascii "bash",
    ascii "command", ascii "mcp"]

/-- The model when no role has one. -/
def defaultGeneral : Bytes := ascii "llama-3_2-1b-instruct-abliterated_i1-q4_0"

/-- The model for coding when no role has one. -/
def defaultCoder : Bytes := ascii "deepseek-r1-distill-qwen-1_5b-q4_0"

/-- The first string unless it is empty. -/
def orElse (s t : Bytes) : Bytes := if s = [] then t else s

section Prepare

variable (inp : Inputs)

def userQuery : Bytes := (inp.request.messages.getLast?.map (·.content)).getD []

def routingBypassed : Bool :=
  inp.settings.routingMode = ascii "off" ∨ inp.request.model ≠ [] ∧ inp.request.model ≠ ascii "denselite"

/-- `dec`: the default one when routing is bypassed. -/
def decision : DecisionOutput :=
  if routingBypassed inp then {} else inp.decide (userQuery inp) inp.request

/-- `session.task_type`. -/
def taskType : Bytes := if routingBypassed inp then ascii "general" else (decision inp).intent

def useContext : Bool :=
  if routingBypassed inp then inp.request.useContext
  else (decision inp).requiresCodeContext || (decision inp).requiresMemory

def requiresTools : Bool :=
  toolKeywords.any fun kw => occursIn kw ((userQuery inp).map lowerByte)

/-- The request after tool pruning: simple requests lose their tools and long system prompts, those
that need tools get the ones of the session. -/
def prepared : OpenAIRequest :=
  let req := { inp.request with useContext := useContext inp }
  if inp.settings.enableToolDedup ∧ ¬ requiresTools inp ∧
      (taskType inp = ascii "text" ∨ (userQuery inp).length < 160) then
    let defaultSys := orElse inp.settings.systemPrompt
      (ascii "You are DenseLite, a fast, concise programming and chat assistant.")
    { req with
      tools := []
      messages := req.messages.map fun m =>
        if m.role = ascii "system" ∧ 400 < m.content.length then { m with content := defaultSys } else m }
  else if requiresTools inp ∧ req.tools = [] then { req with tools := inp.sessionTools }
  else req

def isAuto : Bool := inp.request.model = ascii "denselite" ∨ inp.request.model = []

/-- The model of the role, for a request that names none. -/
def roleTarget : Bytes :=
  if isAuto inp then
    if taskType inp = ascii "coding" then orElse ((inp.env 0).roleModel (ascii "coder")) defaultCoder
    else orElse ((inp.env 0).roleModel (ascii "general")) defaultGeneral
  else inp.request.model

def totalPayloadChars : ℕ := ((prepared inp).messages.map (·.content.length)).sum

/-- The cloud model for a heavy payload, or the empty string. -/
def offloadModel : Bytes :=
  let rows := (inp.env 0).providerModels
  orElse (if getProviderForModel rows (ascii "openai/gpt-oss-20b") = [] then []
      else ascii "openai/gpt-oss-20b")
    (if getProviderForModel rows (ascii "gemini-2.5-flash") = [] then [] else ascii "gemini-2.5-flash")

/-- `target_model` before the loop: the role's model, cloud offload, resource throttling. -/
def initialTarget : Bytes :=
  let offloaded :=
    if (4000 < totalPayloadChars inp ∨ requiresTools inp) ∧ isAuto inp then
      orElse (offloadModel inp) (roleTarget inp)
    else roleTarget inp
  if inp.routeToCloud then
    orElse (getCheapestModelForProvider (inp.env 0).providerModels (ascii "OPENROUTER") (ascii "text"))
      offloaded
  else offloaded

def searchHits : List SearchResult :=
  if (prepared inp).useContext ∧ inp.settings.enableContextInjection then
    inp.search (userQuery inp) (taskType inp)
  else []

/-- `ctx_cap`. -/
def ctxCap : ℕ :=
  let defaultCtx := if 0 < inp.settings.contextWindow then inp.settings.contextWindow.toNat else 8192
  let cap := if inp.shrinkContext then min 4096 defaultCtx else defaultCtx
  if (decision inp).simple then min 2048 cap else cap

/-- `cfg`: the configuration of the model chosen first, if it is resident, else one that has its name
as the architecture. -/
def cfg : ModelConfig :=
  ((inp.env 0).models (initialTarget inp)).getD { architecture := initialTarget inp }

end Prepare

/-! ### Calling a model -/

/-- A message of the payload for the cloud. -/
structure PayloadMessage where
  role : Bytes
  content : Bytes
  name : Option Bytes := none
  toolCallId : Option Bytes := none
deriving DecidableEq, Repr

/-- The messages of the payload of `infer_cloud`, in the format of the provider. -/
def payloadMessages (providerUrl : Bytes) (req : OpenAIRequest) : List PayloadMessage :=
  if occursIn (ascii "generativelanguage") providerUrl then
    req.messages.map fun m =>
      { role := if m.role = ascii "assistant" then ascii "model" else ascii "user"
        content := m.content }
  else
    req.messages.map fun m =>
      { role := m.role
        content := m.content
        name := if m.name = [] then none else some m.name
        toolCallId := if m.toolCallId = [] then none else some m.toolCallId }

/-- What `infer` hands to a model: the prompt to a local one, the payload to a cloud one, or nothing
for want of a key. -/
inductive Sent
  | prompt (text : Bytes)
  | noKey
  | payload (messages : List PayloadMessage)
deriving DecidableEq, Repr

/-- `ModelEngine::infer`: what it sends, its status code and its output. -/
def infer (env : Env) (model : Bytes) (req : OpenAIRequest) (prompt : Bytes) : Sent × ℤ × Bytes :=
  let provider := getProviderForModel env.providerModels model
  if provider = ascii "local" ∨ provider = [] then (.prompt prompt, env.statusCode, env.output)
  else if env.keyValue provider = [] then
    (.noKey, 429, ascii "\x7b\"error\": \"No active API key configured or available for provider: " ++
      provider ++ ascii "\"\x7d")
  else (.payload (payloadMessages (getProviderUrl provider) req), env.statusCode, env.output)

/-! ### Recovery and completion -/

/-- `RecoveryAction`. -/
inductive RecoveryAction
  | RETRY_SAME | SWITCH_KEY | SWITCH_PROVIDER | SWITCH_MODEL | REDUCE_CONTEXT | FALLBACK_LOCAL | FAIL_SESSION
deriving DecidableEq, Repr

/-- `context_has`: the term occurs in the text, ignoring case. -/
def contextHas (ctx term : Bytes) : Bool :=
  term ≠ [] ∧ occursIn (term.map lowerByte) (ctx.map lowerByte)

/-- `RecoveryPolicy::determine_action`. -/
def determineAction (code : ℤ) (ctx : Bytes) : RecoveryAction :=
  if code = 413 ∨ code = 400 ∧ (contextHas ctx (ascii "context") ∨ contextHas ctx (ascii "token limit") ∨
      contextHas ctx (ascii "maximum context length") ∨ contextHas ctx (ascii "too large")) then
    .REDUCE_CONTEXT
  else if code = 404 ∨ code = 400 ∧
      (contextHas ctx (ascii "model_not_found") ∨ contextHas ctx (ascii "does not exist")) then
    .SWITCH_MODEL
  else if code = 429 then
    if contextHas ctx (ascii "quota") ∨ contextHas ctx (ascii "key") ∨ contextHas ctx (ascii "account") then
      .SWITCH_KEY
    else .SWITCH_PROVIDER
  else if code = 408 ∨ code = 502 ∨ code = 504 then .RETRY_SAME
  else if 500 ≤ code then .FALLBACK_LOCAL
  else .FAIL_SESSION

/-- `CompletionEvidence`. -/
structure CompletionEvidence where
  hasOutput : Bool := false
  hasTaskType : Bool := false
  toolsCalled : Bool := false
  toolResultReceived : Bool := false
  artifactProduced : Bool := false
  unresolvedError : Bool := false
  evidenceSaysComplete : Bool := false

/-- `CompletionPolicy::is_acceptable`. -/
def isAcceptable (taskType output : Bytes) (evidence : CompletionEvidence) : Bool :=
  let lower := output.map lowerByte
  let bareClaim := lower = ascii "done" ∨ lower = ascii "done." ∨ lower = ascii "i'm done" ∨
    lower = ascii "finished"
  if output = [] ∧ ¬ evidence.hasOutput then false
  else if evidence.unresolvedError then false
  else if evidence.toolsCalled ∧ ¬ evidence.toolResultReceived then false
  else if evidence.evidenceSaysComplete then true
  else if taskType = ascii "coding" ∧ bareClaim ∧ ¬ evidence.artifactProduced then false
  else if taskType = ascii "coding" ∧ (occursIn (ascii "```") output ∨
      evidence.artifactProduced ∨ evidence.toolResultReceived) then true
  else ¬ bareClaim

/-- The evidence that `execute_pipeline` gathers about an output. -/
def evidenceOf (taskType output : Bytes) (action : ResponseAction) : CompletionEvidence :=
  { hasOutput := output ≠ []
    hasTaskType := taskType ≠ []
    artifactProduced := occursIn (ascii "```") output
    evidenceSaysComplete := action = .COMPLETE }

/-! ### The loop -/

/-- One call of `infer`, with what was in force before it: the latest selection of
`optimize_and_compile`, the text appended to its prompt since, and the configuration with which the
model runs if it is a local one. -/
structure Attempt where
  target : Bytes
  sent : Sent
  selected : List OpenAIMessage
  continuation : Bytes
  config : Option ModelConfig
deriving DecidableEq, Repr

/-- The variables of the loop, and the calls so far. -/
structure LoopState where
  target : Bytes
  prompt : Bytes
  selected : List OpenAIMessage
  continuation : Bytes
  attempts : List Attempt

section Loop

variable (inp : Inputs)

/-- `optimize_and_compile`, of the prepared request and for the current target. -/
def optimizeAndCompile (env : Env) (evidence : List SearchResult) (limit : ℕ) (st : LoopState) : LoopState :=
  let selected := optimize (prepared inp).messages evidence (env.tokenizer st.target) limit
  { st with selected := selected, prompt := compile selected (cfg inp), continuation := [] }

/-- The state in which the loop begins. -/
def start : LoopState :=
  optimizeAndCompile inp (inp.env 0) (searchHits inp) (ctxCap inp)
    { target := initialTarget inp, prompt := [], selected := [], continuation := [], attempts := [] }

/-- The environment of the next attempt. -/
def envOf (st : LoopState) : Env := inp.env st.attempts.length

/-- The state after a call of `infer`, with the call recorded. -/
def called (st : LoopState) : LoopState :=
  let env := envOf inp st
  { st with attempts := st.attempts ++ [
      { target := st.target
        sent := (infer env st.target (prepared inp) st.prompt).1
        selected := st.selected
        continuation := st.continuation
        config := (env.models st.target).or (env.onDisk st.target) }] }

/-- `resolve_fallback`. -/
def resolveFallback (env : Env) : Bytes :=
  orElse (env.roleModel (ascii "general"))
    (if (env.models (ascii "general")).isSome then ascii "general" else defaultGeneral)

/-- The recovery action after a failed attempt. -/
def recover (env : Env) (action : RecoveryAction) (st : LoopState) : LoopState :=
  match action with
  | .REDUCE_CONTEXT => optimizeAndCompile inp env [] 4096 st
  | .SWITCH_MODEL | .SWITCH_PROVIDER | .SWITCH_KEY =>
    let cheapest := getCheapestModelForProvider env.providerModels (ascii "OPENROUTER") (ascii "text")
    { st with target := orElse cheapest (resolveFallback env) }
  | .FALLBACK_LOCAL => { st with target := resolveFallback env }
  | .RETRY_SAME | .FAIL_SESSION => st

/-- The retries of one turn, at most `left` of them: the state after them, and the output of an
attempt with status 200, or else the status and output of the last one. -/
def retries : (left : ℕ) → ℤ × Bytes → LoopState → LoopState × Except (ℤ × Bytes) Bytes
  | 0, last, st => (st, .error last)
  | left + 1, _, st =>
    let env := envOf inp st
    let (_, code, output) := infer env st.target (prepared inp) st.prompt
    if code = 200 then (called inp st, .ok output)
    else
      match determineAction code output with
      | .FAIL_SESSION => (called inp st, .error (code, output))
      | action => retries left (code, output) (recover inp env action (called inp st))

/-- The turns of the loop, at most `left` of them: how each ended, and the state after them. -/
def turns : (left : ℕ) → LoopState → List (Turn Bytes) × LoopState
  | 0, st => ([], st)
  | left + 1, st =>
    match retries inp 3 (0, []) st with
    | (st, .error _) => ([.failed], st)
    | (st, .ok output) =>
      let action := inp.analyze output
      let acceptable := isAcceptable (taskType inp) output (evidenceOf (taskType inp) output action)
      let turn : Turn Bytes := .answered output action acceptable
      match action with
      | .TOOL_CALL => ([turn], st)
      | .INVALID =>
        let target := orElse ((envOf inp st).roleModel (ascii "general")) defaultGeneral
        (turns left { st with target := target }).map (turn :: ·) id
      | .MODEL_CONTINUE =>
        let more := ascii "\n" ++ output ++ ascii "\nContinue directly:"
        (turns left { st with prompt := st.prompt ++ more, continuation := st.continuation ++ more }).map
          (turn :: ·) id
      | .COMPLETE | .MODEL_ERROR => if acceptable then ([turn], st) else (turns left st).map (turn :: ·) id

/-- The image or audio engine serves the request. -/
def servedMultimodal : Bool :=
  inp.multimodalOk ∧ (taskType inp = ascii "image" ∨ taskType inp = ascii "audio")

/-- All calls of `infer` in a run of `execute_pipeline`, in their order. -/
def attempts : List Attempt :=
  if servedMultimodal inp then [] else (turns inp maxInternalTurns (start inp)).2.attempts

/-- How the turns ended, as `Sessions.executePipeline` takes it. -/
def answers : Answers Bytes :=
  if servedMultimodal inp then .multimodal
  else .turns fun i => ((turns inp maxInternalTurns (start inp)).1[i]?).getD .failed

end Loop

/-! ### Plain requests -/

/-- A request of one message for the given model, without tools and context. -/
def plainRequest (model : Bytes) (env : ℕ → Env) : Inputs where
  request := { model := model, messages := [{ role := ascii "user", content := ascii "hi" }] }
  settings :=
    { routingMode := ascii "auto", enableToolDedup := false, systemPrompt := []
      enableContextInjection := false, contextWindow := 8192 }
  decide _ _ := {}
  sessionTools := []
  routeToCloud := false
  shrinkContext := false
  search _ _ := []
  multimodalOk := false
  analyze _ := .COMPLETE
  env := env

/-- An attempt with the given table, key and reply; every role is bound to the local model `g`. -/
def plainEnv (providerModels : List ProviderModel) (key : Bytes) (statusCode : ℤ) (output : Bytes) : Env where
  providerModels := providerModels
  roleModel _ := ascii "g"
  models _ := none
  onDisk _ := none
  tokenizer _ := none
  keyValue _ := key
  statusCode := statusCode
  output := output

end DenseLite.Engine.Pipeline
