import DenseLite.Gguf.Config

/-! # Context optimisation

What `ContextEngine::optimize_and_compile` selects of the messages of a request, and the prompt that
`ContextCompiler::compile` makes of the selection. -/

namespace DenseLite.Engine.Context

open DenseLite.Lib.ByteStream DenseLite.Gguf.Config
open DenseLite.Infer.State (ascii occursIn)

/-! ### Requests -/

/-- `OpenAIMessage`. -/
structure OpenAIMessage where
  role : Bytes
  content : Bytes
  name : Bytes := []
  toolCallId : Bytes := []
deriving DecidableEq, Repr

/-- `OpenAITool`, with its function. -/
structure OpenAITool where
  type : Bytes
  name : Bytes
  description : Bytes
  parametersSchema : Bytes
deriving DecidableEq, Repr

/-- `OpenAIRequest`, as far as the pipeline reads it. -/
structure OpenAIRequest where
  model : Bytes
  messages : List OpenAIMessage
  tools : List OpenAITool := []
  useContext : Bool := true
deriving DecidableEq, Repr

/-- `SearchResult`: what of it becomes part of the prompt. -/
structure SearchResult where
  filePath : Bytes
  symbolName : Bytes
  content : Bytes
deriving DecidableEq, Repr

/-- `Tokenizer`: how it counts. -/
structure Tokenizer where
  countTokens : Bytes → ℕ

/-! ### Selection -/

/-- Four bytes a token. -/
def roughTokens (text : Bytes) : ℕ := (text.length + 3) / 4

/-- `count_tokens` of `sliding_window`, which does not ask whether the tokenizer is valid. -/
def countAny (tokenizer : Option Tokenizer) (text : Bytes) : ℕ :=
  match tokenizer with
  | some t => t.countTokens text
  | none => roughTokens text

/-- The messages of `deduplicate` after `previous`: repeated messages and empty ones are left out. -/
def deduplicateAfter (previous : Option OpenAIMessage) : List OpenAIMessage → List OpenAIMessage
  | [] => []
  | m :: rest =>
    if previous.any fun p => m.role = p.role ∧ m.content = p.content then deduplicateAfter (some m) rest
    else if m.content = [] ∧ m.role ≠ ascii "system" then deduplicateAfter (some m) rest
    else m :: deduplicateAfter (some m) rest

/-- `ContextCompressor::deduplicate`. -/
def deduplicate (messages : List OpenAIMessage) : List OpenAIMessage :=
  if messages.length ≤ 1 then messages else deduplicateAfter none messages

/-- The history that fits, newest first: `sliding_window` stops at the first message that does not. -/
def recentHistory (count : Bytes → ℕ) (maxBudget : ℕ) : ℕ → List OpenAIMessage → List OpenAIMessage
  | _, [] => []
  | running, m :: older =>
    if maxBudget < running + count m.content then []
    else m :: recentHistory count maxBudget (running + count m.content) older

/-- `ContextCompressor::sliding_window`. -/
def slidingWindow (messages : List OpenAIMessage) (tokenizer : Option Tokenizer) (maxBudget : ℕ) :
    List OpenAIMessage :=
  let count := countAny tokenizer
  if (messages.map fun m => count m.content).sum ≤ maxBudget then messages
  else
    let system := messages.head?.filter (·.role = ascii "system")
    let tail := if system.isSome then messages.tail else messages
    match tail.getLast? with
    | none => system.toList
    | some last =>
      let running := (system.map fun m => count m.content).getD 0 + count last.content
      system.toList ++ (recentHistory count maxBudget running tail.dropLast.reverse).reverse ++ [last]

/-- `ContextCompressor::compress`. -/
def compress (messages : List OpenAIMessage) (tokenizer : Option Tokenizer) (budget : ℕ) :
    List OpenAIMessage := slidingWindow (deduplicate messages) tokenizer budget

/-- `max_input_tokens` of `ContextBudgeter::calculate_budget`, with its generation reserve of at
least 1024 tokens. -/
def maxInputTokens (totalContext : ℕ) : ℕ :=
  let limit := if 0 < totalContext then totalContext else 8192
  let reserve := max 1024 (limit / 4)
  limit - if limit ≤ reserve then limit / 2 else reserve

/-- The block of text that the retrieved evidence becomes. -/
def evidenceBlock (evidence : List SearchResult) : Bytes :=
  ascii "\n[Retrieved Context Evidence]\n" ++ evidence.flatMap fun ev =>
    (if ev.symbolName ≠ [] then
        ascii "Symbol: " ++ ev.symbolName ++ ascii " (" ++ ev.filePath ++ ascii ")\n"
      else if ev.filePath ≠ [] then ascii "File: " ++ ev.filePath ++ ascii "\n"
      else []) ++ ev.content ++ ascii "\n---\n"

/-- The evidence goes to the first system message, or before all messages. -/
def injectEvidence (block : Bytes) (messages : List OpenAIMessage) : List OpenAIMessage :=
  match messages.findIdx? (·.role = ascii "system") with
  | some i => messages.modify i fun m => { m with content := m.content ++ ascii "\n" ++ block }
  | none => { role := ascii "system", content := block } :: messages

/-- The messages that `optimize_and_compile` selects. -/
def optimize (messages : List OpenAIMessage) (evidence : List SearchResult)
    (tokenizer : Option Tokenizer) (limit : ℕ) : List OpenAIMessage :=
  let enriched := if evidence = [] then messages else injectEvidence (evidenceBlock evidence) messages
  compress (deduplicate enriched) tokenizer (maxInputTokens limit)

/-! ### Compilation -/

/-- `ContextCompiler::format_chatml`, with the assistant header. -/
def formatChatml (messages : List OpenAIMessage) : Bytes :=
  (messages.flatMap fun m => ascii "<|im_start|>" ++ m.role ++ ascii "\n" ++ m.content ++
    ascii "\n<|im_end|>\n") ++ ascii "<|im_start|>assistant\n"

/-- `ContextCompiler::format_llama3`, with the assistant header. -/
def formatLlama3 (messages : List OpenAIMessage) : Bytes :=
  ascii "<|begin_of_text|>" ++ (messages.flatMap fun m => ascii "<|start_header_id|>" ++ m.role ++
    ascii "<|end_header_id|>\n\n" ++ m.content ++ ascii "<|eot_id|>") ++
    ascii "<|start_header_id|>assistant<|end_header_id|>\n\n"

/-- The choice of the format: by the chat template when it shows one of the two, else by the
architecture. -/
def isLlama (config : ModelConfig) : Bool :=
  if occursIn (ascii "<|start_header_id|>") config.chatTemplate then true
  else if occursIn (ascii "<|im_start|>") config.chatTemplate then false
  else occursIn (ascii "llama") config.architecture

/-- The prompt of `ContextCompiler::compile`. -/
def compile (messages : List OpenAIMessage) (config : ModelConfig) : Bytes :=
  if isLlama config then formatLlama3 messages else formatChatml messages

/-- The prompts of the two formats differ in their third byte, whatever the messages are. -/
theorem compile_third_byte (messages : List OpenAIMessage) (config : ModelConfig) :
    (compile messages config)[2]? = some (if isLlama config then 0x62 else 0x69) := by
  unfold compile
  split_ifs
  · rw [formatLlama3, List.append_assoc, List.getElem?_append_left (by decide +kernel)]
    decide +kernel
  · unfold formatChatml
    cases messages with
    | nil => decide +kernel
    | cons m rest =>
      simp only [List.flatMap_cons, List.append_assoc]
      rw [List.getElem?_append_left (by decide +kernel)]
      decide +kernel

/-- **Two configurations compile to the same prompt, of any messages and with anything appended, only
in the same format.** -/
theorem isLlama_eq_of_compile {messages messages' : List OpenAIMessage} {config config' : ModelConfig}
    {more more' : Bytes}
    (h : compile messages config ++ more = compile messages' config' ++ more') :
    isLlama config = isLlama config' := by
  have hthird {ms : List OpenAIMessage} {c : ModelConfig} (more : Bytes) :
      (compile ms c ++ more)[2]? = some (if isLlama c then 0x62 else 0x69) := by
    rw [List.getElem?_append_left (List.getElem?_eq_some_iff.mp (compile_third_byte ms c)).1,
      compile_third_byte]
  have heq := (hthird more).symm.trans ((congrArg (·[2]?) h).trans (hthird more'))
  cases hc : isLlama config <;> cases hc' : isLlama config' <;> simp [hc, hc'] at heq <;> rfl

end DenseLite.Engine.Context
