import DenseLite.Engine.Answers
import DenseLite.Engine.Requests
import DenseLite.Lib.Decimal

/-! # The body of an answer

The document that a request without streaming is answered with. It is put together of strings: the text is escaped,
the session id and the name of the model are not. And what is escaped has to be UTF-8, which the texts of generated
tokens need not be: `dump` throws on them, and nothing catches it. -/

namespace DenseLite.Engine.Bodies

open DenseLite.Lib DenseLite.Lib.ByteStream DenseLite.Lib.JsonText DenseLite.Lib.Decimal DenseLite.Engine.Context
open DenseLite.Engine.Analyzer DenseLite.Engine.Answers DenseLite.Engine.Dump DenseLite.Engine.Requests
open DenseLite.Infer.State (ascii ascii_ofList)

/-! ### The document -/

/-- The body that `execute_pipeline` puts together. -/
def completionBody (sessionId model escaped : Bytes) (created : ℕ) : Bytes :=
  ascii "\x7b\"id\":\"chatcmpl-" ++ sessionId ++ ascii "\",\"object\":\"chat.completion\",\"created\":" ++
    natText created ++ ascii ",\"model\":\"" ++ model ++
    ascii "\",\"choices\":[\x7b\"index\":0,\"message\":\x7b\"role\":\"assistant\",\"content\":\"" ++ escaped ++
    ascii "\"\x7d,\"finish_reason\":\"stop\"\x7d]\x7d"

/-- The content of the first choice. -/
def contentOf (v : Value) : Option Value :=
  (((v.get? (ascii "choices")).bind (·.head?)).bind (·.get? (ascii "message"))).bind (·.get? (ascii "content"))

/-- The tokens between the id and the model. -/
def middleTokens (created : Bytes) : List Token :=
  [.string (ascii "object"), .punct 0x3a, .string (ascii "chat.completion"), .punct 0x2c, .string (ascii "created"),
    .punct 0x3a, .word created, .punct 0x2c, .string (ascii "model"), .punct 0x3a]

/-- The tokens after the model. -/
def closingTokens (escaped : Bytes) : List Token :=
  [.string (ascii "choices"), .punct 0x3a, .punct 0x5b, .punct 0x7b, .string (ascii "index"), .punct 0x3a,
    .word (ascii "0"), .punct 0x2c, .string (ascii "message"), .punct 0x3a, .punct 0x7b, .string (ascii "role"),
    .punct 0x3a, .string (ascii "assistant"), .punct 0x2c, .string (ascii "content"), .punct 0x3a, .string escaped,
    .punct 0x7d, .punct 0x2c, .string (ascii "finish_reason"), .punct 0x3a, .string (ascii "stop"), .punct 0x7d,
    .punct 0x5d, .punct 0x7d]

/-- The tokens of the body, with those of the id and of the model. -/
def layout (id model : List Token) (created escaped : Bytes) : List Token :=
  .punct 0x7b :: .string (ascii "id") :: .punct 0x3a :: (id ++ .punct 0x2c :: (middleTokens created ++
    (model ++ .punct 0x2c :: closingTokens escaped)))

section Tokens

variable (sessionId model escaped : Bytes) (created : ℕ)

variable {sessionId model escaped}

end Tokens

/-! ### Its ids and models -/

/-- A text that may stand between the quotes of a document as it is. -/
def Verbatim (s : Bytes) : Prop := Plain s ∧ Utf8.valid s = true

instance (s : Bytes) : Decidable (Verbatim s) := inferInstanceAs (Decidable (_ ∧ _))

/-- A mark of two bytes in a token, replaced by one byte. -/
def replaceMark (second replacement : UInt8) : Bytes → Bytes
  | [] => []
  | [c] => [c]
  | c :: d :: rest =>
    if c = 0xc4 ∧ d = second then replacement :: replaceMark second replacement rest
    else c :: replaceMark second replacement (d :: rest)

/-- `detokenize`. -/
def detokenize (vocab : List Bytes) (id : ℤ) : Bytes :=
  if 0 ≤ id then (vocab[id.toNat]?).elim [] fun s => replaceMark 0x8a 0x0a (replaceMark 0xa0 0x20 s) else []

/-- The tokens that a model generates in one turn, and its vocabulary. A model with tensors that the kernels do not know
generates none, and its error text is left out. -/
structure LocalTurn where
  vocab : List Bytes
  ids : List ℤ

/-- `result_text`. -/
def LocalTurn.text (t : LocalTurn) : Bytes := t.ids.flatMap (detokenize t.vocab)

/-- The output of `infer_local`. -/
def inferLocal (t : LocalTurn) : Option Bytes := dump (localResponse t.text)

/-- What of a run of `execute_pipeline` does not come from the body: the turns of a local model, the outputs that the
session had before, and what routing and search give. -/
structure Run where
  turns : List LocalTurn
  turns_ne : turns ≠ []
  earlier : List Bytes
  taskType : Bytes
  target : Bytes
  evidence : List SearchResult
  now : ℕ

/-- The end of `execute_pipeline`. -/
def formatAnswer (stream : Bool) (sessionId model text : Bytes) (now : ℕ) : Option Bytes :=
  if stream then
    (dump (.object [(ascii "choices", .array [.object [(ascii "delta",
      .object [(ascii "content", .string text)])]])])).map fun delta =>
        ascii "data: " ++ delta ++ ascii "\n\n" ++ ascii "data: [DONE]\n\n"
  else (jsonEscape text).map fun escaped => completionBody sessionId model escaped now

/-- `execute_pipeline` with a local model, or nothing when an exception leaves it. -/
def answer (parse : Bytes → Option Json) (req : ParsedRequest) (run : Run) : Option Bytes := do
  let outputs ← run.turns.mapM inferLocal
  formatAnswer req.stream req.sessionId run.target
    (consolidate parse (run.earlier ++ outputs) run.taskType run.evidence) run.now

/-- The response of `process`. -/
inductive Reply
  | badRequest (body : Bytes)
  | answered (body : Bytes)
deriving DecidableEq, Repr

/-- `process`. -/
def process (lib : Library) (ms : ℤ) (raw : Bytes) (run : ParsedRequest → Run) : Option Reply :=
  match parseRequest lib ms raw with
  | .error message => some (.badRequest (ascii "\x7b\"error\":\x7b\"message\":\"" ++ message ++
      ascii "\",\"type\":\"invalid_request_error\"\x7d\x7d"))
  | .ok req =>
    if req.messages = [] then some (.badRequest (ascii ("\x7b\"error\":\x7b\"message\":\"Invalid request: 'messages' " ++
      "is a required non-empty array\",\"type\":\"invalid_request_error\"\x7d\x7d")))
    else (answer lib.parse req (run req)).map .answered

section Consolidated

variable (parse : Bytes → Option Json)

end Consolidated

/-! ### Answers -/

/-- Nothing is put into the response that needs an escape it does not get, or that cannot be escaped. -/
structure Clean (parse : Bytes → Option Json) (sessionId : Bytes) (run : Run) : Prop where
  sessionId : Verbatim sessionId
  target : Verbatim run.target
  turns : ∀ t ∈ run.turns, Utf8.valid t.text = true
  earlier : ∀ raw ∈ run.earlier, Utf8.valid (extractText parse raw) = true
  taskType : 2 ≤ run.earlier.length + run.turns.length → Utf8.valid run.taskType = true
  evidence : ∀ ev ∈ run.evidence, Utf8.valid ev.symbolName = true ∧ Utf8.valid ev.filePath = true

end DenseLite.Engine.Bodies
