import DenseLite.Engine.Dump

/-! # Requests

What `RequestAnalyzer::parse_request` makes of the body of a request. Reading JSON is a parameter (`Library`); a value
of the wrong type makes the library throw, and every exception becomes the same answer. -/

namespace DenseLite.Engine.Requests

open DenseLite.Lib.ByteStream DenseLite.Engine.Context DenseLite.Engine.Sessions DenseLite.Engine.Analyzer
open DenseLite.Engine.Dump
open DenseLite.Infer.State (ascii)

/-! ### The JSON library -/

/-- A value that is the other one, or stands in it. -/
inductive Within (p : Json) : Json → Prop
  | self : Within p p
  | item {x : Json} {items : List Json} (hx : x ∈ items) (h : Within p x) : Within p (.array items)
  | member {key : Bytes} {x : Json} {members : List (Bytes × Json)} (hx : (key, x) ∈ members)
    (h : Within p x) : Within p (.object members)

theorem Within.trans {p x j : Json} (hp : Within p x) (hx : Within x j) : Within p j := by
  induction hx with
  | self => exact hp
  | item hmem _ ih => exact .item hmem ih
  | member hmem _ ih => exact .member hmem ih

theorem Within.of_get? {j : Json} {key : Bytes} {x p : Json} (h : j.get? key = some x) (hp : Within p x) :
    Within p j := by
  cases j with
  | object members =>
    obtain ⟨⟨k, _⟩, hfind, rfl⟩ := Option.map_eq_some_iff.mp h
    exact .member (List.mem_of_find?_eq_some hfind) hp
  | _ => simp [Json.get?] at h

/-- How the JSON library reads: `parse`, with nothing where it throws, and `get<int>` of a number. The text of a number
is the one that `dump` writes. -/
structure Library where
  parse : Bytes → Option Json
  toInt : Bytes → ℤ

/-- The empty text is no JSON, and what was read can be written and is then read again as it was. -/
structure Library.RoundTrips (lib : Library) : Prop where
  parse_nil : lib.parse [] = none
  parse_dump : ∀ {raw j p}, lib.parse raw = some j → Within p j → ∃ text, dump p = some text ∧
    lib.parse text = some p

/-! ### Members with defaults -/

/-- `value` with a string as the default. -/
def valueString (j : Json) (key fallback : Bytes) : Except Unit Bytes :=
  match j with
  | .object _ =>
    match j.get? key with
    | none => .ok fallback
    | some (.string s) => .ok s
    | some _ => .error ()
  | _ => .error ()

/-- `value` with a number as the default. Numbers stay as they are written; a boolean is taken for one. -/
def valueNumber (j : Json) (key fallback : Bytes) : Except Unit Bytes :=
  match j with
  | .object _ =>
    match j.get? key with
    | none => .ok fallback
    | some (.number text) => .ok text
    | some (.bool b) => .ok (if b then ascii "1" else ascii "0")
    | some _ => .error ()
  | _ => .error ()

/-- `value` with a boolean as the default. -/
def valueBool (j : Json) (key : Bytes) (fallback : Bool) : Except Unit Bool :=
  match j with
  | .object _ =>
    match j.get? key with
    | none => .ok fallback
    | some (.bool b) => .ok b
    | some _ => .error ()
  | _ => .error ()

/-! ### `parse_request` -/

/-- `OpenAIRequest`, with the fields that only single functions read. -/
structure ParsedRequest extends OpenAIRequest where
  sessionId : Bytes
  maxTokens : Bytes
  temperature : Bytes
  repetitionPenalty : Bytes
  stream : Bool
deriving DecidableEq, Repr

/-- The text of a part of a content. -/
def partText (part : Json) : Except Unit Bytes :=
  if part.stringOf (ascii "type") = some (ascii "text") then
    match part.get? (ascii "text") with
    | none => .ok []
    | some (.string s) => .ok s
    | some _ => .error ()
  else .ok []

/-- The content of a message: a string, the texts of its parts, or nothing. -/
def contentOf (msg : Json) : Except Unit Bytes :=
  match msg.get? (ascii "content") with
  | some (.string s) => .ok s
  | some (.array parts) => (parts.mapM partText).map List.flatten
  | _ => .ok []

/-- A message; neither `name` nor `tool_call_id` is read. -/
def parseMessage (msg : Json) : Except Unit OpenAIMessage := do
  let role ← valueString msg (ascii "role") []
  let content ← contentOf msg
  .ok { role, content }

/-- The text of the parameters of a function. -/
def schemaOf (function : Json) : Except Unit Bytes :=
  match function.get? (ascii "parameters") with
  | none => .ok []
  | some p =>
    match dump p with
    | none => .error ()
    | some text => .ok text

/-- A tool. -/
def parseTool (t : Json) : Except Unit OpenAITool := do
  let type ← valueString t (ascii "type") (ascii "function")
  match t.get? (ascii "function") with
  | none => .ok { type, name := [], description := [], parametersSchema := [] }
  | some f => do
    let name ← valueString f (ascii "name") []
    let description ← valueString f (ascii "description") []
    let parametersSchema ← schemaOf f
    .ok { type, name, description, parametersSchema }

/-- The elements of a member that is an array. -/
def arrayOf (j : Json) (key : Bytes) : List Json :=
  match j.get? key with
  | some (.array items) => items
  | _ => []

/-- `parse_bool_val`. -/
def parseBoolVal (lib : Library) : Json → Bool
  | .bool b => b
  | .number text => lib.toInt text ≠ 0
  | .string s => s = ascii "true" ∨ s = ascii "1"
  | _ => false

/-- `use_context`: the first of three members that is there. -/
def contextFlag (lib : Library) (j : Json) : Bool :=
  (((j.get? (ascii "use_context")).or ((j.get? (ascii "inject_context")).or (j.get? (ascii "rag")))).map
    (parseBoolVal lib)).getD true

/-- The members that can name a session. -/
def idsOf (j : Json) : RequestIds where
  sessionId := j.stringOf (ascii "session_id")
  conversationId := j.stringOf (ascii "conversation_id")
  user := j.stringOf (ascii "user")

/-- The request of a JSON value, at `ms` milliseconds. -/
def requestOf (lib : Library) (ms : ℤ) (j : Json) : Except Unit ParsedRequest := do
  let model ← valueString j (ascii "model") (ascii "denselite")
  let olderMax ← valueNumber j (ascii "max_tokens") (ascii "512")
  let maxTokens ← valueNumber j (ascii "max_completion_tokens") olderMax
  let temperature ← valueNumber j (ascii "temperature") (ascii "0.7")
  let repetitionPenalty ← valueNumber j (ascii "repetition_penalty") (ascii "1.15")
  let stream ← valueBool j (ascii "stream") true
  let messages ← (arrayOf j (ascii "messages")).mapM parseMessage
  let tools ← (arrayOf j (ascii "tools")).mapM parseTool
  .ok
    { model, messages, tools, useContext := contextFlag lib j, sessionId := parsedSessionId (idsOf j) ms
      maxTokens, temperature, repetitionPenalty, stream }

/-- `RequestAnalyzer::parse_request`. -/
def parseRequest (lib : Library) (ms : ℤ) (raw : Bytes) : Except Bytes ParsedRequest :=
  match (lib.parse raw).elim (.error ()) (requestOf lib ms) with
  | .ok req => .ok req
  | .error () => .error (ascii "Malformed JSON in request body")

/-! ### What a request has -/

theorem exists_of_bind_eq_ok {α β : Type} {x : Except Unit α} {f : α → Except Unit β} {b : β}
    (h : x >>= f = .ok b) : ∃ a, x = .ok a ∧ f a = .ok b := by
  cases x with
  | error e => cases h
  | ok a => exact ⟨a, rfl, h⟩

/-- The fields of a request, and where they are read. -/
structure Reads (lib : Library) (ms : ℤ) (j : Json) (req : ParsedRequest) : Prop where
  model : valueString j (ascii "model") (ascii "denselite") = .ok req.model
  messages : (arrayOf j (ascii "messages")).mapM parseMessage = .ok req.messages
  tools : (arrayOf j (ascii "tools")).mapM parseTool = .ok req.tools
  useContext : req.useContext = contextFlag lib j
  sessionId : req.sessionId = parsedSessionId (idsOf j) ms
  stream : valueBool j (ascii "stream") true = .ok req.stream

theorem reads_of_requestOf {lib : Library} {ms : ℤ} {j : Json} {req : ParsedRequest}
    (h : requestOf lib ms j = .ok req) : Reads lib ms j req := by
  obtain ⟨model, hmodel, h⟩ := exists_of_bind_eq_ok h
  obtain ⟨olderMax, -, h⟩ := exists_of_bind_eq_ok h
  obtain ⟨maxTokens, -, h⟩ := exists_of_bind_eq_ok h
  obtain ⟨temperature, -, h⟩ := exists_of_bind_eq_ok h
  obtain ⟨repetitionPenalty, -, h⟩ := exists_of_bind_eq_ok h
  obtain ⟨stream, hstream, h⟩ := exists_of_bind_eq_ok h
  obtain ⟨messages, hmessages, h⟩ := exists_of_bind_eq_ok h
  obtain ⟨tools, htools, h⟩ := exists_of_bind_eq_ok h
  cases h
  exact ⟨hmodel, hmessages, htools, rfl, rfl, hstream⟩

/-- A body that is accepted is JSON, and the request is read from it. -/
theorem reads_of_parseRequest {lib : Library} {ms : ℤ} {raw : Bytes} {req : ParsedRequest}
    (h : parseRequest lib ms raw = .ok req) : ∃ j, lib.parse raw = some j ∧ Reads lib ms j req := by
  unfold parseRequest at h
  cases hparse : lib.parse raw with
  | none =>
    rw [hparse] at h
    cases h
  | some j =>
    rw [hparse, Option.elim_some] at h
    cases hreq : requestOf lib ms j with
    | error e =>
      rw [hreq] at h
      cases h
    | ok req' =>
      rw [hreq] at h
      cases h
      exact ⟨j, rfl, reads_of_requestOf hreq⟩

end DenseLite.Engine.Requests
