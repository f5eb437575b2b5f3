import DenseLite.Engine.Requests
import Mathlib.Data.List.Nodup

/-! # The payload for the cloud

The messages and the tools that `infer_cloud` sends to a provider of the OpenAI format, next to those of the body of
the request. The type of a message has a name and a tool call id, and the payload has them when they are not empty;
but `parse_request` fills neither of the two. -/

namespace DenseLite.Engine.Fidelity

open DenseLite.Lib.ByteStream DenseLite.Engine.Context DenseLite.Engine.Pipeline DenseLite.Engine.Analyzer
open DenseLite.Engine.Dump DenseLite.Engine.Requests
open DenseLite.Infer.State (ascii occursIn)

/-! ### Objects -/

/-- The members of an object, sorted by their keys, after an assignment. -/
def setMember (key : Bytes) (v : Json) : List (Bytes × Json) → List (Bytes × Json)
  | [] => [(key, v)]
  | m :: rest =>
    if m.1 = key then (key, v) :: rest
    else if key < m.1 then (key, v) :: m :: rest
    else m :: setMember key v rest

/-- An object with the given assignments, one after the other. -/
def object (assignments : List (Bytes × Json)) : Json :=
  .object (assignments.foldl (fun members a => setMember a.1 a.2 members) [])

theorem find?_setMember (key : Bytes) (v : Json) (k : Bytes) : ∀ members : List (Bytes × Json),
    (setMember key v members).find? (·.1 = k) = if key = k then some (key, v) else members.find? (·.1 = k)
  | [] => by
    unfold setMember
    by_cases hk : key = k <;> simp [hk]
  | m :: rest => by
    have ih := find?_setMember key v k rest
    unfold setMember
    by_cases hk : key = k
    · subst hk
      rw [if_pos rfl] at ih ⊢
      split_ifs with h h'
      · simp
      · simp
      · simp [h, ih]
    · rw [if_neg hk] at ih ⊢
      split_ifs with h h'
      · simp [h, hk]
      · simp [hk]
      · simp only [List.find?_cons, ih]

/-- Of the assignments to a key the last one stays. -/
theorem get?_object (assignments : List (Bytes × Json)) (key : Bytes) :
    (object assignments).get? key = (assignments.reverse.find? (·.1 = key)).map (·.2) := by
  rw [object, Json.get?, ← List.foldr_reverse]
  congr 1
  induction assignments.reverse with
  | nil => rfl
  | cons a as ih =>
    rw [List.foldr_cons, find?_setMember, ih, List.find?_cons]
    by_cases h : a.1 = key
    · simp [← h]
    · simp [h]

/-! ### `infer_cloud` -/

/-- A message of the payload. -/
def payloadMessage (m : OpenAIMessage) : Json :=
  object <| [(ascii "role", .string m.role), (ascii "content", .string m.content)] ++
    (if m.name = [] then [] else [(ascii "name", .string m.name)]) ++
    if m.toolCallId = [] then [] else [(ascii "tool_call_id", .string m.toolCallId)]

/-- A tool of the payload; a schema that is no JSON is left out. -/
def payloadTool (lib : Library) (t : OpenAITool) : Json :=
  let parameters := if t.parametersSchema = [] then none else lib.parse t.parametersSchema
  let func := object <| [(ascii "name", .string t.name), (ascii "description", .string t.description)] ++
    (parameters.map fun p => (ascii "parameters", p)).toList
  object [(ascii "type", .string t.type), (ascii "function", func)]

/-- The payload in the OpenAI format, with the temperature and the limit of the output in force. -/
def openAiPayload (lib : Library) (model : Bytes) (temperature maxTokens : Json) (req : OpenAIRequest) : Json :=
  object <| [(ascii "model", .string model), (ascii "temperature", temperature), (ascii "max_tokens", maxTokens),
      (ascii "messages", .array (req.messages.map payloadMessage))] ++
    if req.tools = [] then [] else [(ascii "tools", .array (req.tools.map (payloadTool lib)))]

/-! ### Messages and tools of a document -/

/-- A member that may be missing, but else is a string. -/
def optionalString (j : Json) (key : Bytes) : Option (Option Bytes) :=
  match j.get? key with
  | none => some none
  | some (.string s) => some (some s)
  | some _ => none

/-- A message with string role and content and optional string name and tool call id. -/
def readMessage (msg : Json) : Option PayloadMessage := do
  let role ← msg.stringOf (ascii "role")
  let content ← msg.stringOf (ascii "content")
  let name ← optionalString msg (ascii "name")
  let toolCallId ← optionalString msg (ascii "tool_call_id")
  some { role, content, name, toolCallId }

/-- A function tool, with the schema of its parameters. -/
structure FunctionTool where
  type : Bytes
  name : Bytes
  description : Bytes
  parameters : Option Json

/-- A tool with a function; without a description it is described by nothing. -/
def readTool (t : Json) : Option FunctionTool := do
  let type ← t.stringOf (ascii "type")
  let f ← t.get? (ascii "function")
  let name ← f.stringOf (ascii "name")
  let description ← optionalString f (ascii "description")
  some { type, name, description := description.getD [], parameters := f.get? (ascii "parameters") }

/-- The messages of a document. -/
def readMessages (j : Json) : Option (List PayloadMessage) :=
  match j.get? (ascii "messages") with
  | some (.array items) => items.mapM readMessage
  | _ => none

/-- The tools of a document, which may have none. -/
def readTools (j : Json) : Option (List FunctionTool) :=
  match j.get? (ascii "tools") with
  | none => some []
  | some (.array items) => items.mapM readTool
  | some _ => none

/-- The document has the messages and the tools of the other one. -/
def SameRequest (body payload : Json) : Prop :=
  readMessages payload = readMessages body ∧ readTools payload = readTools body

/-! ### Reading lists -/

section Lists

variable {α β γ δ ε : Type}

/-- Two readings of the elements of a list that agree. -/
theorem map_eq_map_of_mapM {f : α → Option β} {g : α → Except ε γ} {h : γ → δ} {k : β → δ} :
    ∀ {as : List α} {bs : List β} {cs : List γ},
      (∀ a ∈ as, ∀ b c, f a = some b → g a = .ok c → h c = k b) → as.mapM f = some bs → as.mapM g = .ok cs →
        cs.map h = bs.map k
  | [], _, _, _, hf, hg => by
    cases hf
    cases hg
    rfl
  | a :: as, _, _, hfg, hf, hg => by
    rw [List.mapM_cons] at hf hg
    obtain ⟨b, hb, hf⟩ := Option.bind_eq_some_iff.mp hf
    obtain ⟨bs, hbs, hf⟩ := Option.bind_eq_some_iff.mp hf
    cases hf
    cases hc : g a with
    | error e =>
      rw [hc] at hg
      cases hg
    | ok c =>
      cases hcs : as.mapM g with
      | error e =>
        rw [hc, hcs] at hg
        cases hg
      | ok cs =>
        rw [hc, hcs] at hg
        cases hg
        rw [List.map_cons, List.map_cons, hfg a List.mem_cons_self b c hb hc,
          map_eq_map_of_mapM (fun x hx => hfg x (List.mem_cons_of_mem a hx)) hbs hcs]

/-- Elements that are written and read. -/
theorem mapM_map_eq_some {f : β → Option γ} {g : α → β} {k : α → γ} :
    ∀ {as : List α}, (∀ a ∈ as, f (g a) = some (k a)) → (as.map g).mapM f = some (as.map k)
  | [], _ => rfl
  | a :: as, h => by
    rw [List.map_cons, List.mapM_cons, h a List.mem_cons_self,
      mapM_map_eq_some fun x hx => h x (List.mem_cons_of_mem a hx)]
    rfl

end Lists

/-! ### What is sent -/

section Sent

variable {lib : Library} {req : OpenAIRequest}

/-- A message of the payload is read as the message it was made of. -/
theorem readMessage_payloadMessage (m : OpenAIMessage) : readMessage (payloadMessage m) =
    some ⟨m.role, m.content, if m.name = [] then none else some m.name,
      if m.toolCallId = [] then none else some m.toolCallId⟩ := by
  have hkeys : (ascii "role" ≠ ascii "content" ∧ ascii "role" ≠ ascii "name" ∧ ascii "content" ≠ ascii "name") ∧
      ascii "role" ≠ ascii "tool_call_id" ∧ ascii "content" ≠ ascii "tool_call_id" ∧
      ascii "name" ≠ ascii "tool_call_id" := by decide +kernel
  obtain ⟨⟨h1, h2, h3⟩, h4, h5, h6⟩ := hkeys
  unfold readMessage payloadMessage
  by_cases hname : m.name = [] <;> by_cases hid : m.toolCallId = [] <;>
    simp [Json.stringOf, optionalString, get?_object, hname, hid, h2, h3, h4, h5, h6, h1.symm, h2.symm, h3.symm,
      h4.symm, h5.symm, h6.symm]

/-- The tool that is read from a tool of the payload. -/
def sentTool (lib : Library) (t : OpenAITool) : FunctionTool where
  type := t.type
  name := t.name
  description := t.description
  parameters := if t.parametersSchema = [] then none else lib.parse t.parametersSchema

theorem readTool_payloadTool (t : OpenAITool) : readTool (payloadTool lib t) = some (sentTool lib t) := by
  have hkeys : ascii "type" ≠ ascii "function" ∧ ascii "name" ≠ ascii "description" ∧
      ascii "name" ≠ ascii "parameters" ∧ ascii "description" ≠ ascii "parameters" := by decide +kernel
  obtain ⟨h1, h2, h3, h4⟩ := hkeys
  unfold readTool payloadTool sentTool
  cases hp : if t.parametersSchema = [] then none else lib.parse t.parametersSchema <;>
    simp [Json.stringOf, optionalString, get?_object, h3, h4, h1.symm, h2.symm, h3.symm, h4.symm]

/-- The messages of the payload. -/
theorem readMessages_openAiPayload (model : Bytes) (temperature maxTokens : Json) {providerUrl : Bytes}
    (hurl : occursIn (ascii "generativelanguage") providerUrl = false) :
    readMessages (openAiPayload lib model temperature maxTokens req) = some (payloadMessages providerUrl req) := by
  have hkeys : ascii "tools" ≠ ascii "messages" := by decide +kernel
  have hget : (openAiPayload lib model temperature maxTokens req).get? (ascii "messages") =
      some (.array (req.messages.map payloadMessage)) := by
    unfold openAiPayload
    by_cases htools : req.tools = [] <;> simp [get?_object, htools, hkeys]
  rw [readMessages, hget, payloadMessages, if_neg (by rw [hurl]; exact Bool.false_ne_true)]
  exact mapM_map_eq_some fun m _ => readMessage_payloadMessage m

/-- The tools of the payload. -/
theorem readTools_openAiPayload (model : Bytes) (temperature maxTokens : Json) :
    readTools (openAiPayload lib model temperature maxTokens req) = some (req.tools.map (sentTool lib)) := by
  have hkeys : ascii "messages" ≠ ascii "tools" ∧ ascii "max_tokens" ≠ ascii "tools" ∧
      ascii "temperature" ≠ ascii "tools" ∧ ascii "model" ≠ ascii "tools" := by decide +kernel
  by_cases htools : req.tools = []
  · have hget : (openAiPayload lib model temperature maxTokens req).get? (ascii "tools") = none := by
      simp [openAiPayload, get?_object, htools, hkeys]
    rw [readTools, hget, htools]
    rfl
  · have hget : (openAiPayload lib model temperature maxTokens req).get? (ascii "tools") =
        some (.array (req.tools.map (payloadTool lib))) := by
      simp [openAiPayload, get?_object, htools]
    rw [readTools, hget]
    exact mapM_map_eq_some fun t _ => readTool_payloadTool t

end Sent

/-! ### What is parsed -/

section Parsed

variable {lib : Library}

theorem get?_eq_of_stringOf {j : Json} {key s : Bytes} (h : j.stringOf key = some s) :
    j.get? key = some (.string s) := by
  unfold Json.stringOf at h
  split at h
  · rename_i hget
    rw [hget, Option.some.inj h]
  · cases h

theorem valueString_of_stringOf {j : Json} {key s : Bytes} (fallback : Bytes) (h : j.stringOf key = some s) :
    valueString j key fallback = .ok s := by
  have hget := get?_eq_of_stringOf h
  cases j with
  | object members => rw [valueString, hget]
  | _ => cases hget

/-- An object with a string has another member as a string, or none. -/
theorem valueString_of_optionalString {j : Json} {other key s : Bytes} {v : Option Bytes}
    (hother : j.stringOf other = some s) (h : optionalString j key = some v) :
    valueString j key [] = .ok (v.getD []) := by
  have hget := get?_eq_of_stringOf hother
  cases j with
  | object members =>
    unfold optionalString at h
    split at h
    · rename_i hnone
      cases h
      rw [valueString, hnone]
      rfl
    · rename_i hstring
      cases h
      rw [valueString, hstring]
      rfl
    · cases h
  | _ => cases hget

/-- A message with string role and content is read without its name and its tool call id. -/
theorem parseMessage_of_readMessage (msg : Json) (m : PayloadMessage) (h : readMessage msg = some m) :
    parseMessage msg = .ok ⟨m.role, m.content, [], []⟩ := by
  obtain ⟨role, hrole, h⟩ := Option.bind_eq_some_iff.mp h
  obtain ⟨content, hcontent, h⟩ := Option.bind_eq_some_iff.mp h
  obtain ⟨name, -, h⟩ := Option.bind_eq_some_iff.mp h
  obtain ⟨toolCallId, -, h⟩ := Option.bind_eq_some_iff.mp h
  cases h
  rw [parseMessage, valueString_of_stringOf [] hrole, contentOf, get?_eq_of_stringOf hcontent]
  rfl

/-- A tool that has been read is the one that the payload has. -/
theorem sentTool_of_readTool (hlib : lib.RoundTrips) {raw : Bytes} {j : Json} (hparse : lib.parse raw = some j)
    {t : Json} (ht : Within t j) {tool : FunctionTool} {parsed : OpenAITool} (hread : readTool t = some tool)
    (hparsed : parseTool t = .ok parsed) : sentTool lib parsed = tool := by
  obtain ⟨type, htype, hread⟩ := Option.bind_eq_some_iff.mp hread
  obtain ⟨f, hf, hread⟩ := Option.bind_eq_some_iff.mp hread
  obtain ⟨name, hname, hread⟩ := Option.bind_eq_some_iff.mp hread
  obtain ⟨description, hdescription, hread⟩ := Option.bind_eq_some_iff.mp hread
  cases hread
  have hdescribed := valueString_of_optionalString hname hdescription
  rw [parseTool, valueString_of_stringOf _ htype] at hparsed
  simp only [hf, valueString_of_stringOf _ hname, hdescribed, bind, Except.bind, schemaOf] at hparsed
  cases hp : f.get? (ascii "parameters") with
  | none =>
    rw [hp] at hparsed
    cases hparsed
    rfl
  | some p =>
    obtain ⟨text, hdump, hread⟩ := hlib.parse_dump hparse ((Within.of_get? hf (.of_get? hp .self)).trans ht)
    rw [hp] at hparsed
    simp only [hdump] at hparsed
    cases hparsed
    have htext : text ≠ [] := by
      rintro rfl
      rw [hlib.parse_nil] at hread
      cases hread
    simp only [sentTool, if_neg htext, hread]

end Parsed

/-! ### Fidelity -/

/-- A message without its name and its tool call id. -/
def anonymous (m : PayloadMessage) : PayloadMessage := { role := m.role, content := m.content }

theorem anonymous_eq_self_iff (m : PayloadMessage) : anonymous m = m ↔ m.name = none ∧ m.toolCallId = none := by
  obtain ⟨role, content, name, toolCallId⟩ := m
  simp [anonymous, eq_comm]

variable {lib : Library} {ms : ℤ} {j : Json} {req : ParsedRequest}

/-- What is sent of the messages of a body: their roles and contents. -/
theorem payloadMessages_of_reads (h : Reads lib ms j req) {messages : List PayloadMessage}
    (hmessages : readMessages j = some messages) {providerUrl : Bytes}
    (hurl : occursIn (ascii "generativelanguage") providerUrl = false) {sent : OpenAIRequest}
    (hsent : sent.messages = req.messages) :
    payloadMessages providerUrl sent = messages.map anonymous := by
  rw [payloadMessages, if_neg (by rw [hurl]; exact Bool.false_ne_true), hsent]
  unfold readMessages at hmessages
  split at hmessages
  · rename_i items hitems
    have hparsed := h.messages
    rw [arrayOf, hitems] at hparsed
    refine map_eq_map_of_mapM (fun msg _ m parsed hread hparse => ?_) hmessages hparsed
    rw [parseMessage_of_readMessage msg m hread] at hparse
    cases hparse
    rfl
  · cases hmessages

/-- What is sent of the tools of a body: all of it. -/
theorem sentTools_of_reads (hlib : lib.RoundTrips) {raw : Bytes} (hparse : lib.parse raw = some j)
    (h : Reads lib ms j req) {tools : List FunctionTool} (htools : readTools j = some tools) :
    req.tools.map (sentTool lib) = tools := by
  have hparsed := h.tools
  unfold readTools at htools
  split at htools
  · rename_i hnone
    rw [arrayOf, hnone] at hparsed
    cases htools
    rw [show req.tools = [] from (Except.ok.inj hparsed).symm]
    rfl
  · rename_i items hitems
    rw [arrayOf, hitems] at hparsed
    rw [← List.map_id tools]
    refine map_eq_map_of_mapM (fun t ht tool parsed hread hparse' => ?_) htools hparsed
    exact sentTool_of_readTool hlib hparse (.of_get? hitems (.item ht .self)) hread hparse'
  · cases htools

/-- **The payload has the messages and the tools of the body exactly when no message has a name or a tool call id.** -/
theorem sameRequest_iff {raw : Bytes} {body : Json} (hlib : lib.RoundTrips) (hbody : lib.parse raw = some body)
    (hreq : parseRequest lib ms raw = .ok req) {messages : List PayloadMessage} {tools : List FunctionTool}
    (hmessages : readMessages body = some messages) (htools : readTools body = some tools) {inp : Inputs}
    (hkept : (prepared inp).messages = req.messages ∧ (prepared inp).tools = req.tools) (model : Bytes)
    (temperature maxTokens : Json) :
    SameRequest body (openAiPayload lib model temperature maxTokens (prepared inp)) ↔
      ∀ m ∈ messages, m.name = none ∧ m.toolCallId = none := by
  obtain ⟨j, hj, hreads⟩ := reads_of_parseRequest hreq
  obtain rfl : body = j := Option.some.inj (hbody ▸ hj)
  have hurl : occursIn (ascii "generativelanguage") [] = false := by decide +kernel
  have hsent := payloadMessages_of_reads hreads hmessages hurl hkept.1
  rw [SameRequest, readMessages_openAiPayload model temperature maxTokens hurl, readTools_openAiPayload, hkept.2,
    sentTools_of_reads hlib hbody hreads htools, hmessages, htools, hsent]
  simp only [and_true, Option.some_inj]
  calc messages.map anonymous = messages
    _ ↔ messages.map anonymous = messages.map id := by rw [List.map_id]
    _ ↔ ∀ m ∈ messages, anonymous m = m := List.map_inj_left
    _ ↔ ∀ m ∈ messages, m.name = none ∧ m.toolCallId = none := by simp only [anonymous_eq_self_iff]

/-! ### A tool's answer -/

mutual

/-- A value and all that stand in it. -/
def subvalues : Json → List Json
  | .array items => .array items :: itemValues items
  | .object members => .object members :: memberValues members
  | j => [j]

def itemValues : List Json → List Json
  | [] => []
  | x :: rest => subvalues x ++ itemValues rest

def memberValues : List (Bytes × Json) → List Json
  | [] => []
  | (_, x) :: rest => subvalues x ++ memberValues rest

end

theorem self_mem_subvalues (j : Json) : j ∈ subvalues j := by
  cases j <;> simp [subvalues]

theorem mem_itemValues {x p : Json} (hp : p ∈ subvalues x) : ∀ {items : List Json}, x ∈ items → p ∈ itemValues items
  | y :: rest, hx => by
    unfold itemValues
    rcases List.mem_cons.mp hx with rfl | hx
    · exact List.mem_append_left _ hp
    · exact List.mem_append_right _ (mem_itemValues hp hx)

theorem mem_memberValues {key : Bytes} {x p : Json} (hp : p ∈ subvalues x) :
    ∀ {members : List (Bytes × Json)}, (key, x) ∈ members → p ∈ memberValues members
  | y :: rest, hx => by
    unfold memberValues
    rcases List.mem_cons.mp hx with rfl | hx
    · exact List.mem_append_left _ hp
    · exact List.mem_append_right _ (mem_memberValues hp hx)

theorem mem_subvalues_of_within {p j : Json} (h : Within p j) : p ∈ subvalues j := by
  induction h with
  | self => exact self_mem_subvalues p
  | item hx _ ih => exact List.mem_cons_of_mem _ (mem_itemValues ih hx)
  | member hx _ ih => exact List.mem_cons_of_mem _ (mem_memberValues ih hx)

mutual

theorem within_of_mem_subvalues {p : Json} : ∀ {j : Json}, p ∈ subvalues j → Within p j
  | .array items, h => by
    rcases List.mem_cons.mp h with rfl | h
    · exact .self
    · obtain ⟨x, hx, hp⟩ := exists_of_mem_itemValues h
      exact .item hx hp
  | .object members, h => by
    rcases List.mem_cons.mp h with rfl | h
    · exact .self
    · obtain ⟨key, x, hx, hp⟩ := exists_of_mem_memberValues h
      exact .member hx hp
  | .null, h | .bool _, h | .number _, h | .string _, h => List.mem_singleton.mp h ▸ .self

theorem exists_of_mem_itemValues {p : Json} : ∀ {items : List Json}, p ∈ itemValues items → ∃ x ∈ items, Within p x
  | x :: rest, h => by
    rcases List.mem_append.mp h with h | h
    · exact ⟨x, List.mem_cons_self, within_of_mem_subvalues h⟩
    · obtain ⟨y, hy, hp⟩ := exists_of_mem_itemValues h
      exact ⟨y, List.mem_cons_of_mem x hy, hp⟩

theorem exists_of_mem_memberValues {p : Json} : ∀ {members : List (Bytes × Json)}, p ∈ memberValues members →
    ∃ key x, (key, x) ∈ members ∧ Within p x
  | (key, x) :: rest, h => by
    rcases List.mem_append.mp h with h | h
    · exact ⟨key, x, List.mem_cons_self, within_of_mem_subvalues h⟩
    · obtain ⟨key', y, hy, hp⟩ := exists_of_mem_memberValues h
      exact ⟨key', y, List.mem_cons_of_mem _ hy, hp⟩

end

/-- The JSON library on the texts of a value and of all that stand in it. -/
def libraryOf (body : Json) : Library where
  parse raw := (subvalues body).find? fun v => dump v = some raw
  toInt _ := 0

theorem roundTrips_libraryOf {body : Json} (hnodup : ((subvalues body).map dump).Nodup)
    (hsome : ∀ text ∈ (subvalues body).map dump, text ≠ none ∧ text ≠ some []) : (libraryOf body).RoundTrips where
  parse_nil := by
    refine List.find?_eq_none.mpr fun v hv => ?_
    simpa using (hsome _ (List.mem_map_of_mem hv)).2
  parse_dump := by
    intro raw j p hraw hp
    have hj := within_of_mem_subvalues (List.mem_of_find?_eq_some hraw)
    have hmem := mem_subvalues_of_within (hp.trans hj)
    obtain ⟨text, htext⟩ := Option.ne_none_iff_exists'.mp (hsome _ (List.mem_map_of_mem hmem)).1
    refine ⟨text, htext, ?_⟩
    cases hfind : (libraryOf body).parse text with
    | none => exact absurd htext (by simpa using List.find?_eq_none.mp hfind p hmem)
    | some v =>
      have hv : dump v = some text := by simpa using List.find?_some hfind
      rw [List.inj_on_of_nodup_map hnodup (List.mem_of_find?_eq_some hfind) hmem (hv.trans htext.symm)]

/-- The answer of a tool to a call. -/
def toolBody : Json :=
  .object [(ascii "messages", .array [.object [(ascii "content", .string (ascii "42")),
      (ascii "role", .string (ascii "tool")), (ascii "tool_call_id", .string (ascii "call_1"))]]),
    (ascii "tools", .array [.object [(ascii "function", .object [(ascii "name", .string (ascii "lookup")),
      (ascii "parameters", .object [(ascii "type", .string (ascii "object"))])]),
      (ascii "type", .string (ascii "function"))]])]

theorem roundTrips_toolBody : (libraryOf toolBody).RoundTrips :=
  roundTrips_libraryOf (by decide +kernel) (by decide +kernel)

/-- The request that it is parsed to. -/
def toolRequest : ParsedRequest where
  model := ascii "denselite"
  messages := [⟨ascii "tool", ascii "42", [], []⟩]
  tools := [⟨ascii "function", ascii "lookup", [], ascii "\x7b\"type\":\"object\"\x7d"⟩]
  sessionId := ascii "req_0"
  maxTokens := ascii "512"
  temperature := ascii "0.7"
  repetitionPenalty := ascii "1.15"
  stream := true

/-- The pipeline without tool pruning. -/
def toolInputs : Inputs :=
  { plainRequest [] fun _ => plainEnv [] [] 200 [] with request := toolRequest.toOpenAIRequest }

theorem parse_toolBody : (libraryOf toolBody).parse ((dump toolBody).getD []) = some toolBody := by rfl

theorem parseRequest_toolBody :
    parseRequest (libraryOf toolBody) 0 ((dump toolBody).getD []) = .ok toolRequest := by
  rw [parseRequest, parse_toolBody]
  rfl

theorem readMessages_toolBody :
    readMessages toolBody = some [⟨ascii "tool", ascii "42", none, some (ascii "call_1")⟩] := by rfl

theorem readTools_toolBody : readTools toolBody = some [⟨ascii "function", ascii "lookup", [],
    some (.object [(ascii "type", .string (ascii "object"))])⟩] := by rfl

theorem prepared_toolInputs : (prepared toolInputs).messages = toolRequest.messages ∧
    (prepared toolInputs).tools = toolRequest.tools := by decide +kernel

theorem sameRequest_toolBody_iff :
    SameRequest toolBody
        (openAiPayload (libraryOf toolBody) (ascii "gpt") .null .null (prepared toolInputs)) ↔
      ∀ m ∈ [(⟨ascii "tool", ascii "42", none, some (ascii "call_1")⟩ : PayloadMessage)],
        m.name = none ∧ m.toolCallId = none :=
  sameRequest_iff roundTrips_toolBody parse_toolBody parseRequest_toolBody readMessages_toolBody readTools_toolBody
    prepared_toolInputs (ascii "gpt") .null .null

/-- The answer of a tool is sent without the id of the call that it answers. -/
theorem tool_call_id_lost :
    parseRequest (libraryOf toolBody) 0 ((dump toolBody).getD []) = .ok toolRequest ∧
      (prepared toolInputs).messages = toolRequest.messages ∧ (prepared toolInputs).tools = toolRequest.tools ∧
      ¬ SameRequest toolBody
        (openAiPayload (libraryOf toolBody) (ascii "gpt") .null .null (prepared toolInputs)) := by
  refine ⟨parseRequest_toolBody, prepared_toolInputs.1, prepared_toolInputs.2, fun h => ?_⟩
  exact absurd h.1 (by decide +kernel)

end DenseLite.Engine.Fidelity
