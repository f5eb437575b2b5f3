import DenseLite.Engine.Bodies
import DenseLite.Lib.EventStream
import DenseLite.Lib.JsonWriting

/-! # Streamed replies

What `json::dump` writes is a document with the value that was dumped and no other (`dump_reads`). `Formatter` puts such a
document into an event; a client that reads the stream gets the events back one by one (`stream_reads`), since no line
end stands in a document. -/

namespace DenseLite.Engine.Events

open DenseLite.Lib DenseLite.Lib.ByteStream DenseLite.Lib.JsonText DenseLite.Engine.Analyzer DenseLite.Engine.Dump
open DenseLite.Engine.Bodies
open DenseLite.Infer.State (ascii)

/-! ### The values that are dumped -/

mutual

/-- The value of the document. -/
def valueOf : Json → Value
  | .null => .null
  | .bool b => .bool b
  | .number text => .number text
  | .string s => .string s
  | .array items => .array (valuesOf items)
  | .object members => .object (membersOf members)

def valuesOf : List Json → List Value
  | [] => []
  | j :: items => valueOf j :: valuesOf items

def membersOf : List (Bytes × Json) → List (Bytes × Value)
  | [] => []
  | (key, j) :: members => (key, valueOf j) :: membersOf members

end

mutual

/-- The numbers in the value are written as numbers. -/
def numeric : Json → Bool
  | .number text => isNumber text
  | .array items => numericItems items
  | .object members => numericMembers members
  | .null | .bool _ | .string _ => true

def numericItems : List Json → Bool
  | [] => true
  | j :: items => numeric j && numericItems items

def numericMembers : List (Bytes × Json) → Bool
  | [] => true
  | (_, j) :: members => numeric j && numericMembers members

end

mutual

/-- The strings and the keys in the value are UTF-8. -/
def utf8 : Json → Bool
  | .string s => Utf8.valid s
  | .array items => utf8Items items
  | .object members => utf8Members members
  | .null | .bool _ | .number _ => true

def utf8Items : List Json → Bool
  | [] => true
  | j :: items => utf8 j && utf8Items items

def utf8Members : List (Bytes × Json) → Bool
  | [] => true
  | (key, j) :: members => Utf8.valid key && (utf8 j && utf8Members members)

end

/-! ### Dumping -/

theorem dumpString_isSome (s : Bytes) : (dumpString s).isSome = Utf8.valid s := by
  rw [dumpString, Option.isSome_map, jsonEscape_isSome]

theorem exists_body {s text : Bytes} (h : dumpString s = some text) :
    ∃ body, text = 0x22 :: body ++ [0x22] ∧ Utf8.valid body = true ∧ Decodes body s := by
  obtain ⟨body, hbody, rfl⟩ := Option.map_eq_some_iff.mp h
  obtain ⟨hvalid, rfl⟩ := jsonEscape_eq_some_iff.mp hbody
  exact ⟨_, rfl, by rw [Utf8.valid_flatMap keepsCharacters_escapeByte, hvalid], decodes_flatMap_escapeByte s⟩

mutual

/-- `dump` throws exactly when a string or a key is not UTF-8. -/
theorem dump_isSome : ∀ j : Json, (dump j).isSome = utf8 j
  | .null | .bool _ | .number _ => rfl
  | .string s => dumpString_isSome s
  | .array items => by rw [dump, Option.isSome_map, dumpItems_isSome, utf8]
  | .object members => by rw [dump, Option.isSome_map, dumpMembers_isSome, utf8]

theorem dumpItems_isSome : ∀ items : List Json, (dumpItems items).isSome = utf8Items items
  | [] => rfl
  | [j] => by rw [dumpItems, dump_isSome, utf8Items, utf8Items, Bool.and_true]
  | j :: k :: rest => by
    rw [dumpItems, utf8Items, ← dump_isSome j, ← dumpItems_isSome (k :: rest)]
    cases dump j <;> cases dumpItems (k :: rest) <;> rfl

theorem dumpMembers_isSome : ∀ members : List (Bytes × Json), (dumpMembers members).isSome = utf8Members members
  | [] => rfl
  | [(key, j)] => by
    rw [dumpMembers, utf8Members, utf8Members, Bool.and_true, ← dump_isSome j, ← dumpString_isSome key]
    cases dumpString key <;> cases dump j <;> rfl
  | (key, j) :: m :: rest => by
    rw [dumpMembers, utf8Members, ← dump_isSome j, ← dumpMembers_isSome (m :: rest), ← dumpString_isSome key]
    cases dumpString key <;> cases dump j <;> cases dumpMembers (m :: rest) <;> rfl

end

mutual

theorem writes_dump : ∀ {j : Json} {text : Bytes}, numeric j = true → dump j = some text → Writes (valueOf j) text
  | .null, _, _, h => Option.some.inj h ▸ writes_null
  | .bool b, _, _, h => Option.some.inj h ▸ by cases b <;> exact writes_bool _
  | .number text, _, hj, h => Option.some.inj h ▸ writes_number hj
  | .string s, _, _, h => by
    obtain ⟨body, rfl, hvalid, hs⟩ := exists_body h
    exact writes_string hvalid hs
  | .array [], _, _, h => Option.some.inj h ▸ writes_emptyArray
  | .array (j :: items), _, hj, h => by
    obtain ⟨text, htext, rfl⟩ := Option.map_eq_some_iff.mp h
    exact writes_array (writes_dumpItems (List.cons_ne_nil _ _) hj htext)
  | .object [], _, _, h => Option.some.inj h ▸ writes_emptyObject
  | .object (m :: members), _, hj, h => by
    obtain ⟨text, htext, rfl⟩ := Option.map_eq_some_iff.mp h
    exact writes_object (writes_dumpMembers (List.cons_ne_nil _ _) hj htext)

theorem writes_dumpItems : ∀ {items : List Json} {text : Bytes}, items ≠ [] → numericItems items = true →
    dumpItems items = some text → WritesItems (valuesOf items) text
  | [], _, hne, _, _ => absurd rfl hne
  | [_], _, _, hj, h => writesItems_last (writes_dump (Bool.and_eq_true_iff.mp hj).1 h)
  | _ :: k :: rest, _, _, hj, h => by
    obtain ⟨hj, hrest⟩ := Bool.and_eq_true_iff.mp hj
    obtain ⟨text, htext, h⟩ := Option.bind_eq_some_iff.mp h
    obtain ⟨more, hmore, h⟩ := Option.bind_eq_some_iff.mp h
    rw [← Option.some.inj h, List.append_assoc]
    exact writesItems_more (writes_dump hj htext) (writes_dumpItems (List.cons_ne_nil k rest) hrest hmore)

theorem writes_dumpMembers : ∀ {members : List (Bytes × Json)} {text : Bytes}, members ≠ [] →
    numericMembers members = true → dumpMembers members = some text → WritesMembers (membersOf members) text
  | [], _, hne, _, _ => absurd rfl hne
  | [(_, _)], _, _, hj, h => by
    obtain ⟨name, hname, h⟩ := Option.bind_eq_some_iff.mp h
    obtain ⟨text, htext, h⟩ := Option.bind_eq_some_iff.mp h
    obtain ⟨body, rfl, hvalid, hkey⟩ := exists_body hname
    rw [← Option.some.inj h, List.append_assoc]
    exact writesMembers_last hvalid hkey (writes_dump (Bool.and_eq_true_iff.mp hj).1 htext)
  | (_, _) :: m :: rest, _, _, hj, h => by
    obtain ⟨hj, hrest⟩ := Bool.and_eq_true_iff.mp hj
    obtain ⟨name, hname, h⟩ := Option.bind_eq_some_iff.mp h
    obtain ⟨text, htext, h⟩ := Option.bind_eq_some_iff.mp h
    obtain ⟨more, hmore, h⟩ := Option.bind_eq_some_iff.mp h
    obtain ⟨body, rfl, hvalid, hkey⟩ := exists_body hname
    have hwrites := writesMembers_more hvalid hkey (writes_dump hj htext)
      (writes_dumpMembers (List.cons_ne_nil m rest) hrest hmore)
    rw [List.append_assoc] at hwrites
    rw [← Option.some.inj h, List.append_assoc, List.append_assoc, List.append_assoc]
    exact hwrites

end

/-- **What `dump` writes is a document with the value that was dumped, and with no other one.** It throws exactly when a
string or a key is not UTF-8. -/
theorem dump_reads (j : Json) (hj : numeric j = true) : (dump j).isSome = utf8 j ∧
    ∀ text, dump j = some text → ∀ v, Document text v ↔ v = valueOf j :=
  ⟨dump_isSome j, fun _ h v => document_iff (writes_dump hj h) v⟩

/-- An object with an escaped string, and a number in an array. -/
def quotedObject : Json :=
  .object [(ascii "a\"", .string [0x22, 0x5c, 0x0a, 0x01]), (ascii "b", .array [.number (ascii "7"), .null])]

theorem dump_reads_quotedObject : numeric quotedObject = true ∧ (dump quotedObject).isSome = utf8 quotedObject ∧
    ∀ text, dump quotedObject = some text → ∀ v, Document text v ↔ v = valueOf quotedObject := by
  have hnumber : numeric quotedObject = true := by decide +kernel
  exact ⟨hnumber, dump_reads quotedObject hnumber⟩

/-! ### `Formatter` -/

/-- An event with a value. -/
def event (j : Json) : Option Bytes := (dump j).map fun text => ascii "data: " ++ text ++ ascii "\n\n"

/-- The value of `format_sse_delta`. -/
def delta (content : Bytes) : Json :=
  .object [(ascii "choices", .array [.object [(ascii "delta", .object [(ascii "content", .string content)])]])]

/-- The value of `format_sse_tool_call`; the members of an object are sorted by their keys. -/
def toolCall (name arguments sessionId : Bytes) : Json :=
  .object [(ascii "choices", .array [.object [(ascii "delta", .object [(ascii "tool_calls", .array [.object
    [(ascii "function", .object [(ascii "arguments", .string arguments), (ascii "name", .string name)]),
      (ascii "id", .string (ascii "call_" ++ sessionId)), (ascii "index", .number (ascii "0")),
      (ascii "type", .string (ascii "function"))]])])]])]

/-- `format_sse_delta`. -/
def formatSseDelta (content : Bytes) : Option Bytes := event (delta content)

/-- `format_sse_tool_call`. -/
def formatSseToolCall (name arguments sessionId : Bytes) : Option Bytes := event (toolCall name arguments sessionId)

/-- `format_sse_done`. -/
def formatSseDone : Bytes := ascii "data: [DONE]\n\n"

/-- A call of `Formatter`. -/
inductive Message
  | text (content : Bytes)
  | tool (name arguments sessionId : Bytes)

namespace Message

/-- What the call writes. -/
def format : Message → Option Bytes
  | text content => formatSseDelta content
  | tool name arguments sessionId => formatSseToolCall name arguments sessionId

/-- The value in it. -/
def json : Message → Json
  | text content => delta content
  | tool name arguments sessionId => toolCall name arguments sessionId

/-- Its texts are UTF-8. -/
def valid : Message → Bool
  | text content => Utf8.valid content
  | tool name arguments sessionId => Utf8.valid arguments && Utf8.valid name && Utf8.valid sessionId

end Message

/-- The events of some calls, and the end of the stream. -/
def stream : List Message → Option Bytes
  | [] => some formatSseDone
  | m :: ms => do
    let first ← m.format
    let rest ← stream ms
    some (first ++ rest)

/-- The end of `execute_pipeline` writes one delta. -/
theorem formatAnswer_true (sessionId model text : Bytes) (now : ℕ) :
    formatAnswer true sessionId model text now = stream [.text text] := by
  rw [formatAnswer, if_pos rfl, stream, Message.format, formatSseDelta, event, delta]
  cases dump (.object [(ascii "choices", .array [.object [(ascii "delta",
    .object [(ascii "content", .string text)])]])]) with
  | none => rfl
  | some t => simp [stream, formatSseDone]

theorem frame_eq (text : Bytes) : ascii "data: " ++ text ++ ascii "\n\n" = EventStream.frame text := by
  have hmarks : ascii "data: " = EventStream.dataName ++ [0x3a, 0x20] ∧ ascii "\n\n" = [0x0a, 0x0a] := by decide +kernel
  rw [hmarks.1, hmarks.2, EventStream.frame]

theorem formatSseDone_eq : formatSseDone = EventStream.frame (ascii "[DONE]") := by
  have hdone : formatSseDone = ascii "data: " ++ ascii "[DONE]" ++ ascii "\n\n" := by decide +kernel
  rw [hdone, frame_eq]

theorem Message.format_eq (m : Message) : m.format = (dump m.json).map EventStream.frame := by
  cases m <;> simp only [format, json, formatSseDelta, formatSseToolCall, event, frame_eq]

theorem Message.numeric_json (m : Message) : numeric m.json = true := by
  cases m with
  | text content => rfl
  | tool name arguments sessionId =>
    have hzero : isNumber (ascii "0") = true := by decide +kernel
    simp [json, toolCall, numeric, numericItems, numericMembers, hzero]

theorem Message.utf8_json (m : Message) : utf8 m.json = m.valid := by
  have hkeys : ∀ key ∈ [ascii "choices", ascii "delta", ascii "content", ascii "tool_calls", ascii "function",
      ascii "arguments", ascii "name", ascii "id", ascii "index", ascii "type", ascii "call_"],
      Utf8.valid key = true := by decide +kernel
  simp only [List.mem_cons, List.not_mem_nil, or_false, forall_eq_or_imp, forall_eq] at hkeys
  obtain ⟨hchoices, hdelta, hcontent, hcalls, hfunction, harguments, hname, hid, hindex, htype, hcall⟩ := hkeys
  cases m with
  | text content => simp [json, delta, utf8, utf8Items, utf8Members, valid, hchoices, hdelta, hcontent]
  | tool name arguments sessionId =>
    simp [json, toolCall, utf8, utf8Items, utf8Members, valid, hchoices, hdelta, hcalls, hfunction, harguments, hname,
      hid, hindex, htype, Utf8.valid_append hcall, Bool.and_assoc]

/-- A document is one line. -/
theorem oneLine_of_writes {v : Value} {text : Bytes} (h : Writes v text) : EventStream.OneLine text := by
  intro c hc
  have hle := h.le c hc
  constructor <;> rintro rfl <;> exact absurd hle (by decide)

/-- The stream is the documents in frames, and the last frame. -/
theorem exists_frames : ∀ {ms : List Message} {text : Bytes}, stream ms = some text →
    ∃ ds, text = (ds ++ [ascii "[DONE]"]).flatMap EventStream.frame ∧
      (∀ d ∈ ds, EventStream.OneLine d) ∧ List.Forall₂ (fun m d => ∀ v, Document d v ↔ v = valueOf m.json) ms ds
  | [], _, h => ⟨[], by rw [← Option.some.inj h, formatSseDone_eq]; simp, by simp, .nil⟩
  | m :: ms, _, h => by
    obtain ⟨first, hfirst, h⟩ := Option.bind_eq_some_iff.mp h
    obtain ⟨rest, hrest, h⟩ := Option.bind_eq_some_iff.mp h
    rw [m.format_eq] at hfirst
    obtain ⟨d, hd, rfl⟩ := Option.map_eq_some_iff.mp hfirst
    obtain ⟨ds, rfl, hlines, hds⟩ := exists_frames hrest
    have hwrites := writes_dump m.numeric_json hd
    refine ⟨d :: ds, ?_, ?_, .cons (document_iff hwrites) hds⟩
    · rw [← Option.some.inj h, List.cons_append, List.flatMap_cons]
    · simpa using ⟨oneLine_of_writes hwrites, hlines⟩

theorem stream_isSome : ∀ ms : List Message, (stream ms).isSome = ms.all Message.valid
  | [] => rfl
  | m :: ms => by
    rw [stream, List.all_cons, ← stream_isSome ms, ← m.utf8_json, ← dump_isSome, m.format_eq]
    cases dump m.json <;> cases stream ms <;> rfl

/-- **A client that reads a stream of `Formatter` gets the messages back**: one event for each message, a document with
its value and no other, and the event `[DONE]`. A stream is written exactly when the texts are UTF-8. The streamed reply
of `execute_pipeline` is one. -/
theorem stream_reads : (∀ ms : List Message, (stream ms).isSome = ms.all Message.valid ∧
      ∀ text, stream ms = some text → ∃ ds, EventStream.events text = ds ++ [ascii "[DONE]"] ∧
        List.Forall₂ (fun m d => ∀ v, Document d v ↔ v = valueOf m.json) ms ds) ∧
    ∀ (sessionId model answer : Bytes) (now : ℕ),
      formatAnswer true sessionId model answer now = stream [.text answer] := by
  refine ⟨fun ms => ⟨stream_isSome ms, fun text h => ?_⟩, formatAnswer_true⟩
  obtain ⟨ds, rfl, hlines, hds⟩ := exists_frames h
  have hdone : EventStream.OneLine (ascii "[DONE]") := by
    unfold EventStream.OneLine
    decide +kernel
  refine ⟨ds, EventStream.events_frames fun d hd => ?_, hds⟩
  rcases List.mem_append.mp hd with hd | hd
  · exact hlines d hd
  · exact List.mem_singleton.mp hd ▸ hdone

end DenseLite.Engine.Events
