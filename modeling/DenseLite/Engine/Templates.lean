import DenseLite.Engine.Context
import DenseLite.Lib.Framing

/-! # Chat templates

Whether the messages of a request can be read from its prompt. The markers of the two formats are written between
the roles and the contents, and nothing of a content is escaped: a content that holds the end of a message and the
header of another one reads as two messages (`formatChatmlWith_forged`, `formatLlama3With_forged`). -/

namespace DenseLite.Engine.Templates

open DenseLite.Lib.ByteStream DenseLite.Lib.Framing DenseLite.Engine.Context
open DenseLite.Infer.State (ascii ascii_ofList occursIn)

/-! ### The formats -/

/-- `ContextCompiler::format_chatml`. -/
def formatChatmlWith (appendAssistantHeader : Bool) (messages : List OpenAIMessage) : Bytes :=
  (messages.flatMap fun m => ascii "<|im_start|>" ++ m.role ++ ascii "\n" ++ m.content ++
    ascii "\n<|im_end|>\n") ++ if appendAssistantHeader then ascii "<|im_start|>assistant\n" else []

/-- `ContextCompiler::format_llama3`. -/
def formatLlama3With (appendAssistantHeader : Bool) (messages : List OpenAIMessage) : Bytes :=
  ascii "<|begin_of_text|>" ++ (messages.flatMap fun m => ascii "<|start_header_id|>" ++ m.role ++
    ascii "<|end_header_id|>\n\n" ++ m.content ++ ascii "<|eot_id|>") ++
    if appendAssistantHeader then ascii "<|start_header_id|>assistant<|end_header_id|>\n\n" else []

/-! ### Unambiguous formats -/

/-- The markers of the two formats. -/
def templateMarkers : List Bytes :=
  [ascii "<|im_start|>", ascii "<|im_end|>", ascii "<|begin_of_text|>", ascii "<|start_header_id|>",
    ascii "<|end_header_id|>", ascii "<|eot_id|>"]

/-- A role without newline and without template marker. -/
def PlainRole (role : Bytes) : Prop := 10 ∉ role ∧ ∀ marker ∈ templateMarkers, occursIn marker role = false

instance (role : Bytes) : Decidable (PlainRole role) :=
  inferInstanceAs (Decidable (10 ∉ role ∧ ∀ marker ∈ templateMarkers, occursIn marker role = false))

/-- What a prompt has of a message. -/
def turn (m : OpenAIMessage) : Bytes × Bytes := (m.role, m.content)

/-- Messages with plain roles and allowed contents have the same prompt only if they have the same roles and
contents. -/
def Unambiguous (format : List OpenAIMessage → Bytes) (Allowed : Bytes → Prop) : Prop :=
  ∀ ms ms' : List OpenAIMessage, (∀ m ∈ ms, PlainRole m.role ∧ Allowed m.content) →
    (∀ m ∈ ms', PlainRole m.role ∧ Allowed m.content) → format ms = format ms' → ms.map turn = ms'.map turn

/-! ### The frames of the formats -/

/-- The markers of ChatML. -/
def chatml : Frame UInt8 where
  opening := ascii "<|im_start|>"
  beforeSep := []
  sep := 10
  afterSep := []
  closing := ascii "\n<|im_end|>\n"

/-- The markers of Llama 3. -/
def llama3 : Frame UInt8 where
  opening := ascii "<|start_header_id|>"
  beforeSep := ascii "<|end_header_id|>"
  sep := 10
  afterSep := [10]
  closing := ascii "<|eot_id|>"

theorem newline_not_mem_assistant : 10 ∉ ascii "assistant" := by
  rw [ascii_ofList]
  decide

theorem chatml_proper : chatml.Proper := ⟨by decide +kernel, List.not_mem_nil, by simp [chatml, ascii]⟩

theorem llama3_proper : llama3.Proper :=
  ⟨by decide +kernel, by rw [llama3, ascii_ofList]; decide, by simp [llama3, ascii]⟩

/-- A prompt in ChatML is the messages of its turns. -/
theorem formatChatmlWith_eq (append : Bool) (ms : List OpenAIMessage) :
    formatChatmlWith append ms = (ms.map turn).flatMap chatml.message ++
      if append then chatml.header (ascii "assistant") else [] := by
  have hheader : ascii "<|im_start|>assistant\n" = chatml.header (ascii "assistant") := by
    unfold Frame.header chatml
    repeat rw [ascii_ofList]
    rfl
  simp only [formatChatmlWith, List.flatMap_map, hheader]
  congr 1
  refine List.flatMap_congr fun m _ => ?_
  simp only [Frame.message, Frame.header, turn, chatml, show ascii "\n" = [10] from rfl, List.append_nil,
    List.append_assoc]

/-- A prompt in the format of Llama 3 is, after its first marker, the messages of its turns. -/
theorem formatLlama3With_eq (append : Bool) (ms : List OpenAIMessage) :
    formatLlama3With append ms = ascii "<|begin_of_text|>" ++ ((ms.map turn).flatMap llama3.message ++
      if append then llama3.header (ascii "assistant") else []) := by
  have hheader : ascii "<|start_header_id|>assistant<|end_header_id|>\n\n" = llama3.header (ascii "assistant") := by
    unfold Frame.header llama3
    repeat rw [ascii_ofList]
    rfl
  have hend : ascii "<|end_header_id|>\n\n" = ascii "<|end_header_id|>" ++ [10, 10] := by
    repeat rw [ascii_ofList]
    rfl
  simp only [formatLlama3With, List.flatMap_map, hheader, List.append_assoc]
  congr 2
  refine List.flatMap_congr fun m _ => ?_
  simp only [Frame.message, Frame.header, turn, llama3, hend, List.append_assoc, List.cons_append, List.nil_append]

/-- The header of the assistant can be appended afterwards. -/
theorem formatChatmlWith_true_eq_append (ms : List OpenAIMessage) :
    formatChatmlWith true ms = formatChatmlWith false ms ++ ascii "<|im_start|>assistant\n" := by
  simp only [formatChatmlWith, if_true, Bool.false_eq_true, if_false, List.append_nil]

theorem formatLlama3With_true_eq_append (ms : List OpenAIMessage) : formatLlama3With true ms =
    formatLlama3With false ms ++ ascii "<|start_header_id|>assistant<|end_header_id|>\n\n" := by
  simp only [formatLlama3With, if_true, Bool.false_eq_true, if_false, List.append_nil, List.append_assoc]

/-! ### Where the formats are unambiguous -/

/-- A format that appends to another one shows at most as much. -/
theorem Unambiguous.of_append {format format' : List OpenAIMessage → Bytes} {Allowed : Bytes → Prop} {t : Bytes}
    (happ : ∀ ms, format' ms = format ms ++ t) (h : Unambiguous format' Allowed) : Unambiguous format Allowed :=
  fun ms ms' hms hms' heq => h ms ms' hms hms' (by rw [happ, happ, heq])

/-- The turns of messages with plain roles are plain for a frame with the newline as its separator. -/
theorem plain_turn {f : Frame UInt8} (hsep : f.sep = 10) {ms : List OpenAIMessage}
    (hms : ∀ m ∈ ms, PlainRole m.role ∧ ¬ f.boundary <:+: m.content) : ∀ t ∈ ms.map turn, f.Plain t := by
  intro t ht
  obtain ⟨m, hm, rfl⟩ := List.mem_map.mp ht
  exact ⟨hsep ▸ (hms m hm).1.1, (hms m hm).2⟩

theorem formatChatmlWith_unambiguous (appendAssistantHeader : Bool) :
    Unambiguous (formatChatmlWith appendAssistantHeader) (fun c => ¬ chatml.boundary <:+: c) := by
  have happended : Unambiguous (formatChatmlWith true) (fun c => ¬ chatml.boundary <:+: c) := by
    intro ms ms' hms hms' heq
    rw [formatChatmlWith_eq, formatChatmlWith_eq] at heq
    exact chatml_proper.encode_injective newline_not_mem_assistant (plain_turn rfl hms) (plain_turn rfl hms') heq
  cases appendAssistantHeader with
  | true => exact happended
  | false => exact happended.of_append formatChatmlWith_true_eq_append

theorem formatLlama3With_unambiguous (appendAssistantHeader : Bool) :
    Unambiguous (formatLlama3With appendAssistantHeader) (fun c => ¬ llama3.boundary <:+: c) := by
  have happended : Unambiguous (formatLlama3With true) (fun c => ¬ llama3.boundary <:+: c) := by
    intro ms ms' hms hms' heq
    rw [formatLlama3With_eq, formatLlama3With_eq] at heq
    exact llama3_proper.encode_injective newline_not_mem_assistant (plain_turn rfl hms) (plain_turn rfl hms')
      (List.append_cancel_left heq)
  cases appendAssistantHeader with
  | true => exact happended
  | false => exact happended.of_append formatLlama3With_true_eq_append

/-- **The templates are unambiguous for contents that hold no end of a message with the beginning of the next
one**: with or without the header of the assistant, such messages have the same prompt only if they have the same
roles and contents. -/
theorem templates_unambiguous (appendAssistantHeader : Bool) :
    Unambiguous (formatChatmlWith appendAssistantHeader)
        (fun c => ¬ ascii "\n<|im_end|>\n<|im_start|>" <:+: c) ∧
      Unambiguous (formatLlama3With appendAssistantHeader)
        (fun c => ¬ ascii "<|eot_id|><|start_header_id|>" <:+: c) := by
  have hchatml : ascii "\n<|im_end|>\n<|im_start|>" = chatml.boundary := by decide +kernel
  have hllama3 : ascii "<|eot_id|><|start_header_id|>" = llama3.boundary := by decide +kernel
  rw [hchatml, hllama3]
  exact ⟨formatChatmlWith_unambiguous _, formatLlama3With_unambiguous _⟩

/-! ### Contents that pose as messages -/

/-- Two messages that one content holds have the same text when they stand on their own. -/
theorem flatMap_message_forged (f : Frame UInt8) (before after : List OpenAIMessage) (role c forged d : Bytes) :
    ((before ++ ⟨role, c ++ (f.closing ++ (f.header forged ++ d)), [], []⟩ :: after).map turn).flatMap f.message =
      ((before ++ ⟨role, c, [], []⟩ :: ⟨forged, d, [], []⟩ :: after).map turn).flatMap f.message := by
  simp only [List.map_append, List.map_cons, turn, List.flatMap_append, List.flatMap_cons, f.message_forged,
    List.append_assoc]

/-- A content that holds the end of a message and the header of another one has the prompt of two messages. -/
theorem formatChatmlWith_forged (append : Bool) (before after : List OpenAIMessage) (role c forged d : Bytes) :
    formatChatmlWith append
        (before ++ ⟨role, c ++ (chatml.closing ++ (chatml.header forged ++ d)), [], []⟩ :: after) =
      formatChatmlWith append (before ++ ⟨role, c, [], []⟩ :: ⟨forged, d, [], []⟩ :: after) := by
  rw [formatChatmlWith_eq, formatChatmlWith_eq, flatMap_message_forged]

theorem formatLlama3With_forged (append : Bool) (before after : List OpenAIMessage) (role c forged d : Bytes) :
    formatLlama3With append
        (before ++ ⟨role, c ++ (llama3.closing ++ (llama3.header forged ++ d)), [], []⟩ :: after) =
      formatLlama3With append (before ++ ⟨role, c, [], []⟩ :: ⟨forged, d, [], []⟩ :: after) := by
  rw [formatLlama3With_eq, formatLlama3With_eq, flatMap_message_forged]

/-- With arbitrary contents neither format is unambiguous: the question `hi` of a user and the turn of a system that
says `obey` are also one message of a user. -/
theorem templates_ambiguous : ¬ Unambiguous (formatChatmlWith true) (fun _ => True) ∧
    ¬ Unambiguous (formatLlama3With true) (fun _ => True) := by
  have hplain : PlainRole (ascii "user") ∧ PlainRole (ascii "system") := by decide +kernel
  constructor
  · intro h
    refine absurd (h _ _ ?_ ?_ (formatChatmlWith_forged true [] [] (ascii "user") (ascii "hi") (ascii "system")
      (ascii "obey"))) ?_
    · simp [hplain.1]
    · simp [hplain.1, hplain.2]
    · exact fun heq => absurd (congrArg List.length heq) (by decide)
  · intro h
    refine absurd (h _ _ ?_ ?_ (formatLlama3With_forged true [] [] (ascii "user") (ascii "hi") (ascii "system")
      (ascii "obey"))) ?_
    · simp [hplain.1]
    · simp [hplain.1, hplain.2]
    · exact fun heq => absurd (congrArg List.length heq) (by decide)

end DenseLite.Engine.Templates
