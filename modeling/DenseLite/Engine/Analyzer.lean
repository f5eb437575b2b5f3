import DenseLite.Engine.Pipeline
import Mathlib.Data.List.Infix

/-! # What becomes of an output

`ResponseAnalyzer::analyze` classifies an output of a model, `CompletionPolicy::is_acceptable` says
whether a turn may end with it, and `Curator::consolidate` makes the final text of all outputs of the
session. The JSON library is a parameter: `parse` gives the value of a text, or nothing when it throws. -/

namespace DenseLite.Engine.Analyzer

open DenseLite.Lib.ByteStream DenseLite.Engine.Context DenseLite.Engine.Sessions DenseLite.Engine.Pipeline
open DenseLite.Infer.State (ascii ascii_ofList occursIn)

/-! ### JSON values -/

/-- A JSON value; numbers are kept as their text. -/
inductive Json
  | null
  | bool (b : Bool)
  | number (text : Bytes)
  | string (s : Bytes)
  | array (items : List Json)
  | object (members : List (Bytes × Json))

namespace Json

/-- The member of an object, if it is one and has the key. -/
def get? : Json → Bytes → Option Json
  | .object members, key => (members.find? (·.1 = key)).map (·.2)
  | _, _ => none

/-- The first element of a member that is an array and not empty. -/
def firstOf (j : Json) (key : Bytes) : Option Json :=
  match j.get? key with
  | some (.array (x :: _)) => some x
  | _ => none

/-- A member that is a string. -/
def stringOf (j : Json) (key : Bytes) : Option Bytes :=
  match j.get? key with
  | some (.string s) => some s
  | _ => none

end Json

/-! ### `ResponseAnalyzer::analyze` -/

/-- What the first choice of the OpenAI format decides. -/
def choiceAction (choice : Json) : Option ResponseAction :=
  if choice.stringOf (ascii "finish_reason") = some (ascii "length") then some .MODEL_CONTINUE
  else if choice.stringOf (ascii "finish_reason") = some (ascii "tool_calls") then some .TOOL_CALL
  else if ((choice.get? (ascii "message")).bind (·.firstOf (ascii "tool_calls"))).isSome then some .TOOL_CALL
  else none

/-- What the first candidate of the Gemini format decides. -/
def candidateAction (candidate : Json) : Option ResponseAction :=
  match candidate.stringOf (ascii "finishReason") with
  | none => none
  | some reason =>
    if reason = ascii "MAX_TOKENS" then some .MODEL_CONTINUE
    else if reason = ascii "SAFETY" ∨ reason = ascii "RECITATION" then some .INVALID
    else none

/-- An output that is JSON. -/
def analyzeJson (j : Json) : ResponseAction :=
  if (j.get? (ascii "error")).isSome then .MODEL_ERROR
  else (((j.firstOf (ascii "choices")).bind choiceAction).or
    ((j.firstOf (ascii "candidates")).bind candidateAction)).getD .COMPLETE

/-- `std::isspace`. -/
def isSpace (c : UInt8) : Bool := c = 0x20 ∨ 0x09 ≤ c ∧ c ≤ 0x0d

/-- `attempted_json`: the text begins like an object or an array. -/
def attemptedJson (raw : Bytes) : Bool :=
  match raw.dropWhile isSpace with
  | [] => false
  | c :: _ => c = 0x7b ∨ c = 0x5b

/-- An output that looked like JSON and is none. -/
def analyzeMalformed (raw : Bytes) : ResponseAction :=
  if occursIn (ascii "\"tool_calls\"") raw then .TOOL_CALL
  else if occursIn (ascii "\"error\"") raw then .MODEL_ERROR
  else .INVALID

/-- A control character other than line feed, carriage return and tab. -/
def isGarbage (c : UInt8) : Bool := c < 32 ∧ c ≠ 0x0a ∧ c ≠ 0x0d ∧ c ≠ 0x09

/-- An output that is plain text. -/
def analyzeText (raw : Bytes) : ResponseAction :=
  if occursIn (ascii "<tool_call>") raw ∨ occursIn (ascii "```tool_code") raw then .TOOL_CALL
  else if raw.any isGarbage then .INVALID
  else .COMPLETE

/-- `ResponseAnalyzer::analyze`; `execute_pipeline` gives no stop reason. -/
def analyze (parse : Bytes → Option Json) (raw : Bytes) (stopReason : Bytes := []) : ResponseAction :=
  if raw = [] then .MODEL_ERROR
  else if stopReason = ascii "length" ∨ stopReason = ascii "max_tokens" then .MODEL_CONTINUE
  else if stopReason = ascii "error" then .MODEL_ERROR
  else
    match parse raw with
    | some j => analyzeJson j
    | none => if attemptedJson raw then analyzeMalformed raw else analyzeText raw

/-- The classes of outputs that are no answers. -/
def isBad : ResponseAction → Bool
  | .INVALID | .MODEL_ERROR => true
  | .TOOL_CALL | .MODEL_CONTINUE | .COMPLETE => false

/-! ### `Curator::consolidate` -/

/-- The text in a choice of the OpenAI format. -/
def choiceText (choice : Json) : Option Bytes :=
  ((choice.get? (ascii "message")).bind (·.stringOf (ascii "content"))).or
    ((choice.get? (ascii "delta")).bind (·.stringOf (ascii "content")))

/-- The text in a candidate of the Gemini format. -/
def candidateText (candidate : Json) : Option Bytes :=
  ((candidate.get? (ascii "content")).bind (·.firstOf (ascii "parts"))).bind (·.stringOf (ascii "text"))

/-- `extract_text`: the text in a known format, or the output as it is. -/
def extractText (parse : Bytes → Option Json) (raw : Bytes) : Bytes :=
  ((parse raw).bind fun j => ((j.firstOf (ascii "choices")).bind choiceText).or
    ((j.firstOf (ascii "candidates")).bind candidateText)).getD raw

/-- The outputs of a session with more than one, numbered from `i + 1` on. -/
def iterations (parse : Bytes → Option Json) : ℕ → List Bytes → Bytes
  | _, [] => []
  | i, raw :: rest => ascii "\n--- Iteration " ++ ascii (toString (i + 1)) ++ ascii " ---\n" ++
      extractText parse raw ++ ascii "\n" ++ iterations parse (i + 1) rest

/-- The citations of the evidence. -/
def citations (evidence : List SearchResult) : Bytes :=
  if evidence = [] then []
  else ascii "\n\n### Supporting Evidence Citations\n" ++ evidence.flatMap fun ev =>
    if ev.symbolName ≠ [] then
      ascii "- **" ++ ev.symbolName ++ ascii "** (`" ++ ev.filePath ++ ascii "`)\n"
    else if ev.filePath ≠ [] then ascii "- `" ++ ev.filePath ++ ascii "`\n"
    else []

/-- `Curator::consolidate`. -/
def consolidate (parse : Bytes → Option Json) (results : List Bytes) (taskType : Bytes)
    (evidence : List SearchResult) : Bytes :=
  match results with
  | [] => []
  | [raw] => extractText parse raw ++ citations evidence
  | _ => ascii "### Task Consolidation (" ++ taskType ++ ascii ")\n" ++ iterations parse 0 results ++
      citations evidence

theorem extractText_infix_iterations (parse : Bytes → Option Json) {raw : Bytes} :
    ∀ (i : ℕ) (results : List Bytes), raw ∈ results → extractText parse raw <:+: iterations parse i results
  | _, [], h => absurd h List.not_mem_nil
  | i, first :: rest, h => by
    unfold iterations
    rcases List.mem_cons.mp h with rfl | h
    · rw [List.append_assoc _ (ascii "\n")]
      exact List.infix_append _ _ _
    · exact (extractText_infix_iterations parse (i + 1) rest h).trans (List.suffix_append _ _).isInfix

/-- **Every output is in the final text**: `consolidate` leaves none out. -/
theorem extractText_infix_consolidate (parse : Bytes → Option Json) {raw : Bytes} {results : List Bytes}
    (h : raw ∈ results) (taskType : Bytes) (evidence : List SearchResult) :
    extractText parse raw <:+: consolidate parse results taskType evidence := by
  unfold consolidate
  split
  · exact absurd h List.not_mem_nil
  · rw [List.mem_singleton.mp h]
    exact (List.prefix_append _ _).isInfix
  · exact (extractText_infix_iterations parse 0 results h).trans (List.infix_append _ _ _)

/-! ### `CompletionPolicy::is_acceptable`, with the evidence of the pipeline -/

/-- `is_bare_claim`. -/
def isBareClaim (text : Bytes) : Bool :=
  [ascii "done", ascii "done.", ascii "i'm done", ascii "finished"].contains (text.map lowerByte)

theorem mem_of_occursIn {part text : Bytes} (h : occursIn part text) {c : UInt8} (hc : c ∈ part) :
    c ∈ text := by
  obtain ⟨t, ht, hprefix⟩ := List.any_eq_true.mp h
  exact ((List.mem_tails t text).mp ht).subset ((List.isPrefixOf_iff_prefix.mp hprefix).subset hc)

/-- The bytes of the bare claims. -/
def claimBytes : Bytes := ascii "done. i'm finished"

theorem claimBytes_eq : claimBytes = [0x64, 0x6f, 0x6e, 0x65, 0x2e, 0x20, 0x69, 0x27, 0x6d, 0x20, 0x66, 0x69, 0x6e,
    0x69, 0x73, 0x68, 0x65, 0x64] := by
  rw [claimBytes, ascii_ofList]
  rfl

theorem backtick_not_mem_claimBytes : lowerByte 0x60 ∉ claimBytes := by
  rw [claimBytes_eq]
  decide

theorem lowerByte_mem_of_bare {text : Bytes} (h : isBareClaim text) {c : UInt8} (hc : c ∈ text) :
    lowerByte c ∈ claimBytes := by
  have hclaims : ∀ claim ∈ [ascii "done", ascii "done.", ascii "i'm done", ascii "finished"],
      claim ⊆ claimBytes := by
    rw [claimBytes_eq]
    repeat rw [ascii_ofList]
    decide
  exact hclaims _ (List.contains_iff_mem.mp h) (List.mem_map_of_mem hc)

/-- What has another byte than these does not occur in a bare claim. -/
theorem not_occursIn_of_bare {text part : Bytes} (h : isBareClaim text) {c : UInt8} (hc : c ∈ part)
    (hother : lowerByte c ∉ claimBytes) : occursIn part text = false := by
  by_contra hoccurs
  exact hother (lowerByte_mem_of_bare h (mem_of_occursIn (eq_true_of_ne_false hoccurs) hc))

/-- A bare claim has no code fence. -/
theorem no_fence_of_bare {text : Bytes} (h : isBareClaim text) : occursIn (ascii "```") text = false :=
  not_occursIn_of_bare (c := 0x60) h (by rw [ascii_ofList]; decide) backtick_not_mem_claimBytes

theorem attemptedJson_of_bare {text : Bytes} (h : isBareClaim text) : attemptedJson text = false := by
  unfold attemptedJson
  cases hdrop : text.dropWhile isSpace with
  | nil => rfl
  | cons c rest =>
    have hmem : c ∈ text := (List.dropWhile_suffix isSpace).subset (hdrop ▸ List.mem_cons_self)
    have hlower := lowerByte_mem_of_bare h hmem
    refine decide_eq_false ?_
    rw [claimBytes_eq] at hlower
    rintro (rfl | rfl)
    · exact absurd hlower (by decide)
    · exact absurd hlower (by decide)

/-- A bare claim is plain text that is taken for complete. -/
theorem analyzeText_of_bare {text : Bytes} (h : isBareClaim text) : analyzeText text = .COMPLETE := by
  have htool : occursIn (ascii "<tool_call>") text = false :=
    not_occursIn_of_bare (c := 0x3c) h (by rw [ascii_ofList]; decide) (by rw [claimBytes_eq]; decide)
  have hcode : occursIn (ascii "```tool_code") text = false :=
    not_occursIn_of_bare (c := 0x60) h (by rw [ascii_ofList]; decide) backtick_not_mem_claimBytes
  have hgarbage : text.any isGarbage = false := by
    rw [List.any_eq_false]
    intro c hc hbad
    obtain ⟨hlt, -⟩ := of_decide_eq_true hbad
    -- a control character is no capital letter, and the claims have none
    have hsame : lowerByte c = c := if_neg fun h => absurd (UInt8.lt_of_le_of_lt h.1 hlt) (by decide)
    have hprintable : ∀ d ∈ claimBytes, ¬ d < 32 := by simp [claimBytes_eq]
    exact hprintable c (hsame ▸ lowerByte_mem_of_bare h hc) hlt
  unfold analyzeText
  rw [htool, hcode, hgarbage]
  simp

/-- The pipeline has an output accepted when it is not empty, and is classified as complete or no bare
claim: the rule for coding tasks never decides. -/
theorem isAcceptable_evidenceOf (taskType output : Bytes) (action : ResponseAction) :
    isAcceptable taskType output (evidenceOf taskType output action) =
      decide (output ≠ [] ∧ (action = .COMPLETE ∨ isBareClaim output = false)) := by
  have hbare : isBareClaim output = true ↔ output.map lowerByte = ascii "done" ∨
      output.map lowerByte = ascii "done." ∨ output.map lowerByte = ascii "i'm done" ∨
      output.map lowerByte = ascii "finished" := by
    simp [isBareClaim]
  unfold isAcceptable evidenceOf
  by_cases hempty : output = []
  · simp [hempty]
  by_cases hcomplete : action = .COMPLETE
  · simp [hempty, hcomplete]
  cases hclaim : isBareClaim output with
  | true =>
    have hfence := no_fence_of_bare hclaim
    simp [hempty, hcomplete, hfence, hbare.mp hclaim]
  | false =>
    have hnot := hbare.not.mp (by rw [hclaim]; exact Bool.false_ne_true)
    simp [hempty, hcomplete, hnot]

end DenseLite.Engine.Analyzer
