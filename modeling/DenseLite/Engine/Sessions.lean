import DenseLite.Infer.State
import Mathlib.Logic.Function.Basic

/-! # The sessions of the engine

`process` takes the session id of a request, copies the session out of `active_sessions` under the
lock, runs `execute_pipeline` on the copy without the lock, and writes the copy back under the lock
(or erases the entry). Of `execute_pipeline` this module has what it does to the session: the
outputs it appends, the status it leaves, and the list that is consolidated into the response. What
the models answered is an input (`Answers`). -/

namespace DenseLite.Engine.Sessions

open DenseLite.Lib.ByteStream DenseLite.Infer.State

/-- `SessionStatus`. -/
inductive SessionStatus
  | CREATED | ANALYZING | ROUTING | INFERRING | WAITING_FOR_TOOL | PROCESSING_TOOL_RESULT | CONTINUING
  | COMPLETED | FAILED | CANCELLED
deriving DecidableEq, Repr

/-- `ResponseAction`: what `ResponseAnalyzer::analyze` makes of an output. -/
inductive ResponseAction
  | TOOL_CALL | MODEL_CONTINUE | COMPLETE | MODEL_ERROR | INVALID
deriving DecidableEq, Repr

/-- `InferenceSession`, over any type of outputs. -/
structure InferenceSession (α : Type) where
  sessionId : Bytes
  status : SessionStatus
  iterationCount : ℤ
  iterationResults : List α
deriving DecidableEq, Repr

/-- `active_sessions`. -/
abbrev ActiveSessions (α : Type) := Bytes → Option (InferenceSession α)

/-! ### The session id of a request -/

/-- The string fields of a request body that can name a session; `none` when the field is absent or no string. -/
structure RequestIds where
  sessionId : Option Bytes
  conversationId : Option Bytes
  user : Option Bytes
deriving DecidableEq, Repr

/-- A field that is there and not empty. -/
def nonEmpty (field : Option Bytes) : Option Bytes := field.filter fun id => !id.isEmpty

/-- The session id that a request carries, if it carries one. -/
def RequestIds.explicitId (req : RequestIds) : Option Bytes :=
  (nonEmpty req.sessionId).or ((nonEmpty req.conversationId).or (nonEmpty req.user))

/-- `generate_session_id`, at `ms` milliseconds. -/
def generateSessionId (ms : ℤ) : Bytes := ascii "req_" ++ ascii (toString ms)

/-- The `session_id` that `parse_request` puts into the request. -/
def parsedSessionId (req : RequestIds) (ms : ℤ) : Bytes := req.explicitId.getD (generateSessionId ms)

theorem nonEmpty_ne_nil {field : Option Bytes} {id : Bytes} (h : nonEmpty field = some id) : id ≠ [] := by
  obtain ⟨-, h⟩ := Option.filter_eq_some_iff.mp h
  rintro rfl
  simp at h

theorem explicitId_ne_nil {req : RequestIds} {id : Bytes} (h : req.explicitId = some id) : id ≠ [] := by
  rcases Option.or_eq_some_iff.mp h with h | ⟨-, h⟩
  · exact nonEmpty_ne_nil h
  · rcases Option.or_eq_some_iff.mp h with h | ⟨-, h⟩
    · exact nonEmpty_ne_nil h
    · exact nonEmpty_ne_nil h

/-- The id that reaches `get_or_create_session` is never empty: its own clock is never read. -/
theorem parsedSessionId_ne_nil (req : RequestIds) (ms : ℤ) : parsedSessionId req ms ≠ [] := by
  unfold parsedSessionId
  cases h : req.explicitId with
  | none => simp [generateSessionId, ascii]
  | some id => exact explicitId_ne_nil h

/-! ### `get_or_create_session` and the write-back -/

section Map

variable {α : Type} (m : ActiveSessions α) (id : Bytes) (ms : ℤ)

/-- A new session; an empty id is replaced by the clock. -/
def newSession : InferenceSession α :=
  { sessionId := if id = [] then ascii (toString ms) else id
    status := .CREATED
    iterationCount := 1
    iterationResults := [] }

/-- The session that `get_or_create_session` returns. -/
def getOrCreateSession : InferenceSession α :=
  match m id with
  | some s => if id = [] then newSession id ms else
      { s with iterationCount := s.iterationCount + 1, status := .CONTINUING }
  | none => newSession id ms

/-- `active_sessions` after `get_or_create_session`: the session it returns stands under its key. -/
def afterGet : ActiveSessions α :=
  let key := if m id ≠ none ∧ id ≠ [] then id else (newSession (α := α) id ms).sessionId
  Function.update m key (some (getOrCreateSession m id ms))

/-- The last locked block of `process`: a finished session is erased, any other stored. -/
def writeBack (s : InferenceSession α) : ActiveSessions α :=
  if s.status = .COMPLETED ∨ s.status = .FAILED then Function.update m s.sessionId none
  else Function.update m s.sessionId (some s)

variable {m id}

theorem getOrCreateSession_some {s : InferenceSession α} (hid : id ≠ []) (h : m id = some s) :
    getOrCreateSession m id ms =
      { s with iterationCount := s.iterationCount + 1, status := .CONTINUING } := by
  simp [getOrCreateSession, h, hid]

theorem getOrCreateSession_none (h : m id = none) : getOrCreateSession m id ms = newSession id ms := by
  simp [getOrCreateSession, h]

theorem newSession_sessionId (hid : id ≠ []) : (newSession (α := α) id ms).sessionId = id := by
  simp [newSession, hid]

theorem afterGet_eq (hid : id ≠ []) :
    afterGet m id ms = Function.update m id (some (getOrCreateSession m id ms)) := by
  simp [afterGet, hid, newSession_sessionId (α := α) ms hid]

/-- After a write-back an entry is an old one, or the session that was written back. -/
theorem writeBack_cases {s s' : InferenceSession α} (h : writeBack m s id = some s') :
    m id = some s' ∨ id = s.sessionId ∧ s' = s := by
  unfold writeBack at h
  by_cases hid : id = s.sessionId
  · split_ifs at h with hdone
    · rw [hid, Function.update_self] at h
      exact absurd h (by simp)
    · rw [hid, Function.update_self] at h
      exact Or.inr ⟨hid, (Option.some.inj h).symm⟩
  · split_ifs at h with hdone
    · exact Or.inl (by rwa [Function.update_of_ne hid] at h)
    · exact Or.inl (by rwa [Function.update_of_ne hid] at h)

end Map

/-! ### What `execute_pipeline` does to the session -/

/-- How one internal turn ends: no attempt was answered with 200, or there is an output, with what
`ResponseAnalyzer::analyze` and `CompletionPolicy::is_acceptable` say of it. -/
inductive Turn (α : Type)
  | failed
  | answered (output : α) (action : ResponseAction) (acceptable : Bool)
deriving DecidableEq, Repr

/-- What the models answered in one run of `execute_pipeline`: the image or audio engine served the
request, or the turns of the loop went as given. -/
inductive Answers (α : Type)
  | multimodal
  | turns (turn : ℕ → Turn α)

/-- `MAX_INTERNAL_TURNS`. -/
def maxInternalTurns : ℕ := 3

/-- A turn with its output tagged. -/
def Turn.map {α β : Type} (f : α → β) : Turn α → Turn β
  | .failed => .failed
  | .answered output action acceptable => .answered (f output) action acceptable

/-- Answers with every output tagged. -/
def Answers.map {α β : Type} (f : α → β) : Answers α → Answers β
  | .multimodal => .multimodal
  | .turns turn => .turns fun i => (turn i).map f

section Pipeline

variable {α : Type}

/-- The internal continuation loop, with `left` turns to go: the session it leaves, and the outputs
that are consolidated into the response, if it gets there. -/
def runTurns (turn : ℕ → Turn α) : (left i : ℕ) → InferenceSession α → InferenceSession α × Option (List α)
  | 0, _, s => (s, some s.iterationResults)
  | left + 1, i, s =>
    match turn i with
    | .failed => ({ s with status := .FAILED }, none)
    | .answered output action acceptable =>
      let s := { s with iterationResults := s.iterationResults ++ [output] }
      match action with
      | .TOOL_CALL => ({ s with status := .WAITING_FOR_TOOL }, none)
      | .INVALID => runTurns turn left (i + 1) s
      | .MODEL_CONTINUE => runTurns turn left (i + 1) { s with status := .CONTINUING }
      | .COMPLETE | .MODEL_ERROR =>
        if acceptable then ({ s with status := .COMPLETED }, some s.iterationResults)
        else runTurns turn left (i + 1) s

/-- `execute_pipeline`, as far as it touches the session. -/
def executePipeline (answers : Answers α) (s : InferenceSession α) :
    InferenceSession α × Option (List α) :=
  match answers with
  | .multimodal => ({ s with status := .COMPLETED }, none)
  | .turns turn => runTurns turn maxInternalTurns 0 { s with status := .INFERRING }

/-- The outputs that the loop appends, and the status it leaves when it starts with `status`. -/
def loopEffect (turn : ℕ → Turn α) : (left i : ℕ) → SessionStatus → List α × SessionStatus
  | 0, _, status => ([], status)
  | left + 1, i, status =>
    match turn i with
    | .failed => ([], .FAILED)
    | .answered output .TOOL_CALL _ => ([output], .WAITING_FOR_TOOL)
    | .answered output .INVALID _ => (loopEffect turn left (i + 1) status).map (output :: ·) id
    | .answered output .MODEL_CONTINUE _ =>
      (loopEffect turn left (i + 1) .CONTINUING).map (output :: ·) id
    | .answered output _ acceptable =>
      if acceptable then ([output], .COMPLETED)
      else (loopEffect turn left (i + 1) status).map (output :: ·) id

/-- The outputs that a run of `execute_pipeline` appends, and the status it ends with. -/
def Answers.effect : Answers α → List α × SessionStatus
  | .multimodal => ([], .COMPLETED)
  | .turns turn => loopEffect turn maxInternalTurns 0 .INFERRING

/-- The session with outputs appended and another status. -/
def InferenceSession.extend (s : InferenceSession α) (effect : List α × SessionStatus) : InferenceSession α :=
  { s with iterationResults := s.iterationResults ++ effect.1, status := effect.2 }

theorem extend_extend (s : InferenceSession α) (output : α) (status : SessionStatus)
    (effect : List α × SessionStatus) :
    (s.extend ([output], status)).extend effect = s.extend (effect.map (output :: ·) id) := by
  simp [InferenceSession.extend]

/-- The loop appends its outputs; what it consolidates is all the session then has. -/
theorem runTurns_spec (turn : ℕ → Turn α) : ∀ (left i : ℕ) (s : InferenceSession α),
    (runTurns turn left i s).1 = s.extend (loopEffect turn left i s.status) ∧
      ∀ outs, (runTurns turn left i s).2 = some outs → outs = (runTurns turn left i s).1.iterationResults
  | 0, i, s => by simp [runTurns, loopEffect, InferenceSession.extend]
  | left + 1, i, s => by
    cases ht : turn i with
    | failed => simp [runTurns, loopEffect, InferenceSession.extend, ht]
    | answered output action acceptable =>
      have hrec (status : SessionStatus) := runTurns_spec turn left (i + 1) (s.extend ([output], status))
      have hnext (status : SessionStatus) := (hrec status).1.trans (extend_extend s output status _)
      -- a turn that ends the loop leaves its output; the others go on with one more output
      cases action with
      | TOOL_CALL => simp [runTurns, loopEffect, InferenceSession.extend, ht]
      | INVALID =>
        simp only [runTurns, loopEffect, ht]
        exact ⟨hnext s.status, (hrec s.status).2⟩
      | MODEL_CONTINUE =>
        simp only [runTurns, loopEffect, ht]
        exact ⟨hnext .CONTINUING, (hrec .CONTINUING).2⟩
      | COMPLETE | MODEL_ERROR =>
        cases acceptable with
        | true => simp [runTurns, loopEffect, InferenceSession.extend, ht]
        | false =>
          simp only [runTurns, loopEffect, ht, Bool.false_eq_true, if_false]
          exact ⟨hnext s.status, (hrec s.status).2⟩

/-- **`execute_pipeline` appends the outputs of its own model calls**, and consolidates what the
session then has. -/
theorem executePipeline_spec (answers : Answers α) (s : InferenceSession α) :
    (executePipeline answers s).1 = s.extend answers.effect ∧
      ∀ outs, (executePipeline answers s).2 = some outs → outs = s.iterationResults ++ answers.effect.1 := by
  cases answers with
  | multimodal => simp [executePipeline, Answers.effect, InferenceSession.extend]
  | turns turn =>
    obtain ⟨h, hcons⟩ := runTurns_spec turn maxInternalTurns 0 { s with status := .INFERRING }
    refine ⟨h, fun outs houts => ?_⟩
    rw [hcons outs houts, h]
    rfl

end Pipeline

end DenseLite.Engine.Sessions
