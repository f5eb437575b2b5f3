import DenseLite.Engine.Answers
import DenseLite.Engine.ToolRegistry
import DenseLite.Lib.Runs

/-! # The life cycle of a session

Requests one after the other, each from the start of `process` to its end. A request whose loop is ended
by one of its turns leaves the status that fits its response, and its session stays only while it waits
for a tool. When all three turns are used up, the final response is written although the status is not
`COMPLETED`, and the session stays: `session_life_cycle_iff`. -/

namespace DenseLite.Engine.Lifecycle

open DenseLite.Lib.ByteStream DenseLite.Lib.KeyMap DenseLite.Lib.Runs
open DenseLite.Engine.Context DenseLite.Engine.Sessions DenseLite.Engine.Answers
open DenseLite.Engine.ToolRegistry
open DenseLite.Infer.State (ascii)

/-! ### Responses -/

/-- What `execute_pipeline` writes: the result of the image or audio engine, the output of the last
failed attempt, the output that asks for a tool, or the consolidated answer with its `stop`. -/
inductive Response
  | media
  | failure
  | toolCall (output : Bytes)
  | final (outs : List Bytes)
deriving DecidableEq, Repr

/-- A final answer or an error: the client is not expected to come back. -/
def Response.closes : Response → Bool
  | .media | .failure | .final _ => true
  | .toolCall _ => false

/-- The response of the loop, with `left` turns to go. -/
def loopResponse (turn : ℕ → Turn Bytes) : (left i : ℕ) → List Bytes → Response
  | 0, _, results => .final results
  | left + 1, i, results =>
    match turn i with
    | .failed => .failure
    | .answered output .TOOL_CALL _ => .toolCall output
    | .answered output .INVALID _ | .answered output .MODEL_CONTINUE _ =>
      loopResponse turn left (i + 1) (results ++ [output])
    | .answered output _ acceptable =>
      if acceptable then .final (results ++ [output])
      else loopResponse turn left (i + 1) (results ++ [output])

/-- The response of `execute_pipeline`. -/
def respond (answers : Answers Bytes) (s : InferenceSession Bytes) : Response :=
  match answers with
  | .multimodal => .media
  | .turns turn => loopResponse turn maxInternalTurns 0 s.iterationResults

/-- The response fits what the loop leaves. -/
def Matches (response : Response) (result : InferenceSession Bytes × Option (List Bytes)) : Prop :=
  match response with
  | .media => False
  | .failure => result.1.status = .FAILED ∧ result.2 = none
  | .toolCall _ => result.1.status = .WAITING_FOR_TOOL ∧ result.2 = none
  | .final outs => result.2 = some outs

theorem loopResponse_matches (turn : ℕ → Turn Bytes) : ∀ (left i : ℕ) (s : InferenceSession Bytes),
    Matches (loopResponse turn left i s.iterationResults) (runTurns turn left i s)
  | 0, _, _ => rfl
  | left + 1, i, s => by
    have hrest (output : Bytes) (status : SessionStatus) :=
      loopResponse_matches turn left (i + 1) (s.extend ([output], status))
    unfold loopResponse runTurns
    cases turn i with
    | failed => exact ⟨rfl, rfl⟩
    | answered output action acceptable =>
      cases action with
      | TOOL_CALL => exact ⟨rfl, rfl⟩
      | INVALID => exact hrest output s.status
      | MODEL_CONTINUE => exact hrest output .CONTINUING
      | COMPLETE | MODEL_ERROR =>
        cases acceptable with
        | true => exact rfl
        | false => exact hrest output s.status

/-- The request is served by another engine, or one of the turns ends the loop: the three turns are not
all used up. -/
def EndsInTurn : Answers Bytes → Prop
  | .multimodal => True
  | .turns turn => ∃ i < maxInternalTurns, goesOn (turn i) = false

/-- The session was given up or is done. -/
def isDone (status : SessionStatus) : Bool := status = .COMPLETED ∨ status = .FAILED

theorem isDone_iff {status : SessionStatus} : isDone status ↔ status = .COMPLETED ∨ status = .FAILED :=
  decide_eq_true_iff

/-- The status with which `execute_pipeline` leaves the session. -/
def statusOf (answers : Answers Bytes) (s : InferenceSession Bytes) : SessionStatus :=
  (executePipeline answers s).1.status

/-- The status that fits a response. -/
def Response.status : Response → SessionStatus
  | .media | .final _ => .COMPLETED
  | .failure => .FAILED
  | .toolCall _ => .WAITING_FOR_TOOL

theorem respond_matches (turn : ℕ → Turn Bytes) (s : InferenceSession Bytes) :
    Matches (respond (.turns turn) s) (executePipeline (.turns turn) s) :=
  loopResponse_matches turn maxInternalTurns 0 { s with status := .INFERRING }

/-- A loop that is ended by a turn leaves the status that fits its response. -/
theorem statusOf_of_ends {answers : Answers Bytes} (h : EndsInTurn answers) (s : InferenceSession Bytes) :
    statusOf answers s = (respond answers s).status := by
  cases answers with
  | multimodal => rfl
  | turns turn =>
    have hproper : EndsProperly (executePipeline (.turns turn) s) := by
      rcases runTurns_cases turn maxInternalTurns 0 { s with status := .INFERRING } with
        ⟨-, hproper⟩ | ⟨hall, -⟩
      · exact hproper
      · obtain ⟨i, hi, hend⟩ := h
        have hgo := hall i hi
        rw [Nat.zero_add, hend] at hgo
        exact absurd hgo Bool.false_ne_true
    have hmatch := respond_matches turn s
    unfold statusOf
    generalize respond (.turns turn) s = response at hmatch ⊢
    cases response with
    | media => exact hmatch.elim
    | failure => exact hmatch.1
    | toolCall output => exact hmatch.1
    | final outs =>
      rcases hproper with ⟨-, hnone⟩ | ⟨-, hnone⟩ | ⟨hcompleted, -⟩
      · exact absurd (hnone.symm.trans hmatch) (by simp)
      · exact absurd (hnone.symm.trans hmatch) (by simp)
      · exact hcompleted

/-- When the turns are used up, the final response is written, and the session is not completed. -/
theorem statusOf_of_usedUp {answers : Answers Bytes} (h : ¬ EndsInTurn answers) (s : InferenceSession Bytes) :
    (∃ outs, respond answers s = .final outs) ∧ statusOf answers s ≠ .COMPLETED := by
  cases answers with
  | multimodal => exact absurd trivial h
  | turns turn =>
    have hused : UsedUp .INFERRING (executePipeline (.turns turn) s) := by
      rcases runTurns_cases turn maxInternalTurns 0 { s with status := .INFERRING } with
        ⟨⟨i, hi, hend⟩, -⟩ | ⟨-, hused⟩
      · rw [Nat.zero_add] at hend
        exact absurd ⟨i, hi, hend⟩ h
      · exact hused
    obtain ⟨hstatus, hsome⟩ := hused
    have hmatch := respond_matches turn s
    refine ⟨?_, ?_⟩
    · generalize respond (.turns turn) s = response at hmatch ⊢
      cases response with
      | media => exact hmatch.elim
      | failure | toolCall =>
        rw [hmatch.2] at hsome
        exact absurd hsome (by simp)
      | final outs => exact ⟨outs, rfl⟩
    · rcases hstatus with hstatus | hstatus
      · exact fun hcompleted => absurd (hstatus.symm.trans hcompleted) (by simp)
      · exact fun hcompleted => absurd (hstatus.symm.trans hcompleted) (by simp)

/-! ### `process`, one request after the other -/

/-- A request, with what happens while it is processed: `accepted` when it is not turned away with status
400, the clock readings, the tools it brings, whether the pipeline asks the registry for those of the
session, and what the models answer. -/
structure Request where
  accepted : Bool
  ids : RequestIds
  ms : ℤ
  ms' : ℤ
  tools : List OpenAITool
  registered : ℤ
  asksTools : Bool
  asked : ℤ
  answers : Answers Bytes

def Request.id (req : Request) : Bytes := parsedSessionId req.ids req.ms

/-- The sessions and the tool catalogues; `last` records the last response to each session. -/
structure System where
  activeSessions : ActiveSessions Bytes
  registry : Registry
  last : Bytes → Option Response

/-- The engine before the first request. -/
def System.init : System :=
  { activeSessions := fun _ => none
    registry := { sessionCatalogs := [], accessTimestamps := [] }
    last := fun _ => none }

variable (e : System) (req : Request)

/-- The copy of the session on which the request works. -/
def session : InferenceSession Bytes := getOrCreateSession e.activeSessions req.id req.ms'

/-- The session as `execute_pipeline` leaves it. -/
def sessionAfter : InferenceSession Bytes := (executePipeline req.answers (session e req)).1

/-- The registry as `execute_pipeline` leaves it. -/
def registryAfter : Registry :=
  let registry := e.registry.registerTools (session e req).sessionId req.tools req.registered
  if req.asksTools then registry.touch (session e req).sessionId req.asked else registry

/-- `process`, where it returns: `dump` has thrown on none of the texts. -/
def process : System :=
  if req.accepted then
    { activeSessions := writeBack (afterGet e.activeSessions req.id req.ms') (sessionAfter e req)
      registry :=
        if isDone (sessionAfter e req).status then
          (registryAfter e req).clearSession (sessionAfter e req).sessionId
        else registryAfter e req
      last := Function.update e.last req.id (some (respond req.answers (session e req))) }
  else e

/-! ### What is claimed, and under which condition -/

/-- Neither the session nor its tools are there any more. -/
def System.Removed (id : Bytes) : Prop :=
  e.activeSessions id = none ∧ find id e.registry.sessionCatalogs = none

/-- Every session whose last response was a final answer or an error has been removed. -/
def System.ClosedRemoved : Prop :=
  ∀ id response, e.last id = some response → response.closes → e.Removed id

/-- The final response is written only with the status `COMPLETED`, the session stays exactly while it
waits for a tool, and closed sessions are removed. -/
structure Proper : Prop where
  stop : req.accepted → ∀ outs, respond req.answers (session e req) = .final outs →
    (sessionAfter e req).status = .COMPLETED
  kept : req.accepted → ((process e req).activeSessions req.id ≠ none ↔
    (sessionAfter e req).status = .WAITING_FOR_TOOL)
  removed : (process e req).ClosedRemoved

/-- The request is turned away, or its three turns are not all used up. -/
def Ends : Prop := req.accepted → EndsInTurn req.answers

/-! ### The invariant -/

/-- What holds of every reached state. -/
structure Orderly : Prop where
  keyed : ∀ id s, e.activeSessions id = some s → s.sessionId = id
  closed : e.ClosedRemoved

theorem orderly_init : Orderly System.init where
  keyed _ _ h := absurd h (by simp [System.init])
  closed _ _ h := absurd h (by simp [System.init])

variable {e req}

theorem id_ne_nil (req : Request) : req.id ≠ [] := parsedSessionId_ne_nil req.ids req.ms

theorem Orderly.sessionId (hI : Orderly e) (req : Request) : (session e req).sessionId = req.id := by
  unfold session
  cases h : e.activeSessions req.id with
  | none => rw [getOrCreateSession_none _ h, newSession_sessionId _ (id_ne_nil req)]
  | some s =>
    rw [getOrCreateSession_some _ (id_ne_nil req) h]
    exact hI.keyed req.id s h

theorem Orderly.sessionId_after (hI : Orderly e) (req : Request) : (sessionAfter e req).sessionId = req.id := by
  unfold sessionAfter
  rw [(executePipeline_spec req.answers (session e req)).1]
  exact hI.sessionId req

/-- `active_sessions` after the request. -/
theorem Orderly.active (hI : Orderly e) (hacc : req.accepted) (id : Bytes) :
    (process e req).activeSessions id =
      if id = req.id then if isDone (sessionAfter e req).status then none else some (sessionAfter e req)
      else e.activeSessions id := by
  have hafter := afterGet_eq (m := e.activeSessions) req.ms' (id_ne_nil req)
  unfold process
  rw [if_pos hacc]
  dsimp only
  unfold writeBack
  rw [hI.sessionId_after req, hafter]
  by_cases hid : id = req.id
  · rw [if_pos hid, hid]
    by_cases hdone : (sessionAfter e req).status = .COMPLETED ∨ (sessionAfter e req).status = .FAILED
    · rw [if_pos hdone, if_pos (isDone_iff.mpr hdone), Function.update_self]
    · rw [if_neg hdone, if_neg (mt isDone_iff.mp hdone), Function.update_self]
  · rw [if_neg hid]
    split_ifs
    all_goals rw [Function.update_of_ne hid, Function.update_of_ne hid]

/-- The request makes no catalogue for another session. -/
theorem Orderly.catalogs (hI : Orderly e) (hacc : req.accepted) {id : Bytes} (hid : id ≠ req.id)
    (h : find id e.registry.sessionCatalogs = none) :
    find id (process e req).registry.sessionCatalogs = none := by
  have hregistered := Registry.find_registerTools (hI.sessionId req ▸ hid) h req.tools req.registered
  have hafter : find id (registryAfter e req).sessionCatalogs = none := by
    unfold registryAfter
    dsimp only
    split_ifs
    · rw [Registry.touch_catalogs]
      exact hregistered
    · exact hregistered
  unfold process
  rw [if_pos hacc]
  dsimp only
  split_ifs
  · exact Registry.find_clearSession hafter
  · exact hafter

/-- A request that leaves its session done removes it. -/
theorem Orderly.removed_self (hI : Orderly e) (hacc : req.accepted)
    (hdone : isDone (sessionAfter e req).status) : (process e req).Removed req.id := by
  constructor
  · rw [hI.active hacc, if_pos rfl, if_pos hdone]
  · unfold process
    rw [if_pos hacc]
    dsimp only
    rw [if_pos hdone, hI.sessionId_after req]
    exact Registry.find_clearSession_self (id_ne_nil req)

theorem closes_iff_isDone (response : Response) : response.closes = isDone response.status := by
  cases response <;> rfl

theorem process_of_rejected (hacc : ¬ req.accepted) : process e req = e := if_neg hacc

theorem last_process (hacc : req.accepted) (id : Bytes) : (process e req).last id =
    if id = req.id then some (respond req.answers (session e req)) else e.last id := by
  unfold process
  rw [if_pos hacc]
  exact Function.update_apply _ _ _ _

/-- A request whose three turns are not all used up keeps closed sessions removed. -/
theorem Orderly.closedRemoved (hI : Orderly e) (hends : Ends req) : (process e req).ClosedRemoved := by
  intro id response hlast hcloses
  by_cases hacc : req.accepted
  · rw [last_process hacc] at hlast
    by_cases hid : id = req.id
    · rw [if_pos hid] at hlast
      obtain rfl := Option.some.inj hlast
      rw [hid]
      refine hI.removed_self hacc ?_
      rw [closes_iff_isDone, ← statusOf_of_ends (hends hacc)] at hcloses
      exact hcloses
    · rw [if_neg hid] at hlast
      obtain ⟨hactive, hcatalog⟩ := hI.closed id response hlast hcloses
      refine ⟨?_, hI.catalogs hacc hid hcatalog⟩
      rw [hI.active hacc, if_neg hid]
      exact hactive
  · rw [process_of_rejected hacc] at hlast ⊢
    exact hI.closed id response hlast hcloses

/-- One request leads from an orderly state to an orderly one. -/
theorem Orderly.process (hI : Orderly e) (hends : Ends req) : Orderly (process e req) where
  keyed id s h := by
    by_cases hacc : req.accepted
    · rw [hI.active hacc] at h
      split_ifs at h with hid hdone
      · rw [← Option.some.inj h, hid]
        exact hI.sessionId_after req
      · exact hI.keyed id s h
    · rw [process_of_rejected hacc] at h
      exact hI.keyed id s h
  closed := hI.closedRemoved hends

/-- In an orderly state a request is proper exactly when its turns are not all used up. -/
theorem Orderly.proper_iff (hI : Orderly e) : Proper e req ↔ Ends req := by
  constructor
  · intro h hacc
    by_contra hused
    obtain ⟨⟨outs, hfinal⟩, hstatus⟩ := statusOf_of_usedUp hused (session e req)
    exact hstatus (h.stop hacc outs hfinal)
  · intro hends
    have hstatus (hacc : req.accepted) : (sessionAfter e req).status =
        (respond req.answers (session e req)).status := statusOf_of_ends (hends hacc) (session e req)
    refine ⟨fun hacc outs hfinal => ?_, fun hacc => ?_, hI.closedRemoved hends⟩
    · rw [hstatus hacc, hfinal]
      rfl
    · rw [hI.active hacc, if_pos rfl, hstatus hacc]
      cases respond req.answers (session e req) <;> simp [Response.status, isDone]

/-- **The life cycle of the sessions.** In a run of sequential requests, every final response comes with
the status `COMPLETED`, sessions stay exactly while they wait for a tool, and closed sessions are
removed with their tool catalogues, if and only if no request uses up its three turns. -/
theorem session_life_cycle_iff (reqs : List Request) :
    EveryStep process Proper System.init reqs ↔ ∀ req ∈ reqs, Ends req := by
  have hsteps : EveryStep process Proper System.init reqs ↔
      EveryStep process (fun _ req => Ends req) System.init reqs :=
    everyStep_iff_of_invariant (Q := fun _ => True) (fun _ _ hI _ => hI.proper_iff)
      (fun _ _ hI _ hends => hI.process hends) reqs System.init orderly_init fun _ _ => trivial
  rw [hsteps, everyStep_iff_forall_mem]

/-- A request of the session `s` with a tool, whose three answers are all cut off. -/
def cutOff : Request where
  accepted := true
  ids := { sessionId := some (ascii "s"), conversationId := none, user := none }
  ms := 0
  ms' := 0
  tools := [{ type := ascii "function", name := ascii "t", description := [], parametersSchema := [] }]
  registered := 0
  asksTools := false
  asked := 0
  answers := .turns fun _ => .answered (ascii "x") .MODEL_CONTINUE false

/-- The final response is written, and the session stays with its tools. -/
theorem session_leaks : ¬ EveryStep process Proper System.init [cutOff] ∧
    (process System.init cutOff).last (ascii "s") = some (.final [ascii "x", ascii "x", ascii "x"]) ∧
    ((process System.init cutOff).activeSessions (ascii "s")).map (·.status) = some .CONTINUING ∧
    (find (ascii "s") (process System.init cutOff).registry.sessionCatalogs).isSome := by
  refine ⟨fun h => ?_, by decide +kernel, by decide +kernel, by decide +kernel⟩
  have hstop := h.1.stop rfl [ascii "x", ascii "x", ascii "x"] (by decide +kernel)
  exact absurd hstop (by decide +kernel)

end DenseLite.Engine.Lifecycle
