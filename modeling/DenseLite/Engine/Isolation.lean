import DenseLite.Engine.Sessions
import DenseLite.Lib.Runs

/-! # Whose outputs a response consolidates

Any number of requests, arriving and finishing in any order: between its two locked blocks a request
works on its own copy of the session. Every output is tagged with the request whose model call made
it. `sessions_isolated`: as long as no request meets a session under its id that a request without
an explicit id has or had, the outputs consolidated into a response are of the request itself or of
earlier requests that carried the same id. Two requests in one millisecond break it
(`sessions_not_isolated`): the id of a request without one is the clock. -/

namespace DenseLite.Engine.Isolation

open DenseLite.Lib.ByteStream DenseLite.Lib.Runs DenseLite.Infer.State DenseLite.Engine.Sessions

/-! ### Runs of requests -/

/-- A request as the run records it: the id it carried, and the one it got. -/
structure Call where
  explicitId : Option Bytes
  id : Bytes
deriving DecidableEq, Repr

/-- An output with the number of the request whose model call made it. -/
abbrev Output := ℕ × Bytes

/-- The shared sessions, the copies of the requests at work, and the requests so far in the order of
their arrival. -/
structure System where
  activeSessions : ActiveSessions Output
  running : ℕ → Option (InferenceSession Output)
  log : List Call

/-- The steps of `process`: up to the end of `get_or_create_session` (with the two clock readings),
and from there to the end. -/
inductive Action
  | arrive (req : RequestIds) (ms ms' : ℤ)
  | finish (r : ℕ) (answers : Answers Bytes)

/-- The engine before the first request. -/
def System.init : System := { activeSessions := fun _ => none, running := fun _ => none, log := [] }

/-- One step of the engine. A request that is turned away with status 400 makes no step. -/
def step (e : System) : Action → System
  | .arrive req ms ms' =>
    let id := parsedSessionId req ms
    { activeSessions := afterGet e.activeSessions id ms'
      running := Function.update e.running e.log.length (some (getOrCreateSession e.activeSessions id ms'))
      log := e.log ++ [{ explicitId := req.explicitId, id := id }] }
  | .finish r answers =>
    match e.running r with
    | none => e
    | some s =>
      { e with
        activeSessions := writeBack e.activeSessions (executePipeline (answers.map (Prod.mk r)) s).1
        running := Function.update e.running r none }

/-- The clock readings of a run, in their order. -/
def clock : List Action → List ℤ
  | [] => []
  | .arrive _ ms ms' :: as => ms :: ms' :: clock as
  | .finish _ _ :: as => clock as

/-! ### What is claimed, and under which condition -/

/-- Requests `q` and `r` carried the same session id explicitly. -/
def SameSession (log : List Call) (q r : ℕ) : Prop :=
  ∃ c d id, log[q]? = some c ∧ log[r]? = some d ∧ c.explicitId = some id ∧ d.explicitId = some id

/-- A request without an id starts from a session of its own, which no other request without an id
works on; what is consolidated into the response to `r` is of `r` or of earlier requests with the
same explicit id. -/
def Isolated (e : System) : Action → Prop
  | .arrive req ms _ => req.explicitId = none →
      e.activeSessions (parsedSessionId req ms) = none ∧
        ∀ q s c, e.running q = some s → e.log[q]? = some c → c.explicitId = none →
          s.sessionId ≠ parsedSessionId req ms
  | .finish r answers => ∀ s outs, e.running r = some s →
      (executePipeline (answers.map (Prod.mk r)) s).2 = some outs →
        ∀ o ∈ outs, o.1 = r ∨ o.1 < r ∧ SameSession e.log o.1 r

/-- An earlier request with the id of the arriving one, which is still at work or whose session may
still be there, carried that id explicitly, and so does the arriving one. -/
def Distinct (e : System) : Action → Prop
  | .arrive req ms _ => ∀ q c, e.log[q]? = some c → c.id = parsedSessionId req ms →
      (e.running q ≠ none ∨ e.activeSessions c.id ≠ none) →
        req.explicitId ≠ none ∧ c.explicitId ≠ none
  | .finish _ _ => True

/-! ### The invariant -/

/-- What holds of every reached state: an entry is under its id and has outputs of requests with that
id; a copy has outputs of earlier requests with the same explicit id. -/
structure Owned (e : System) : Prop where
  calls : ∀ (q : ℕ) (c : Call) (id : Bytes), e.log[q]? = some c → c.explicitId = some id → c.id = id
  entry : ∀ id s, e.activeSessions id = some s → s.sessionId = id ∧
    (∃ (q : ℕ) (c : Call), e.log[q]? = some c ∧ c.id = id) ∧
      ∀ o ∈ s.iterationResults, ∃ c, e.log[o.1]? = some c ∧ c.id = id
  copy : ∀ r s, e.running r = some s → (∃ c, e.log[r]? = some c ∧ s.sessionId = c.id) ∧
    ∀ o ∈ s.iterationResults, o.1 < r ∧ SameSession e.log o.1 r

theorem owned_init : Owned System.init :=
  ⟨fun _ _ _ h => by simp [System.init] at h, fun _ _ h => by simp [System.init] at h,
    fun _ _ h => by simp [System.init] at h⟩

section Log

variable {log : List Call} {c d : Call} {q r : ℕ}

theorem getElem?_append_one (h : log[q]? = some c) : (log ++ [d])[q]? = some c := by
  rw [List.getElem?_append_left (List.getElem?_eq_some_iff.mp h).1, h]

theorem getElem?_append_one_cases (h : (log ++ [d])[q]? = some c) :
    log[q]? = some c ∨ q = log.length ∧ c = d := by
  by_cases hq : q < log.length
  · rw [List.getElem?_append_left hq] at h
    exact Or.inl h
  · rw [List.getElem?_append_right (by omega), List.getElem?_singleton] at h
    split_ifs at h with h0
    · exact Or.inr ⟨by omega, (Option.some.inj h).symm⟩

theorem SameSession.append_one (h : SameSession log q r) : SameSession (log ++ [d]) q r := by
  obtain ⟨c, c', id, hq, hr, hc, hc'⟩ := h
  exact ⟨c, c', id, getElem?_append_one hq, getElem?_append_one hr, hc, hc'⟩

/-- An earlier request that got an explicit id, and carried it, is in the same session. -/
theorem SameSession.of_arrive {req : RequestIds} {ms : ℤ} (hreq : req.explicitId ≠ none)
    (hq : log[q]? = some c) (hid : ∀ id, c.explicitId = some id → c.id = id)
    (hc : c.explicitId ≠ none) (heq : c.id = parsedSessionId req ms) :
    SameSession (log ++ [{ explicitId := req.explicitId, id := parsedSessionId req ms }]) q log.length := by
  obtain ⟨id, hcid⟩ := Option.ne_none_iff_exists'.mp hc
  obtain ⟨id', hrid⟩ := Option.ne_none_iff_exists'.mp hreq
  have hparsed : parsedSessionId req ms = id' := by rw [parsedSessionId, hrid, Option.getD_some]
  have hsame : id' = id := by rw [← hid id hcid, heq, hparsed]
  refine ⟨c, _, id, getElem?_append_one hq, List.getElem?_concat_length, hcid, ?_⟩
  rw [hrid, hsame]

end Log

section Arrive

variable {e : System} {req : RequestIds} {ms ms' : ℤ}

/-- A request finds an empty session, or goes on with the one under its id. -/
theorem getOrCreateSession_cases (m : ActiveSessions Output) (req : RequestIds) (ms ms' : ℤ) :
    (getOrCreateSession m (parsedSessionId req ms) ms').sessionId = parsedSessionId req ms ∧
        (getOrCreateSession m (parsedSessionId req ms) ms').iterationResults = [] ∨
      ∃ s, m (parsedSessionId req ms) = some s ∧
        (getOrCreateSession m (parsedSessionId req ms) ms').sessionId = s.sessionId ∧
        (getOrCreateSession m (parsedSessionId req ms) ms').iterationResults = s.iterationResults := by
  have hid := parsedSessionId_ne_nil req ms
  cases h : m (parsedSessionId req ms) with
  | none =>
    rw [getOrCreateSession_none ms' h]
    exact Or.inl ⟨newSession_sessionId ms' hid, rfl⟩
  | some s =>
    rw [getOrCreateSession_some ms' hid h]
    exact Or.inr ⟨s, rfl, rfl, rfl⟩

/-- What an arriving request gets: a session under its id, with outputs of earlier requests that
carried this id, as it does itself. -/
theorem Owned.arrive_session (hI : Owned e) (hD : Distinct e (.arrive req ms ms')) :
    (getOrCreateSession e.activeSessions (parsedSessionId req ms) ms').sessionId =
        parsedSessionId req ms ∧
      ∀ o ∈ (getOrCreateSession e.activeSessions (parsedSessionId req ms) ms').iterationResults,
        o.1 < e.log.length ∧ (∃ c, e.log[o.1]? = some c ∧ c.id = parsedSessionId req ms) ∧
          SameSession (e.log ++ [{ explicitId := req.explicitId, id := parsedSessionId req ms }])
            o.1 e.log.length := by
  rcases getOrCreateSession_cases e.activeSessions req ms ms' with ⟨hsid, hres⟩ | ⟨s, hs, hsid, hres⟩
  · refine ⟨hsid, fun o ho => ?_⟩
    rw [hres] at ho
    exact absurd ho List.not_mem_nil
  · obtain ⟨hkey, -, houts⟩ := hI.entry _ s hs
    refine ⟨hsid.trans hkey, fun o ho => ?_⟩
    rw [hres] at ho
    obtain ⟨c, hc, hcid⟩ := houts o ho
    obtain ⟨hreq, hexp⟩ := hD o.1 c hc hcid (Or.inr (by rw [hcid, hs]; exact Option.some_ne_none s))
    exact ⟨(List.getElem?_eq_some_iff.mp hc).1, ⟨c, hc, hcid⟩,
      SameSession.of_arrive hreq hc (fun id => hI.calls o.1 c id hc) hexp hcid⟩

theorem Owned.arrive (hI : Owned e) (hD : Distinct e (.arrive req ms ms')) :
    Owned (step e (.arrive req ms ms')) := by
  obtain ⟨hsid, houts⟩ := hI.arrive_session hD
  refine ⟨fun q c id hq hc => ?_, fun id s hs => ?_, fun r s hs => ?_⟩
  · rcases getElem?_append_one_cases hq with hq | ⟨-, rfl⟩
    · exact hI.calls q c id hq hc
    · show parsedSessionId req ms = id
      rw [parsedSessionId, show req.explicitId = some id from hc, Option.getD_some]
  · -- the entry under the request's id is the session it got; the others are as they were
    simp only [step, afterGet_eq ms' (parsedSessionId_ne_nil req ms)] at hs
    by_cases hid : id = parsedSessionId req ms
    · rw [hid, Function.update_self] at hs
      rw [← Option.some.inj hs, hid]
      refine ⟨hsid, ⟨e.log.length, _, List.getElem?_concat_length, rfl⟩, fun o ho => ?_⟩
      obtain ⟨-, ⟨c, hc, hcid⟩, -⟩ := houts o ho
      exact ⟨c, getElem?_append_one hc, hcid⟩
    · rw [Function.update_of_ne hid] at hs
      obtain ⟨hkey, ⟨q, c, hq, hcid⟩, hold⟩ := hI.entry id s hs
      refine ⟨hkey, ⟨q, c, getElem?_append_one hq, hcid⟩, fun o ho => ?_⟩
      obtain ⟨c, hc, hcid⟩ := hold o ho
      exact ⟨c, getElem?_append_one hc, hcid⟩
  · simp only [step] at hs
    by_cases hr : r = e.log.length
    · rw [hr, Function.update_self] at hs
      rw [← Option.some.inj hs, hr]
      exact ⟨⟨_, List.getElem?_concat_length, hsid⟩, fun o ho => ⟨(houts o ho).1, (houts o ho).2.2⟩⟩
    · rw [Function.update_of_ne hr] at hs
      obtain ⟨⟨c, hc, hcid⟩, hold⟩ := hI.copy r s hs
      exact ⟨⟨c, getElem?_append_one hc, hcid⟩, fun o ho => ⟨(hold o ho).1, (hold o ho).2.append_one⟩⟩

theorem Owned.isolated_arrive (hI : Owned e) (hD : Distinct e (.arrive req ms ms')) :
    Isolated e (.arrive req ms ms') := by
  intro hanon
  refine ⟨?_, fun q s c hq hc _ hid => ?_⟩
  · by_contra hne
    obtain ⟨s, hs⟩ := Option.ne_none_iff_exists'.mp hne
    obtain ⟨-, ⟨q, c, hq, hcid⟩, -⟩ := hI.entry _ s hs
    exact (hD q c hq hcid (Or.inr (by rw [hcid]; exact hne))).1 hanon
  · obtain ⟨⟨c', hc', hcid⟩, -⟩ := hI.copy q s hq
    obtain rfl : c = c' := Option.some.inj (hc.symm.trans hc')
    exact (hD q c hc (hcid.symm.trans hid) (Or.inl (by rw [hq]; exact Option.some_ne_none s))).1 hanon

end Arrive

section Finish

variable {e : System} {r : ℕ} {answers : Answers Bytes} {s : InferenceSession Output}

theorem mem_loopEffect_map (turn : ℕ → Turn Bytes) (o : Output) : ∀ (left i : ℕ) (status : SessionStatus),
    o ∈ (loopEffect (fun i => (turn i).map (Prod.mk r)) left i status).1 → o.1 = r
  | 0, i, status, ho => absurd ho List.not_mem_nil
  | left + 1, i, status, ho => by
    have hrec := mem_loopEffect_map turn o left (i + 1)
    have hcons (output : Bytes) (status : SessionStatus) : o ∈ ((r, output) ::
        (loopEffect (fun i => (turn i).map (Prod.mk r)) left (i + 1) status).1) → o.1 = r := by
      intro ho
      rcases List.mem_cons.mp ho with rfl | ho
      · rfl
      · exact hrec status ho
    have hone (output : Bytes) : o ∈ [(r, output)] → o.1 = r := by
      intro ho
      rw [List.mem_singleton.mp ho]
    cases ht : turn i with
    | failed => simp [loopEffect, ht, Turn.map] at ho
    | answered output action acceptable =>
      simp only [loopEffect, ht, Turn.map] at ho
      cases action with
      | TOOL_CALL => exact hone output ho
      | INVALID => exact hcons output status ho
      | MODEL_CONTINUE => exact hcons output .CONTINUING ho
      | COMPLETE | MODEL_ERROR =>
        cases acceptable with
        | true => exact hone output ho
        | false => exact hcons output status ho

/-- What a request appends is its own. -/
theorem mem_effect_map {o : Output} (ho : o ∈ (answers.map (Prod.mk r)).effect.1) : o.1 = r := by
  cases answers with
  | multimodal => exact absurd ho List.not_mem_nil
  | turns turn => exact mem_loopEffect_map turn o _ _ _ ho

theorem Owned.isolated_finish (hI : Owned e) : Isolated e (.finish r answers) := by
  intro s outs hs houts o ho
  rw [(executePipeline_spec _ s).2 outs houts] at ho
  rcases List.mem_append.mp ho with ho | ho
  · exact Or.inr ((hI.copy r s hs).2 o ho)
  · exact Or.inl (mem_effect_map ho)

theorem Owned.finish (hI : Owned e) : Owned (step e (.finish r answers)) := by
  cases hs : e.running r with
  | none =>
    simp only [step, hs]
    exact hI
  | some s =>
    simp only [step, hs, (executePipeline_spec _ s).1]
    obtain ⟨⟨c, hc, hcid⟩, hcopy⟩ := hI.copy r s hs
    refine ⟨hI.calls, fun id s' hs' => ?_, fun q s' hs' => ?_⟩
    · rcases writeBack_cases hs' with hold | ⟨rfl, rfl⟩
      · exact hI.entry id s' hold
      · rw [show (s.extend (answers.map (Prod.mk r)).effect).sessionId = c.id from hcid]
        refine ⟨rfl, ⟨r, c, hc, rfl⟩, fun o ho => ?_⟩
        rcases List.mem_append.mp ho with ho | ho
        · obtain ⟨-, d, d', id, hd, hd', hdid, hdid'⟩ := hcopy o ho
          obtain rfl : c = d' := Option.some.inj (hc.symm.trans hd')
          exact ⟨d, hd, by rw [hI.calls _ d id hd hdid, hI.calls _ c id hd' hdid']⟩
        · rw [mem_effect_map ho]
          exact ⟨c, hc, rfl⟩
    · by_cases hq : q = r
      · simp only [hq, Function.update_self] at hs'
        exact absurd hs' (by simp)
      · simp only [Function.update_of_ne hq] at hs'
        exact hI.copy q s' hs'

end Finish

/-! ### Every run -/

/-- One step: the property and the invariant, from the invariant and the condition. -/
theorem Owned.step {e : System} {a : Action} (hI : Owned e) (hD : Distinct e a) :
    Isolated e a ∧ Owned (step e a) := by
  cases a with
  | arrive req ms ms' => exact ⟨hI.isolated_arrive hD, hI.arrive hD⟩
  | finish r answers => exact ⟨hI.isolated_finish, hI.finish⟩

/-- **Isolation of sessions.** In every run whose requests meet no session of a request without an
explicit id, every response consolidates outputs of its own request and of earlier ones with the
same explicit id only, and no two requests without an id share a session. -/
theorem sessions_isolated (as : List Action) (h : EveryStep step Distinct System.init as) :
    EveryStep step Isolated System.init as :=
  (everyStep_of_invariant (fun _ _ hI hD => hI.step hD) as System.init owned_init h).1

/-- The body of a request that names no session. -/
def anonymous : RequestIds := { sessionId := none, conversationId := none, user := none }

/-- The body of a request with a `session_id`. -/
def named (id : Bytes) : RequestIds := { sessionId := some id, conversationId := none, user := none }

/-- One turn, which asks the client for a tool. -/
def asksForTool (output : Bytes) : Answers Bytes := .turns fun _ => .answered output .TOOL_CALL false

/-- One turn, with a final answer. -/
def completes (output : Bytes) : Answers Bytes := .turns fun _ => .answered output .COMPLETE true

/-- Two requests of one named session, the second after the first asked for a tool. -/
def namedTwice : List Action :=
  [.arrive (named (ascii "s")) 5 5, .finish 0 (asksForTool (ascii "a")),
    .arrive (named (ascii "s")) 5 5, .finish 1 (completes (ascii "b"))]

/-- Two requests of one session: the second response has the outputs of both. -/
theorem sessions_isolated_named : EveryStep step Distinct System.init namedTwice ∧
    EveryStep step Isolated System.init namedTwice := by
  have h : EveryStep step Distinct System.init namedTwice := by
    refine ⟨fun q c hq => ?_, trivial, fun q c hq _ _ => ⟨by decide, ?_⟩, trivial, trivial⟩
    · exact absurd hq (by simp [System.init])
    · have hq0 : q = 0 := by
        have := (List.getElem?_eq_some_iff.mp hq).1
        exact Nat.lt_one_iff.mp this
      subst hq0
      rw [← Option.some.inj hq]
      decide
  exact ⟨h, sessions_isolated namedTwice h⟩

/-- Two requests without an id in one millisecond; the first asks for a tool. -/
def sameMillisecond : List Action :=
  [.arrive anonymous 5 5, .finish 0 (asksForTool (ascii "a")),
    .arrive anonymous 5 5, .finish 1 (completes (ascii "b"))]

/-- The clock does not go back, and the response to the second request has the output of the first. -/
theorem sessions_not_isolated : (clock sameMillisecond).Pairwise (· ≤ ·) ∧
    ¬ EveryStep step Isolated System.init sameMillisecond := by
  refine ⟨by decide, fun h => ?_⟩
  obtain ⟨-, -, -, h, -⟩ := h
  have hrun : ∃ s, (step (step (step System.init (.arrive anonymous 5 5))
      (.finish 0 (asksForTool (ascii "a")))) (.arrive anonymous 5 5)).running 1 = some s ∧
        s.iterationResults = [(0, ascii "a")] := ⟨_, rfl, rfl⟩
  obtain ⟨s, hs, hres⟩ := hrun
  have := h s [(0, ascii "a"), (1, ascii "b")] hs (by
    simp [executePipeline, completes, Answers.map, Turn.map, maxInternalTurns, runTurns, hres])
  rcases this (0, ascii "a") (by simp) with h0 | ⟨-, c, d, id, hc, -, hid, -⟩
  · exact absurd h0 (by decide)
  · have hnone : c.explicitId = none := by rw [← Option.some.inj hc]; rfl
    exact absurd (hnone.symm.trans hid) (by simp)

end DenseLite.Engine.Isolation
