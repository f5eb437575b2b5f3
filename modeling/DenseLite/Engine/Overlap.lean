import DenseLite.Engine.Sessions
import DenseLite.Lib.Runs

/-! # Two requests on one session

The locked blocks of `process` are the only atomic steps: a request reads its copy of the session in
the first and stores it in the second. `no_lost_session_update_iff`: when neither request ends its
session, the stored session has the outputs of both and counts both exactly when one request has
stored before the other reads, or when the second reader also stores second and the outputs of the
first happen to be there anyway. -/

namespace DenseLite.Engine.Overlap

open DenseLite.Lib.ByteStream DenseLite.Lib.Runs DenseLite.Infer.State DenseLite.Engine.Sessions

variable {α : Type}

/-! ### The steps of two requests -/

/-- A request: what its body says, the two clock readings, and what the models answer it. -/
structure Request (α : Type) where
  ids : RequestIds
  ms : ℤ
  ms' : ℤ
  answers : Answers α

/-- The session id of the request. -/
def Request.id (req : Request α) : Bytes := parsedSessionId req.ids req.ms

/-- The locked blocks of the two requests. -/
inductive Event
  | get (i : Bool)
  | put (i : Bool)
deriving DecidableEq, Repr

/-- The shared sessions, and the copy that each request holds. -/
structure Shared (α : Type) where
  activeSessions : ActiveSessions α
  copy : Bool → Option (InferenceSession α)

/-- One locked block; `execute_pipeline` runs on the copy in between. -/
def step (req : Bool → Request α) (sh : Shared α) : Event → Shared α
  | .get i =>
    { activeSessions := afterGet sh.activeSessions (req i).id (req i).ms'
      copy := Function.update sh.copy i
        (some (getOrCreateSession sh.activeSessions (req i).id (req i).ms')) }
  | .put i =>
    match sh.copy i with
    | none => sh
    | some s => { sh with
        activeSessions := writeBack sh.activeSessions (executePipeline (req i).answers s).1 }

/-- The sessions after the locked blocks `cs`, from the sessions `m`. -/
def sessionsAfter (req : Bool → Request α) (m : ActiveSessions α) (cs : List Event) : ActiveSessions α :=
  (cs.foldl (step req) { activeSessions := m, copy := fun _ => none }).activeSessions

/-- The sessions that the engine can have: none, or what the locked blocks of any requests made. -/
inductive Reachable : ActiveSessions α → Prop
  | init : Reachable fun _ => none
  | get {m : ActiveSessions α} (id : Bytes) (ms : ℤ) : Reachable m → Reachable (afterGet m id ms)
  | put {m : ActiveSessions α} (s : InferenceSession α) : Reachable m → Reachable (writeBack m s)

/-- The outputs stored under an id. -/
def resultsOf (m : ActiveSessions α) (id : Bytes) : List α := ((m id).map (·.iterationResults)).getD []

/-- The requests counted under an id. -/
def countOf (m : ActiveSessions α) (id : Bytes) : ℤ := ((m id).map (·.iterationCount)).getD 0

/-- The session stored under `id` has every output of the two requests and counts them both. -/
def NoLostUpdate (req : Bool → Request α) (m : ActiveSessions α) (id : Bytes) (cs : List Event) : Prop :=
  ∃ s, sessionsAfter req m cs id = some s ∧ (∀ i, (req i).answers.effect.1 ⊆ s.iterationResults) ∧
    s.iterationCount = countOf m id + 2

/-- The request does not end its session. -/
def Open (req : Request α) : Prop :=
  req.answers.effect.2 ≠ .COMPLETED ∧ req.answers.effect.2 ≠ .FAILED

/-! ### One locked block -/

theorem keyed_of_reachable {m : ActiveSessions α} (h : Reachable m) :
    ∀ id s, m id = some s → s.sessionId = id := by
  induction h with
  | init => intro id s h; exact absurd h (by simp)
  | @get m id' ms _ ih =>
    intro id s hs
    unfold afterGet at hs
    split_ifs at hs with hfound
    · -- the entry that was found, with one more request
      obtain ⟨s', hs'⟩ := Option.ne_none_iff_exists'.mp hfound.1
      by_cases hid : id = id'
      · rw [hid, Function.update_self, getOrCreateSession_some ms hfound.2 hs'] at hs
        rw [← Option.some.inj hs, hid]
        exact ih id' s' hs'
      · rw [Function.update_of_ne hid] at hs
        exact ih id s hs
    · have hnew : getOrCreateSession m id' ms = newSession id' ms := by
        unfold getOrCreateSession
        split
        · next s' hs' => rw [if_pos (by_contra fun h => hfound ⟨by simp [hs'], h⟩)]
        · rfl
      rw [hnew] at hs
      by_cases hid : id = (newSession (α := α) id' ms).sessionId
      · rw [hid, Function.update_self] at hs
        rw [← Option.some.inj hs, hid]
      · rw [Function.update_of_ne hid] at hs
        exact ih id s hs
  | @put m s' _ ih =>
    intro id s hs
    rcases writeBack_cases hs with hold | ⟨rfl, rfl⟩
    · exact ih id s hold
    · rfl

/-- A session that stays open is stored. -/
theorem writeBack_open {req : Request α} (hopen : Open req) (m : ActiveSessions α) (s : InferenceSession α) :
    writeBack m (executePipeline req.answers s).1 =
      Function.update m s.sessionId (some (s.extend req.answers.effect)) := by
  rw [(executePipeline_spec req.answers s).1, writeBack, if_neg]
  · rfl
  · exact fun h => h.elim hopen.1 hopen.2

/-- The part of a session that the claim is about. -/
def slot (s : InferenceSession α) : List α × ℤ := (s.iterationResults, s.iterationCount)

/-- What a request reads: the stored outputs and one request more, or a new session. -/
def read : Option (List α × ℤ) → List α × ℤ
  | none => ([], 1)
  | some (results, count) => (results, count + 1)

/-- The session `id` is stored as `stored`, and the requests hold the copies `held` of it. -/
structure View (sh : Shared α) (id : Bytes) (stored : Option (List α × ℤ))
    (held : Bool → Option (List α × ℤ)) : Prop where
  entry : (sh.activeSessions id).map slot = stored
  keyed : ∀ s, sh.activeSessions id = some s → s.sessionId = id
  copies : ∀ i, (sh.copy i).map slot = held i
  copyKeyed : ∀ i s, sh.copy i = some s → s.sessionId = id

section Blocks

variable {req : Bool → Request α} {sh : Shared α} {id : Bytes} {stored : Option (List α × ℤ)}
  {held : Bool → Option (List α × ℤ)} {i : Bool}

/-- The session that `get_or_create_session` returns. -/
theorem View.returned (h : View sh id stored held) (hid : id ≠ []) (ms : ℤ) :
    slot (getOrCreateSession sh.activeSessions id ms) = read stored ∧
      (getOrCreateSession sh.activeSessions id ms).sessionId = id := by
  rw [← h.entry]
  cases hs : sh.activeSessions id with
  | none =>
    rw [getOrCreateSession_none ms hs, newSession_sessionId ms hid]
    exact ⟨rfl, rfl⟩
  | some s =>
    rw [getOrCreateSession_some ms hid hs]
    exact ⟨rfl, h.keyed s hs⟩

/-- The first locked block: the request reads what is stored, with itself counted, and stores it. -/
theorem View.get (h : View sh id stored held) (hreq : (req i).id = id) :
    View (step req sh (.get i)) id (some (read stored)) (Function.update held i (some (read stored))) := by
  have hid : id ≠ [] := hreq ▸ parsedSessionId_ne_nil (req i).ids (req i).ms
  obtain ⟨hslot, hkey⟩ := h.returned hid (req i).ms'
  have hself : (step req sh (.get i)).activeSessions id =
      some (getOrCreateSession sh.activeSessions id (req i).ms') := by
    simp only [step, hreq, afterGet_eq _ hid, Function.update_self]
  have hcopy (j : Bool) : (step req sh (.get i)).copy j = Function.update sh.copy i
      (some (getOrCreateSession sh.activeSessions id (req i).ms')) j := by
    simp only [step, hreq]
  refine ⟨by rw [hself, Option.map_some, hslot], fun s hs => ?_, fun j => ?_, fun j s hs => ?_⟩
  · rw [hself] at hs
    rw [← Option.some.inj hs, hkey]
  · rw [hcopy]
    by_cases hj : j = i
    · rw [hj, Function.update_self, Function.update_self, Option.map_some, hslot]
    · rw [Function.update_of_ne hj, Function.update_of_ne hj, h.copies j]
  · rw [hcopy] at hs
    by_cases hj : j = i
    · rw [hj, Function.update_self] at hs
      rw [← Option.some.inj hs, hkey]
    · rw [Function.update_of_ne hj] at hs
      exact h.copyKeyed j s hs

/-- The second locked block: the copy is stored, with the outputs of the request appended. -/
theorem View.put (h : View sh id stored held) (hopen : Open (req i)) {results : List α} {count : ℤ}
    (hheld : held i = some (results, count)) :
    View (step req sh (.put i)) id (some (results ++ (req i).answers.effect.1, count)) held := by
  have hcopies := h.copies i
  rw [hheld] at hcopies
  obtain ⟨s, hs, hslot⟩ := Option.map_eq_some_iff.mp hcopies
  obtain ⟨rfl, rfl⟩ := Prod.mk.inj hslot
  have hstep : step req sh (.put i) = { sh with
      activeSessions := Function.update sh.activeSessions id (some (s.extend (req i).answers.effect)) } := by
    simp only [step, hs, writeBack_open hopen, h.copyKeyed i s hs]
  rw [hstep]
  refine ⟨?_, fun s' hs' => ?_, h.copies, h.copyKeyed⟩
  · simp only [Function.update_self, Option.map_some]
    rfl
  · simp only [Function.update_self] at hs'
    rw [← Option.some.inj hs']
    exact h.copyKeyed i s hs

end Blocks

/-! ### The interleavings of two requests -/

/-- The interleavings: one request after the other, or both read first and store in the order in
which they read, or in the other order. -/
theorem interleaves_cases {cs : List Event}
    (h : Interleaves [.get false, .put false] [.get true, .put true] cs) :
    ∃ i, cs = [.get i, .put i, .get !i, .put !i] ∨ cs = [.get i, .get !i, .put i, .put !i] ∨
      cs = [.get i, .get !i, .put !i, .put i] := by
  cases h with
  | left h =>
    refine ⟨false, ?_⟩
    cases h with
    | left h =>
      obtain _ | _ | h := h
      obtain _ | _ | h := h
      cases h
      exact Or.inl rfl
    | right h =>
      cases h with
      | left h =>
        obtain _ | _ | h := h
        cases h
        exact Or.inr (Or.inl rfl)
      | right h =>
        obtain _ | h | _ := h
        cases h
        exact Or.inr (Or.inr rfl)
  | right h =>
    refine ⟨true, ?_⟩
    cases h with
    | right h =>
      obtain _ | h | _ := h
      obtain _ | h | _ := h
      cases h
      exact Or.inl rfl
    | left h =>
      cases h with
      | left h =>
        obtain _ | _ | h := h
        cases h
        exact Or.inr (Or.inr rfl)
      | right h =>
        obtain _ | h | _ := h
        cases h
        exact Or.inr (Or.inl rfl)

section Runs

variable {req : Bool → Request α} {m : ActiveSessions α} {id : Bytes} {i : Bool}

theorem view_start (hm : Reachable m) : View { activeSessions := m, copy := fun _ => none } id
    ((m id).map slot) fun _ => none :=
  ⟨rfl, keyed_of_reachable hm id, fun _ => rfl, fun _ _ h => absurd h (by simp)⟩

theorem read_slot : read ((m id).map slot) = (resultsOf m id, countOf m id + 1) := by
  cases h : m id with
  | none => simp [read, resultsOf, countOf, h]
  | some s => simp [read, slot, resultsOf, countOf, h]

section

variable (hm : Reachable m) (hid : ∀ i, (req i).id = id) (hopen : ∀ i, Open (req i))

include hm hid hopen

/-- One request after the other: all outputs are stored, and both requests counted. -/
theorem stored_serial : (sessionsAfter req m [.get i, .put i, .get !i, .put !i] id).map slot =
    some (resultsOf m id ++ (req i).answers.effect.1 ++ (req !i).answers.effect.1,
      countOf m id + 1 + 1) := by
  have h1 := (view_start hm).get (hid i)
  rw [read_slot] at h1
  have h2 := h1.put (hopen i) (Function.update_self ..)
  have h3 := h2.get (hid !i)
  exact (h3.put (hopen !i) (Function.update_self ..)).entry

/-- Both read first: what the second one stores has nothing of the first. -/
theorem stored_overlap : (sessionsAfter req m [.get i, .get !i, .put i, .put !i] id).map slot =
    some (resultsOf m id ++ (req !i).answers.effect.1, countOf m id + 1 + 1) := by
  have h1 := (view_start hm).get (hid i)
  rw [read_slot] at h1
  have h2 := h1.get (hid !i)
  have h3 := h2.put (i := i) (hopen i)
    ((Function.update_of_ne (by simp) ..).trans (Function.update_self ..))
  exact (h3.put (hopen !i) (Function.update_self ..)).entry

/-- Both read first, and the first one stores last: the other request is not even counted. -/
theorem stored_crossed : (sessionsAfter req m [.get i, .get !i, .put !i, .put i] id).map slot =
    some (resultsOf m id ++ (req i).answers.effect.1, countOf m id + 1) := by
  have h1 := (view_start hm).get (hid i)
  rw [read_slot] at h1
  have h2 := h1.get (hid !i)
  have h3 := h2.put (hopen !i) (Function.update_self ..)
  exact (h3.put (hopen i) ((Function.update_of_ne (by simp) ..).trans (Function.update_self ..))).entry

end

theorem noLostUpdate_of_stored {cs : List Event} {results : List α} {count : ℤ}
    (h : (sessionsAfter req m cs id).map slot = some (results, count)) :
    NoLostUpdate req m id cs ↔ (∀ i, (req i).answers.effect.1 ⊆ results) ∧ count = countOf m id + 2 := by
  obtain ⟨s, hs, hslot⟩ := Option.map_eq_some_iff.mp h
  obtain ⟨rfl, rfl⟩ := Prod.mk.inj hslot
  constructor
  · rintro ⟨s', hs', houts, hcount⟩
    obtain rfl : s = s' := Option.some.inj (hs.symm.trans hs')
    exact ⟨houts, hcount⟩
  · rintro ⟨houts, hcount⟩
    exact ⟨s, hs, houts, hcount⟩

/-- One request stores before the other reads; or both read first, the second reader stores last, and
all outputs of the first are there without it. -/
def Ordered (req : Bool → Request α) (m : ActiveSessions α) (id : Bytes) (cs : List Event) : Prop :=
  ∃ i, cs = [.get i, .put i, .get !i, .put !i] ∨
    cs = [.get i, .get !i, .put i, .put !i] ∧
      (req i).answers.effect.1 ⊆ resultsOf m id ++ (req !i).answers.effect.1

/-- **Two requests on one session.** Of every interleaving of two requests with the same session id,
neither of which ends the session: no update is lost exactly when the blocks are ordered. -/
theorem no_lost_session_update_iff (req : Bool → Request α) (m : ActiveSessions α) (id : Bytes)
    (cs : List Event) (hm : Reachable m) (hid : ∀ i, (req i).id = id) (hopen : ∀ i, Open (req i))
    (hcs : Interleaves [.get false, .put false] [.get true, .put true] cs) :
    NoLostUpdate req m id cs ↔ Ordered req m id cs := by
  obtain ⟨i, rfl | rfl | rfl⟩ := interleaves_cases hcs
  · rw [noLostUpdate_of_stored (stored_serial hm hid hopen)]
    refine iff_of_true ⟨fun j => ?_, by omega⟩ ⟨i, Or.inl rfl⟩
    rcases Bool.eq_or_eq_not j i with rfl | rfl
    · exact fun o ho => List.mem_append_left _ (List.mem_append_right _ ho)
    · exact fun o ho => List.mem_append_right _ ho
  · rw [noLostUpdate_of_stored (stored_overlap hm hid hopen)]
    constructor
    · rintro ⟨houts, -⟩
      exact ⟨i, Or.inr ⟨rfl, houts i⟩⟩
    · rintro ⟨j, heq | ⟨heq, houts⟩⟩
      · simp at heq
      · obtain rfl : i = j := by simpa using congrArg List.head? heq
        refine ⟨fun j => ?_, by omega⟩
        rcases Bool.eq_or_eq_not j i with rfl | rfl
        · exact houts
        · exact fun o ho => List.mem_append_right _ ho
  · rw [noLostUpdate_of_stored (stored_crossed hm hid hopen)]
    refine iff_of_false (fun h => by omega) ?_
    rintro ⟨j, heq | ⟨heq, -⟩⟩
    · simp at heq
    · cases i <;> cases j <;> simp at heq

end Runs

/-- Two requests on the session `s` that ask for a tool, with different outputs. -/
def twoTools (i : Bool) : Request Bytes :=
  { ids := { sessionId := some (ascii "s"), conversationId := none, user := none }
    ms := 5
    ms' := 5
    answers := .turns fun _ => .answered (if i then ascii "b" else ascii "a") .TOOL_CALL false }

theorem twoTools_open (i : Bool) : Open (twoTools i) :=
  ⟨SessionStatus.noConfusion, SessionStatus.noConfusion⟩

/-- One request after the other. -/
theorem no_lost_session_update_iff_serial :
    NoLostUpdate twoTools (fun _ => none) (ascii "s") [.get false, .put false, .get true, .put true] :=
  (no_lost_session_update_iff twoTools (fun _ => none) (ascii "s") _ .init (fun _ => rfl) twoTools_open
    (.left (.left (.right (.right .nil))))).mpr ⟨false, Or.inl rfl⟩

/-- Both requests read before either stores: the output of the first is lost. -/
theorem session_update_lost : Reachable (fun _ => none : ActiveSessions Bytes) ∧
    (∀ i, (twoTools i).id = ascii "s" ∧ Open (twoTools i)) ∧
    Interleaves [Event.get false, .put false] [.get true, .put true]
      [.get false, .get true, .put false, .put true] ∧
    ¬ NoLostUpdate twoTools (fun _ => none) (ascii "s") [.get false, .get true, .put false, .put true] := by
  refine ⟨.init, fun i => ⟨rfl, twoTools_open i⟩, .left (.right (.left (.right .nil))), ?_⟩
  rintro ⟨s, hs, houts, -⟩
  have hres : s.iterationResults = [ascii "b"] := by
    rw [← Option.some.inj hs]
    rfl
  have hmem := houts false (List.mem_singleton_self (ascii "a"))
  rw [hres] at hmem
  exact absurd hmem (by decide +kernel)

end DenseLite.Engine.Overlap
