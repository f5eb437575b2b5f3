import DenseLite.Infer.State

/-! # The turns of a session in the database

`save_session` writes the turns of a `SessionMemory` into `session_turns` in place of the ones that stand there, and
`load_session` reads them in the order of their indexes. Messages and tool interactions share the table, and the role
`tool` tells them apart when they are read: a message with that role comes back without its content.
`roundTrips_iff` says that these are the only turns that change. -/

namespace DenseLite.Memory.Turns

open DenseLite.Lib.ByteStream
open DenseLite.Infer.State (ascii)

/-! ### `SessionMemory` -/

/-- `SessionTurn`. -/
structure SessionTurn where
  turnIndex : UInt32 := 0
  timestamp : Int64 := 0
  role : Bytes := []
  content : Bytes := []
  toolName : Bytes := []
  toolArguments : Bytes := []
  toolResult : Bytes := []
deriving DecidableEq, Repr

/-- `SessionMemory`, without its decisions. -/
structure SessionMemory where
  sessionId : Bytes := []
  turns : List SessionTurn := []
deriving DecidableEq, Repr

/-- `add_message`. -/
def addMessage (s : SessionMemory) (now : Int64) (role content : Bytes) : SessionMemory :=
  { s with turns := s.turns ++
      [{ turnIndex := UInt32.ofNat s.turns.length, timestamp := now, role := role, content := content }] }

/-- `add_tool_interaction`. -/
def addToolInteraction (s : SessionMemory) (now : Int64) (toolName arguments result : Bytes) : SessionMemory :=
  { s with turns := s.turns ++
      [{ turnIndex := UInt32.ofNat s.turns.length, timestamp := now, role := ascii "tool", toolName := toolName
         toolArguments := arguments, toolResult := result }] }

/-- A call that adds a turn. -/
inductive Call
  | message (now : Int64) (role content : Bytes)
  | toolInteraction (now : Int64) (toolName arguments result : Bytes)
deriving DecidableEq, Repr

def step (s : SessionMemory) : Call → SessionMemory
  | .message now role content => addMessage s now role content
  | .toolInteraction now toolName arguments result => addToolInteraction s now toolName arguments result

/-- The session that calls build. -/
def build (sessionId : Bytes) (calls : List Call) : SessionMemory := calls.foldl step { sessionId := sessionId }

/-! ### The table -/

/-- A row of `session_turns`; its id is the place in the table. -/
structure TurnRow where
  sessionId : Bytes
  turnIndex : Int32
  timestamp : Int64
  role : Bytes
  content : Bytes
  toolName : Bytes
  toolArgs : Bytes
  toolResult : Bytes
deriving DecidableEq, Repr

/-- What `save_session` binds for a turn. -/
def bindTurn (sid : Bytes) (t : SessionTurn) : TurnRow where
  sessionId := cstr sid
  turnIndex := t.turnIndex.toInt32
  timestamp := t.timestamp
  role := cstr t.role
  content := cstr t.content
  toolName := cstr t.toolName
  toolArgs := cstr t.toolArguments
  toolResult := cstr t.toolResult

/-- `save_session`: the rows of the session are deleted, then its turns are inserted. -/
def saveSession (s : SessionMemory) (rows : List TurnRow) : List TurnRow :=
  (rows.filter fun r => r.sessionId ≠ cstr s.sessionId) ++ s.turns.map (bindTurn s.sessionId)

/-- The loop of `load_session`: a row with the role `tool` is a tool interaction, every other one a message. -/
def loadRow (now : Int64) (out : SessionMemory) (r : TurnRow) : SessionMemory :=
  if r.role = ascii "tool" then addToolInteraction out now r.toolName r.toolArgs r.toolResult
  else addMessage out now r.role r.content

/-- `load_session`: what it makes of `out`. -/
def loadSession (now : Int64) (sessionId : Bytes) (rows : List TurnRow) : SessionMemory :=
  ((rows.filter fun r => r.sessionId = cstr sessionId).mergeSort fun r r' => r.turnIndex.toInt ≤ r'.turnIndex.toInt).foldl
    (loadRow now) { sessionId := sessionId }

/-! ### What is claimed -/

/-- Role, content, tool name, arguments and result. -/
def said (t : SessionTurn) : Bytes × Bytes × Bytes × Bytes × Bytes :=
  (t.role, t.content, t.toolName, t.toolArguments, t.toolResult)

/-- The strings of the call have no zero byte. -/
def NulFree : Call → Prop
  | .message _ role content => 0 ∉ role ∧ 0 ∉ content
  | .toolInteraction _ toolName arguments result => 0 ∉ toolName ∧ 0 ∉ arguments ∧ 0 ∉ result

instance : DecidablePred NulFree
  | .message _ _ _ => inferInstanceAs (Decidable (_ ∧ _))
  | .toolInteraction _ _ _ _ => inferInstanceAs (Decidable (_ ∧ _ ∧ _))

/-- The same turns come back, in the same order. -/
def RoundTrips (now : Int64) (s : SessionMemory) (rows : List TurnRow) : Prop :=
  (loadSession now s.sessionId (saveSession s rows)).turns.map said = s.turns.map said

/-- The call adds no message with the role of the tools and a content. -/
def Distinct : Call → Prop
  | .message _ role content => role = ascii "tool" → content = []
  | .toolInteraction _ _ _ _ => True

/-! ### One call -/

section Calls

variable {s : SessionMemory} {sid : Bytes} {calls : List Call}

/-- The turn that a call adds, apart from its number. -/
def turnOf : Call → SessionTurn
  | .message now role content => { timestamp := now, role := role, content := content }
  | .toolInteraction now toolName arguments result =>
    { timestamp := now, role := ascii "tool", toolName := toolName, toolArguments := arguments, toolResult := result }

theorem step_eq (s : SessionMemory) (c : Call) :
    step s c = { s with turns := s.turns ++ [{ turnOf c with turnIndex := UInt32.ofNat s.turns.length }] } := by
  cases c <;> rfl

/-- The turns are numbered from zero. -/
def Numbered (turns : List SessionTurn) : Prop := ∀ i t, turns[i]? = some t → t.turnIndex = UInt32.ofNat i

theorem numbered_concat {turns : List SessionTurn} (h : Numbered turns) {t : SessionTurn}
    (ht : t.turnIndex = UInt32.ofNat turns.length) : Numbered (turns ++ [t]) := by
  intro i u hu
  rcases Nat.lt_or_ge i turns.length with hi | hi
  · exact h i u (by rwa [List.getElem?_append_left hi] at hu)
  · rw [List.getElem?_append_right hi] at hu
    obtain ⟨hlt, rfl⟩ := List.getElem?_eq_some_iff.mp hu
    have hlen : i = turns.length := by
      rw [List.length_singleton] at hlt
      omega
    simpa [hlen] using ht

/-- What calls add to a session. -/
theorem foldl_step : ∀ (calls : List Call) (s : SessionMemory), Numbered s.turns →
    (calls.foldl step s).sessionId = s.sessionId ∧ Numbered (calls.foldl step s).turns ∧
      (calls.foldl step s).turns.map said = s.turns.map said ++ calls.map fun c => said (turnOf c)
  | [], _, h => ⟨rfl, h, by simp⟩
  | c :: calls, s, h => by
    have hstep : Numbered (step s c).turns := by
      rw [step_eq]
      exact numbered_concat h rfl
    obtain ⟨hid, hnumbered, hsaid⟩ := foldl_step calls (step s c) hstep
    refine ⟨hid.trans (by rw [step_eq]), hnumbered, hsaid.trans ?_⟩
    rw [step_eq, List.map_append, List.map_cons, List.append_assoc]
    rfl

theorem said_turnOf_build (sid : Bytes) (calls : List Call) :
    (build sid calls).turns.map said = calls.map fun c => said (turnOf c) := by
  have hspec := (foldl_step calls { sessionId := sid } (by simp [Numbered])).2.2
  rwa [List.map_nil, List.nil_append] at hspec

theorem numbered_build (sid : Bytes) (calls : List Call) : Numbered (build sid calls).turns :=
  (foldl_step calls { sessionId := sid } (by simp [Numbered])).2.1

theorem length_build (sid : Bytes) (calls : List Call) : (build sid calls).turns.length = calls.length := by
  have hlen := congrArg List.length (said_turnOf_build sid calls)
  rwa [List.length_map, List.length_map] at hlen

end Calls

/-! ### Reading the rows -/

section Reading

variable {s : SessionMemory} {rows : List TurnRow}

/-- The call that adds the turn of a row. -/
def callOf (now : Int64) (r : TurnRow) : Call :=
  if r.role = ascii "tool" then .toolInteraction now r.toolName r.toolArgs r.toolResult
  else .message now r.role r.content

theorem foldl_loadRow (now : Int64) (rows : List TurnRow) (out : SessionMemory) :
    rows.foldl (loadRow now) out = (rows.map (callOf now)).foldl step out := by
  have hrow : loadRow now = fun out r => step out (callOf now r) := by
    funext out r
    unfold loadRow callOf
    split_ifs
    · rfl
    · rfl
  rw [hrow, List.foldl_map]

/-- After a save the rows of the session are its turns. -/
theorem filter_saveSession (s : SessionMemory) (rows : List TurnRow) :
    ((saveSession s rows).filter fun r => r.sessionId = cstr s.sessionId) = s.turns.map (bindTurn s.sessionId) := by
  have hothers : (rows.filter fun r => r.sessionId ≠ cstr s.sessionId).filter
      (fun r => r.sessionId = cstr s.sessionId) = [] := by
    rw [List.filter_filter]
    exact List.filter_eq_nil_iff.mpr (by simp)
  have hown : (s.turns.map (bindTurn s.sessionId)).filter (fun r => r.sessionId = cstr s.sessionId) =
      s.turns.map (bindTurn s.sessionId) := by
    refine List.filter_eq_self.mpr fun r hr => ?_
    obtain ⟨t, -, rfl⟩ := List.mem_map.mp hr
    exact decide_eq_true rfl
  rw [saveSession, List.filter_append, hothers, hown, List.nil_append]

/-- Numbers that an `int` can hold are bound as they are, so the turns are in the order of their rows. -/
theorem pairwise_bindTurn {turns : List SessionTurn} (h : Numbered turns) (hlen : turns.length ≤ 2 ^ 31) (sid : Bytes) :
    (turns.map (bindTurn sid)).Pairwise fun r r' => decide (r.turnIndex.toInt ≤ r'.turnIndex.toInt) = true := by
  have hindex : ∀ (i : ℕ) (hi : i < turns.length), (bindTurn sid turns[i]).turnIndex.toInt = i := by
    intro i hi
    show (turns[i].turnIndex.toInt32).toInt = i
    rw [h i _ (List.getElem?_eq_getElem hi)]
    show (BitVec.ofNat 32 i).toInt = i
    rw [BitVec.toInt_eq_toNat_of_lt (by rw [BitVec.toNat_ofNat]; omega), BitVec.toNat_ofNat,
      Nat.mod_eq_of_lt (by omega)]
  rw [List.pairwise_iff_getElem]
  intro i j hi hj hij
  rw [List.length_map] at hi hj
  rw [List.getElem_map, List.getElem_map, hindex i hi, hindex j hj, decide_eq_true_iff]
  omega

/-- What is read of a turn. -/
def reread : Bytes × Bytes × Bytes × Bytes × Bytes → Bytes × Bytes × Bytes × Bytes × Bytes
  | (role, content, toolName, toolArguments, toolResult) =>
    if cstr role = ascii "tool" then (ascii "tool", [], cstr toolName, cstr toolArguments, cstr toolResult)
    else (cstr role, cstr content, [], [], [])

theorem said_callOf_bindTurn (now : Int64) (sid : Bytes) (t : SessionTurn) :
    said (turnOf (callOf now (bindTurn sid t))) = reread (said t) := by
  show said (turnOf (if cstr t.role = ascii "tool" then
      .toolInteraction now (cstr t.toolName) (cstr t.toolArguments) (cstr t.toolResult)
    else .message now (cstr t.role) (cstr t.content))) =
    if cstr t.role = ascii "tool" then
      (ascii "tool", [], cstr t.toolName, cstr t.toolArguments, cstr t.toolResult)
    else (cstr t.role, cstr t.content, [], [], [])
  by_cases hrole : cstr t.role = ascii "tool"
  · rw [if_pos hrole, if_pos hrole]
    rfl
  · rw [if_neg hrole, if_neg hrole]
    rfl

theorem said_loadSession (now : Int64) (h : Numbered s.turns) (hlen : s.turns.length ≤ 2 ^ 31) (rows : List TurnRow) :
    (loadSession now s.sessionId (saveSession s rows)).turns.map said = (s.turns.map said).map reread := by
  unfold loadSession
  rw [filter_saveSession, List.mergeSort_of_pairwise (pairwise_bindTurn h hlen s.sessionId), foldl_loadRow,
    (foldl_step _ { sessionId := s.sessionId } (by simp [Numbered])).2.2]
  simp only [List.map_nil, List.nil_append, List.map_map]
  exact List.map_congr_left fun t _ => said_callOf_bindTurn now s.sessionId t

/-- A turn that a call added is read as it was, unless it is a message with the role of the tools and a content. -/
theorem reread_eq_iff {c : Call} (h : NulFree c) : reread (said (turnOf c)) = said (turnOf c) ↔ Distinct c := by
  cases c with
  | message now role content =>
    show (if cstr role = ascii "tool" then (ascii "tool", [], cstr [], cstr [], cstr [])
      else (cstr role, cstr content, [], [], [])) = (role, content, [], [], []) ↔ (role = ascii "tool" → content = [])
    rw [cstr_of_not_mem h.1, cstr_of_not_mem h.2]
    by_cases hrole : role = ascii "tool"
    · rw [if_pos hrole, hrole]
      simp [cstr, eq_comm]
    · rw [if_neg hrole]
      exact iff_of_true rfl fun heq => absurd heq hrole
  | toolInteraction now toolName arguments result =>
    refine iff_of_true ?_ trivial
    show (if cstr (ascii "tool") = ascii "tool" then (ascii "tool", [], cstr toolName, cstr arguments, cstr result)
      else (cstr (ascii "tool"), cstr [], [], [], [])) = (ascii "tool", [], toolName, arguments, result)
    rw [cstr_of_not_mem h.1, cstr_of_not_mem h.2.1, cstr_of_not_mem h.2.2, if_pos (by decide)]

end Reading

/-- **The turns come back** exactly when no message has the role of the tools and a content. -/
theorem roundTrips_turns_iff (now : Int64) (sid : Bytes) (calls : List Call) (rows : List TurnRow)
    (hnul : ∀ c ∈ calls, NulFree c) (hlen : calls.length ≤ 2 ^ 31) :
    RoundTrips now (build sid calls) rows ↔ ∀ c ∈ calls, Distinct c := by
  unfold RoundTrips
  rw [said_loadSession now (numbered_build sid calls) (by rwa [length_build]), said_turnOf_build, List.map_map,
    List.map_inj_left]
  exact forall₂_congr fun c hc => reread_eq_iff (hnul c hc)

theorem roundTrips_turns_mixed :
    RoundTrips 7 (build (ascii "s") [.message 1 (ascii "user") (ascii "hi"), .toolInteraction 2 (ascii "ls") [] (ascii "a")])
      [bindTurn (ascii "s") { content := ascii "old" }, bindTurn (ascii "t") {}] := by
  refine (roundTrips_turns_iff 7 (ascii "s") _ _ (by decide) (by decide)).mpr fun c hc => ?_
  rcases List.mem_pair.mp hc with rfl | rfl
  · exact fun h => absurd h (by decide)
  · trivial

/-- The content of a message with the role of the tools is lost. -/
theorem not_roundTrips_toolMessage :
    let calls := [Call.message 1 (ascii "tool") (ascii "42 files")]
    (∀ c ∈ calls, NulFree c) ∧ ¬ RoundTrips 7 (build (ascii "s") calls) [] := by
  refine ⟨by decide, ?_⟩
  unfold RoundTrips
  decide +kernel

end DenseLite.Memory.Turns
