import DenseLite.Engine.Analyzer

/-! # From outputs to answers

An output goes into `iteration_results` before it is classified, and `consolidate` leaves none out. So
an output that is classified as an error or as invalid is in the answer whenever there is one
(`no_bad_answer_iff`), and a bare claim such as `Done` is classified as complete, which is authoritative
for `is_acceptable`: it completes the session of a coding task (`bare_claim_completes`). -/

namespace DenseLite.Engine.Answers

open DenseLite.Lib.ByteStream DenseLite.Engine.Context DenseLite.Engine.Sessions DenseLite.Engine.Pipeline
open DenseLite.Engine.Analyzer
open DenseLite.Infer.State (ascii ascii_ofList occursIn)

/-! ### The turns of a run -/

section Turns

variable {α : Type}

/-- The loop goes on after the turn. -/
def goesOn : Turn α → Bool
  | .failed => false
  | .answered _ .TOOL_CALL _ => false
  | .answered _ .INVALID _ | .answered _ .MODEL_CONTINUE _ => true
  | .answered _ .COMPLETE acceptable | .answered _ .MODEL_ERROR acceptable => !acceptable

/-- The turn does not make `execute_pipeline` return: there is an output, and it is no tool call. -/
def staysInLoop : Turn α → Bool
  | .failed | .answered _ .TOOL_CALL _ => false
  | .answered _ _ _ => true

/-- The output of a turn. -/
def outputOf : Turn α → Option α
  | .failed => none
  | .answered output _ _ => some output

/-- The list has the turns of a loop with `left` of them to go: only the last one ends the loop, or all
are used up. -/
def Ended : ℕ → List (Turn α) → Prop
  | 0, ts => ts = []
  | _ + 1, [] => False
  | left + 1, t :: ts => if goesOn t then Ended left ts else ts = []

/-- The turns of the list are those of the loop from number `i` on. -/
def Follows (turn : ℕ → Turn α) (i : ℕ) (ts : List (Turn α)) : Prop :=
  ∀ k, turn (i + k) = (ts[k]?).getD .failed

variable {turn : ℕ → Turn α} {i : ℕ} {t : Turn α} {ts : List (Turn α)}

theorem Follows.head (h : Follows turn i (t :: ts)) : turn i = t := by
  simpa using h 0

theorem Follows.tail (h : Follows turn i (t :: ts)) : Follows turn (i + 1) ts := by
  intro k
  have hk := h (k + 1)
  rw [List.getElem?_cons_succ] at hk
  rwa [Nat.add_assoc, Nat.add_comm 1 k]

/-- The loop appends the outputs of its turns. -/
theorem loopEffect_outputs : ∀ (left i : ℕ) (status : SessionStatus) (ts : List (Turn α)),
    Ended left ts → Follows turn i ts → (loopEffect turn left i status).1 = ts.filterMap outputOf
  | 0, _, _, ts, hend, _ => by
    rw [show ts = [] from hend]
    rfl
  | left + 1, i, status, t :: ts, hend, hts => by
    have hrest (status : SessionStatus) (hgo : goesOn t) :=
      loopEffect_outputs left (i + 1) status ts (by rwa [Ended, if_pos hgo] at hend) hts.tail
    have hlast (hgo : goesOn t = false) : ts = [] := by rwa [Ended, hgo] at hend
    unfold loopEffect
    rw [hts.head]
    cases t with
    | failed =>
      rw [hlast rfl]
      rfl
    | answered output action acceptable =>
      cases action with
      | TOOL_CALL =>
        rw [hlast rfl]
        rfl
      | INVALID => simp [outputOf, hrest _ rfl]
      | MODEL_CONTINUE => simp [outputOf, hrest _ rfl]
      | COMPLETE | MODEL_ERROR =>
        cases acceptable with
        | true =>
          rw [hlast rfl]
          rfl
        | false => simp [outputOf, hrest _ rfl]

/-- The loop gets to the consolidation when none of its turns makes `execute_pipeline` return. -/
theorem runTurns_isSome : ∀ (left i : ℕ) (s : InferenceSession α) (ts : List (Turn α)),
    Ended left ts → Follows turn i ts → ((runTurns turn left i s).2.isSome ↔ ∀ t ∈ ts, staysInLoop t)
  | 0, _, _, ts, hend, _ => by
    rw [show ts = [] from hend]
    simp [runTurns]
  | left + 1, i, s, t :: ts, hend, hts => by
    have hrest (s : InferenceSession α) (hgo : goesOn t) :=
      runTurns_isSome left (i + 1) s ts (by rwa [Ended, if_pos hgo] at hend) hts.tail
    have hlast (hgo : goesOn t = false) : ts = [] := by rwa [Ended, hgo] at hend
    unfold runTurns
    rw [hts.head]
    cases t with
    | failed => simp [staysInLoop]
    | answered output action acceptable =>
      cases action with
      | TOOL_CALL => simp [staysInLoop]
      | INVALID => simp [staysInLoop, hrest _ rfl]
      | MODEL_CONTINUE => simp [staysInLoop, hrest _ rfl]
      | COMPLETE | MODEL_ERROR =>
        cases acceptable with
        | true => simp [staysInLoop, hlast rfl]
        | false => simp [staysInLoop, hrest _ rfl]

/-- What a loop leaves that ended with a turn of its own. -/
def EndsProperly (result : InferenceSession α × Option (List α)) : Prop :=
  result.1.status = .FAILED ∧ result.2 = none ∨ result.1.status = .WAITING_FOR_TOOL ∧ result.2 = none ∨
    result.1.status = .COMPLETED ∧ result.2.isSome

/-- What a loop leaves whose turns are used up: the response is written, with a status of a session at
work. -/
def UsedUp (status : SessionStatus) (result : InferenceSession α × Option (List α)) : Prop :=
  (result.1.status = status ∨ result.1.status = .CONTINUING) ∧ result.2.isSome

theorem runTurns_of_goesOn (h : goesOn (turn i)) (left : ℕ) (s : InferenceSession α) :
    ∃ s' : InferenceSession α, (s'.status = s.status ∨ s'.status = .CONTINUING) ∧
      runTurns turn (left + 1) i s = runTurns turn left (i + 1) s' := by
  rw [runTurns]
  cases ht : turn i with
  | failed =>
    rw [ht] at h
    exact absurd h Bool.false_ne_true
  | answered output action acceptable =>
    rw [ht] at h
    cases action with
    | TOOL_CALL => exact absurd h Bool.false_ne_true
    | INVALID => exact ⟨s.extend ([output], s.status), Or.inl rfl, rfl⟩
    | MODEL_CONTINUE => exact ⟨s.extend ([output], .CONTINUING), Or.inr rfl, rfl⟩
    | COMPLETE | MODEL_ERROR =>
      cases acceptable with
      | true => exact absurd h Bool.false_ne_true
      | false => exact ⟨s.extend ([output], s.status), Or.inl rfl, rfl⟩

theorem runTurns_of_ends (h : goesOn (turn i) = false) (left : ℕ) (s : InferenceSession α) :
    EndsProperly (runTurns turn (left + 1) i s) := by
  rw [runTurns]
  cases ht : turn i with
  | failed => exact Or.inl ⟨rfl, rfl⟩
  | answered output action acceptable =>
    rw [ht] at h
    cases action with
    | TOOL_CALL => exact Or.inr (Or.inl ⟨rfl, rfl⟩)
    | INVALID | MODEL_CONTINUE => exact absurd h.symm Bool.false_ne_true
    | COMPLETE | MODEL_ERROR =>
      cases acceptable with
      | true => exact Or.inr (Or.inr ⟨rfl, rfl⟩)
      | false => exact absurd h.symm Bool.false_ne_true

/-- The two ways in which the loop comes to its end. -/
theorem runTurns_cases (turn : ℕ → Turn α) : ∀ (left i : ℕ) (s : InferenceSession α),
    (∃ j < left, goesOn (turn (i + j)) = false) ∧ EndsProperly (runTurns turn left i s) ∨
      (∀ j < left, goesOn (turn (i + j))) ∧ UsedUp s.status (runTurns turn left i s)
  | 0, _, _ => Or.inr ⟨fun _ hj => absurd hj (Nat.not_lt_zero _), Or.inl rfl, rfl⟩
  | left + 1, i, s => by
    cases hgo : goesOn (turn i) with
    | false => exact Or.inl ⟨⟨0, Nat.succ_pos _, hgo⟩, runTurns_of_ends hgo left s⟩
    | true =>
      obtain ⟨s', hstatus, heq⟩ := runTurns_of_goesOn hgo left s
      have hshift (j : ℕ) : i + 1 + j = i + (j + 1) := by omega
      rw [heq]
      rcases runTurns_cases turn left (i + 1) s' with ⟨⟨j, hj, hend⟩, hproper⟩ | ⟨hall, hused⟩
      · exact Or.inl ⟨⟨j + 1, Nat.succ_lt_succ hj, hshift j ▸ hend⟩, hproper⟩
      · refine Or.inr ⟨fun j hj => ?_, ?_, hused.2⟩
        · cases j with
          | zero => exact hgo
          | succ j => exact hshift j ▸ hall j (Nat.lt_of_succ_lt_succ hj)
        · rcases hused.1 with h | h
          · rw [h]; exact hstatus
          · exact Or.inr h

end Turns

section Run

variable (inp : Inputs)

/-- The turn that an output makes. -/
def turnOf (output : Bytes) : Turn Bytes :=
  .answered output (inp.analyze output)
    (isAcceptable (taskType inp) output (evidenceOf (taskType inp) output (inp.analyze output)))

/-- The turns of a run of `execute_pipeline`. -/
def modelTurns : List (Turn Bytes) := (turns inp maxInternalTurns (start inp)).1

/-- Turn `i` of the run. -/
def turnAt (i : ℕ) : Turn Bytes := ((modelTurns inp)[i]?).getD .failed

theorem turns_ended : ∀ (left : ℕ) (st : LoopState), Ended left (turns inp left st).1
  | 0, _ => rfl
  | left + 1, st => by
    have hgo {t : Turn Bytes} {ts : List (Turn Bytes)} (ht : goesOn t) (hts : Ended left ts) :
        Ended (left + 1) (t :: ts) := by rwa [Ended, if_pos ht]
    have hend {t : Turn Bytes} (ht : goesOn t = false) : Ended (left + 1) [t] := by rw [Ended, ht]; rfl
    unfold turns
    split
    · exact hend rfl
    · dsimp only
      split
      · next hact => exact hend (by rw [hact]; rfl)
      · next hact => exact hgo (by rw [hact]; rfl) (turns_ended left _)
      · next hact => exact hgo (by rw [hact]; rfl) (turns_ended left _)
      all_goals
        next hact =>
          split_ifs with hacc
          · exact hend (by rw [hacc, hact]; rfl)
          · exact hgo (by rw [Bool.eq_false_of_not_eq_true hacc, hact]; rfl) (turns_ended left _)

theorem turns_turnOf : ∀ (left : ℕ) (st : LoopState), ∀ t ∈ (turns inp left st).1,
    t = .failed ∨ ∃ output, t = turnOf inp output
  | 0, _, _, ht => absurd ht List.not_mem_nil
  | left + 1, st, t, ht => by
    unfold turns at ht
    split at ht
    · exact Or.inl (List.mem_singleton.mp ht)
    · next st' output _ =>
      have hcons {ts : List (Turn Bytes)} (hts : ∀ t ∈ ts, t = .failed ∨ ∃ output, t = turnOf inp output)
          (ht : t ∈ turnOf inp output :: ts) : t = .failed ∨ ∃ output, t = turnOf inp output := by
        rcases List.mem_cons.mp ht with rfl | ht
        · exact Or.inr ⟨output, rfl⟩
        · exact hts t ht
      dsimp only at ht
      split at ht
      · exact hcons (fun _ h => absurd h List.not_mem_nil) ht
      · exact hcons (turns_turnOf left _) ht
      · exact hcons (turns_turnOf left _) ht
      all_goals
        split_ifs at ht
        · exact hcons (fun _ h => absurd h List.not_mem_nil) ht
        · exact hcons (turns_turnOf left _) ht

variable {inp}

theorem follows_modelTurns : Follows (turnAt inp) 0 (modelTurns inp) := by
  intro k
  rw [Nat.zero_add]
  rfl

theorem answers_of_not_multimodal (h : servedMultimodal inp = false) :
    answers inp = .turns (turnAt inp) := by
  rw [answers, h]
  rfl

/-- An output that a run has is classified by `analyze` and judged by `is_acceptable`. -/
theorem answered_cases {i : ℕ} {output : Bytes} {action : ResponseAction} {acceptable : Bool}
    (h : turnAt inp i = .answered output action acceptable) :
    action = inp.analyze output ∧ acceptable =
      isAcceptable (taskType inp) output (evidenceOf (taskType inp) output (inp.analyze output)) := by
  unfold turnAt at h
  cases ht : (modelTurns inp)[i]? with
  | none =>
    rw [ht] at h
    exact absurd h (by simp)
  | some t =>
    rw [ht] at h
    rcases turns_turnOf inp _ _ t (List.mem_of_getElem? ht) with rfl | ⟨o, rfl⟩
    · exact absurd h (by simp)
    · obtain ⟨rfl, rfl, rfl⟩ := Turn.answered.inj h
      exact ⟨rfl, rfl⟩

/-- A run appends the outputs of its turns. -/
theorem effect_outputs (h : servedMultimodal inp = false) :
    (answers inp).effect.1 = (modelTurns inp).filterMap outputOf := by
  rw [answers_of_not_multimodal h]
  exact loopEffect_outputs _ _ _ _ (turns_ended inp _ _) follows_modelTurns

/-- A run writes a consolidated answer when no turn makes it return. -/
theorem executePipeline_isSome (h : servedMultimodal inp = false) (s : InferenceSession Bytes) :
    (executePipeline (answers inp) s).2.isSome ↔ ∀ t ∈ modelTurns inp, staysInLoop t := by
  rw [answers_of_not_multimodal h]
  exact runTurns_isSome _ _ _ _ (turns_ended inp _ _) follows_modelTurns

/-- A run that ends with `COMPLETED` writes a consolidated answer, or that of another engine. -/
theorem isSome_of_completed (h : servedMultimodal inp = false) {s : InferenceSession Bytes}
    (hstatus : (executePipeline (answers inp) s).1.status = .COMPLETED) :
    (executePipeline (answers inp) s).2.isSome := by
  rw [answers_of_not_multimodal h] at hstatus ⊢
  rcases runTurns_cases (turnAt inp) maxInternalTurns 0 { s with status := .INFERRING } with
    ⟨-, hproper⟩ | ⟨-, hused⟩
  · rcases hproper with ⟨hfailed, -⟩ | ⟨hwaits, -⟩ | ⟨-, hsome⟩
    · exact absurd (hfailed.symm.trans hstatus) (by simp)
    · exact absurd (hwaits.symm.trans hstatus) (by simp)
    · exact hsome
  · exact hused.2

end Run

/-! ### Errors as answers -/

/-- No output that is classified as an error completes the session, and none that is classified as an
error or as invalid is consolidated into the answer. -/
structure NoBadAnswer (inp : Inputs) (s : InferenceSession Bytes) : Prop where
  completed : ∀ output, (executePipeline (answers inp) s).1.status = .COMPLETED →
    (answers inp).effect.1.getLast? = some output → inp.analyze output ≠ .MODEL_ERROR
  final : ∀ outs, (executePipeline (answers inp) s).2 = some outs →
    ∀ output ∈ outs, isBad (inp.analyze output) = false

/-- Another engine serves the request, or a turn fails or asks for a tool, so that there is no
consolidated answer; or all outputs, those that the session has kept and those of the run, are good. -/
def Clean (inp : Inputs) (s : InferenceSession Bytes) : Prop :=
  servedMultimodal inp ∨ (∃ t ∈ modelTurns inp, staysInLoop t = false) ∨
    (∀ output ∈ s.iterationResults, isBad (inp.analyze output) = false) ∧
      ∀ t ∈ modelTurns inp, ∀ output, outputOf t = some output → isBad (inp.analyze output) = false

/-- **Errors become answers.** A run keeps the outputs that are classified as errors or as invalid out of
its answer if and only if it has no answer to write, or there is no such output. -/
theorem no_bad_answer_iff (inp : Inputs) (s : InferenceSession Bytes) : NoBadAnswer inp s ↔ Clean inp s := by
  cases hmm : servedMultimodal inp with
  | true =>
    have hans : answers inp = .multimodal := by rw [answers, hmm]; rfl
    refine iff_of_true ⟨fun output _ hlast => ?_, fun outs houts => ?_⟩ (Or.inl hmm)
    · rw [hans] at hlast
      exact absurd hlast (by simp [Answers.effect])
    · rw [hans] at houts
      exact absurd houts (by simp [executePipeline])
  | false =>
    have hspec := (executePipeline_spec (answers inp) s).2
    have heffect := effect_outputs hmm
    have hwritten := executePipeline_isSome hmm s
    have hmem {output : Bytes} : output ∈ (answers inp).effect.1 ↔
        ∃ t ∈ modelTurns inp, outputOf t = some output := by rw [heffect, List.mem_filterMap]
    constructor
    · intro h
      by_cases hall : ∀ t ∈ modelTurns inp, staysInLoop t
      · obtain ⟨outs, houts⟩ := Option.isSome_iff_exists.mp (hwritten.mpr hall)
        have hgood := h.final outs houts
        rw [hspec outs houts, List.forall_mem_append] at hgood
        exact Or.inr (Or.inr ⟨hgood.1, fun t ht output ho => hgood.2 output (hmem.mpr ⟨t, ht, ho⟩)⟩)
      · obtain ⟨t, ht, hreturns⟩ : ∃ t ∈ modelTurns inp, ¬ staysInLoop t := by simpa using hall
        exact Or.inr (Or.inl ⟨t, ht, Bool.eq_false_of_not_eq_true hreturns⟩)
    · rintro (h | ⟨t, ht, hreturns⟩ | ⟨hkept, hown⟩)
      · exact absurd (hmm.symm.trans h) Bool.false_ne_true
      · -- nothing is consolidated, and the session is not completed
        have hnot : ¬ (executePipeline (answers inp) s).2.isSome := by
          rw [hwritten]
          exact fun hall => absurd (hreturns.symm.trans (hall t ht)) Bool.false_ne_true
        refine ⟨fun output hstatus _ => absurd (isSome_of_completed hmm hstatus) hnot, fun outs houts => ?_⟩
        exact absurd (Option.isSome_iff_exists.mpr ⟨outs, houts⟩) hnot
      · have hgood : ∀ output ∈ (answers inp).effect.1, isBad (inp.analyze output) = false := by
          intro output ho
          obtain ⟨t, ht, hto⟩ := hmem.mp ho
          exact hown t ht output hto
        refine ⟨fun output _ hlast herror => ?_, fun outs houts => ?_⟩
        · have hbad := hgood output (List.mem_of_getLast? hlast)
          rw [herror] at hbad
          exact absurd hbad.symm Bool.false_ne_true
        · rw [hspec outs houts, List.forall_mem_append]
          exact ⟨hkept, hgood⟩

/-- A run with the local model `g`, which answers every call with the same output. -/
def alwaysAnswers (parse : Bytes → Option Json) (intent output : Bytes) : Inputs :=
  { plainRequest (ascii "denselite") fun _ => plainEnv [] [] 200 output with
    decide := fun _ _ => { intent := intent }
    analyze := fun raw => analyze parse raw }

/-- The body of an error that comes with status 200. -/
def errorBody : Bytes := ascii "\x7b\"error\":\"overloaded\"\x7d"

/-- Its JSON value. -/
def parseError (raw : Bytes) : Option Json :=
  if raw = errorBody then some (.object [(ascii "error", .string (ascii "overloaded"))]) else none

/-- The error completes the session, and is the answer. -/
theorem error_becomes_answer :
    (alwaysAnswers parseError (ascii "text") errorBody).analyze errorBody = .MODEL_ERROR ∧
      (executePipeline (answers (alwaysAnswers parseError (ascii "text") errorBody))
        (newSession (ascii "s") 0)).1.status = .COMPLETED ∧
      (executePipeline (answers (alwaysAnswers parseError (ascii "text") errorBody))
        (newSession (ascii "s") 0)).2 = some [errorBody] ∧
      ¬ NoBadAnswer (alwaysAnswers parseError (ascii "text") errorBody) (newSession (ascii "s") 0) := by
  have hbad : (alwaysAnswers parseError (ascii "text") errorBody).analyze errorBody = .MODEL_ERROR := by
    decide +kernel
  have houts : (executePipeline (answers (alwaysAnswers parseError (ascii "text") errorBody))
      (newSession (ascii "s") 0)).2 = some [errorBody] := by decide +kernel
  refine ⟨hbad, by decide +kernel, houts, fun h => ?_⟩
  have hgood := h.final _ houts errorBody (List.mem_singleton_self _)
  rw [hbad] at hgood
  exact absurd hgood (by decide)

/-! ### Bare claims as answers -/

/-- The JSON value of which `infer_local` makes its output. -/
def localResponse (text : Bytes) : Json :=
  .object [(ascii "choices", .array [.object [(ascii "message", .object [(ascii "content", .string text)])]])]

/-- The JSON library, as far as it is relied on: neither the empty text nor a bare claim is JSON, and
the output of `infer_local` reads back as what was written. -/
structure JsonLibrary where
  parse : Bytes → Option Json
  dump : Json → Bytes
  parse_nil : parse [] = none
  parse_bareClaim : ∀ text, isBareClaim text → parse text = none
  parse_dump : ∀ text, isBareClaim text → parse (dump (localResponse text)) = some (localResponse text)

theorem analyzeJson_localResponse (text : Bytes) : analyzeJson (localResponse text) = .COMPLETE := by
  have hkeys : ascii "choices" ≠ ascii "error" ∧ ascii "choices" ≠ ascii "candidates" ∧
      ascii "message" ≠ ascii "finish_reason" ∧ ascii "content" ≠ ascii "tool_calls" := by
    repeat rw [ascii_ofList]
    decide
  simp [analyzeJson, localResponse, Json.get?, Json.firstOf, Json.stringOf, choiceAction, hkeys]

/-- No stop reason is none that `analyze` knows. -/
theorem noStopReason : ¬ (([] : Bytes) = ascii "length" ∨ ([] : Bytes) = ascii "max_tokens") ∧
    ([] : Bytes) ≠ ascii "error" := by
  repeat rw [ascii_ofList]
  decide

/-- A bare claim is classified as complete, as plain text and in the output of `infer_local`. -/
theorem JsonLibrary.analyze_bare (lib : JsonLibrary) {output : Bytes}
    (h : isBareClaim output ∨ ∃ text, isBareClaim text ∧ output = lib.dump (localResponse text)) :
    output ≠ [] ∧ analyze lib.parse output = .COMPLETE := by
  rcases h with h | ⟨text, htext, rfl⟩
  · have hne : output ≠ [] := by
      rintro rfl
      unfold isBareClaim at h
      repeat rw [ascii_ofList] at h
      exact absurd h (by decide)
    refine ⟨hne, ?_⟩
    unfold analyze
    rw [if_neg hne, if_neg noStopReason.1, if_neg noStopReason.2, lib.parse_bareClaim output h]
    dsimp only
    rw [if_neg (by rw [attemptedJson_of_bare h]; exact Bool.false_ne_true)]
    exact analyzeText_of_bare h
  · have hne : lib.dump (localResponse text) ≠ [] := by
      intro hnil
      have hparse := lib.parse_dump text htext
      rw [hnil, lib.parse_nil] at hparse
      exact absurd hparse (by simp)
    refine ⟨hne, ?_⟩
    unfold analyze
    rw [if_neg hne, if_neg noStopReason.1, if_neg noStopReason.2, lib.parse_dump text htext]
    exact analyzeJson_localResponse text

/-- When every turn with the last output is an accepted one, the loop ends with `COMPLETED`. -/
theorem loopEffect_completed {turn : ℕ → Turn Bytes} {output : Bytes}
    (hturn : ∀ i action acceptable, turn i = .answered output action acceptable →
      action = .COMPLETE ∧ acceptable = true) :
    ∀ (left i : ℕ) (status : SessionStatus), (loopEffect turn left i status).1.getLast? = some output →
      (loopEffect turn left i status).2 = .COMPLETED
  | 0, _, _, h => absurd h (by simp [loopEffect])
  | left + 1, i, status, h => by
    have hrest (x : Bytes) (hx : x ≠ output) (status : SessionStatus)
        (h : (x :: (loopEffect turn left (i + 1) status).1).getLast? = some output) :
        (loopEffect turn left (i + 1) status).2 = .COMPLETED := by
      refine loopEffect_completed hturn left (i + 1) status ?_
      cases hout : (loopEffect turn left (i + 1) status).1 with
      | nil =>
        rw [hout] at h
        exact absurd (Option.some.inj h) hx
      | cons y ys => rwa [hout, List.getLast?_cons_cons] at h
    unfold loopEffect at h ⊢
    cases ht : turn i with
    | failed =>
      rw [ht] at h
      exact absurd h (by simp)
    | answered x action acceptable =>
      have hx (hne : ¬ (action = .COMPLETE ∧ acceptable = true)) : x ≠ output := by
        rintro rfl
        exact hne (hturn i action acceptable ht)
      rw [ht] at h
      cases action with
      | TOOL_CALL => exact absurd (Option.some.inj h) (hx (by simp))
      | INVALID | MODEL_CONTINUE => exact hrest x (hx (by simp)) _ h
      | MODEL_ERROR =>
        cases acceptable with
        | true => rfl
        | false => exact hrest x (hx (by simp)) _ h
      | COMPLETE =>
        cases acceptable with
        | true => rfl
        | false => exact hrest x (hx (by simp)) _ h

/-- The last output of a run for a coding task is a bare claim, in the output of `infer_local` or as
plain text; no output of the session has a code fence, and the request has no tool result. -/
structure BareCoding (lib : JsonLibrary) (inp : Inputs) (s : InferenceSession Bytes) (output : Bytes) :
    Prop where
  analyzer : inp.analyze = fun raw => analyze lib.parse raw
  coding : taskType inp = ascii "coding"
  last : (answers inp).effect.1.getLast? = some output
  bare : isBareClaim output ∨ ∃ text, isBareClaim text ∧ output = lib.dump (localResponse text)
  noFence : ∀ r ∈ s.iterationResults ++ (answers inp).effect.1, occursIn (ascii "```") r = false
  noToolResult : ∀ m ∈ inp.request.messages, m.role ≠ ascii "tool"

/-- **A bare claim completes coding work**, whenever it is the last output. -/
theorem bare_claim_completes {lib : JsonLibrary} {inp : Inputs} {s : InferenceSession Bytes} {output : Bytes}
    (h : BareCoding lib inp s output) : (executePipeline (answers inp) s).1.status = .COMPLETED := by
  rw [(executePipeline_spec (answers inp) s).1]
  show (answers inp).effect.2 = .COMPLETED
  have hlast := h.last
  cases hmm : servedMultimodal inp with
  | true =>
    rw [answers, hmm] at hlast
    exact absurd hlast (by simp [Answers.effect])
  | false =>
    rw [answers_of_not_multimodal hmm] at hlast ⊢
    refine loopEffect_completed (fun i action acceptable ht => ?_) _ _ _ hlast
    obtain ⟨hne, hcomplete⟩ := lib.analyze_bare h.bare
    obtain ⟨rfl, rfl⟩ := answered_cases ht
    rw [h.analyzer]
    refine ⟨hcomplete, ?_⟩
    dsimp only
    rw [hcomplete, isAcceptable_evidenceOf]
    exact decide_eq_true ⟨hne, Or.inl rfl⟩

/-- The text before and after the content in the output of `infer_local`. -/
def responseHead : Bytes := ascii "\x7b\"choices\":[\x7b\"message\":\x7b\"content\":\""

def responseTail : Bytes := ascii "\"\x7d\x7d]\x7d"

/-- The JSON library on the outputs of `infer_local` whose content needs no escapes. -/
def plainParse (raw : Bytes) : Option Json :=
  if responseHead.isPrefixOf raw ∧ responseTail.isSuffixOf raw then
    some (localResponse ((raw.drop responseHead.length).take
      (raw.length - responseHead.length - responseTail.length)))
  else none

def plainDump (j : Json) : Bytes :=
  responseHead ++ (((j.firstOf (ascii "choices")).bind choiceText).getD []) ++ responseTail

theorem plainDump_localResponse (text : Bytes) :
    plainDump (localResponse text) = responseHead ++ text ++ responseTail := by
  simp [plainDump, localResponse, Json.get?, Json.firstOf, Json.stringOf, choiceText]

theorem plainParse_nil : plainParse [] = none := by
  refine if_neg fun hraw => absurd hraw.1 ?_
  rw [responseHead, ascii_ofList]
  decide

theorem plainParse_bareClaim (text : Bytes) (h : isBareClaim text) : plainParse text = none := by
  refine if_neg fun hraw => ?_
  have hbrace : (0x7b : UInt8) ∈ text :=
    (List.isPrefixOf_iff_prefix.mp hraw.1).subset (by rw [responseHead, ascii_ofList]; decide)
  exact absurd (lowerByte_mem_of_bare h hbrace) (by rw [claimBytes_eq]; decide)

theorem plainParse_plainDump (text : Bytes) :
    plainParse (plainDump (localResponse text)) = some (localResponse text) := by
  have hhead : responseHead.isPrefixOf (responseHead ++ text ++ responseTail) := by simp
  have htail : responseTail.isSuffixOf (responseHead ++ text ++ responseTail) :=
    List.isSuffixOf_iff_suffix.mpr (List.suffix_append _ _)
  rw [plainDump_localResponse, plainParse, if_pos ⟨hhead, htail⟩]
  simp

def plainJson : JsonLibrary where
  parse := plainParse
  dump := plainDump
  parse_nil := plainParse_nil
  parse_bareClaim := plainParse_bareClaim
  parse_dump text _ := plainParse_plainDump text

/-- The output of `infer_local` for the text `Done`. -/
def doneResponse : Bytes := plainDump (localResponse (ascii "Done"))

/-- The session of a coding task is completed with it. -/
theorem bare_claim_completes_local :
    (executePipeline (answers (alwaysAnswers plainParse (ascii "coding") doneResponse))
      (newSession (ascii "s") 0)).1.status = .COMPLETED := by
  have h : BareCoding plainJson (alwaysAnswers plainParse (ascii "coding") doneResponse)
      (newSession (ascii "s") 0) doneResponse := by
    refine ⟨rfl, ?_, ?_, Or.inr ⟨ascii "Done", ?_, rfl⟩, ?_, ?_⟩
    all_goals decide +kernel
  exact bare_claim_completes h

/-- So is it with the plain text `Done`. -/
theorem bare_claim_not_rejected :
    BareCoding plainJson (alwaysAnswers plainParse (ascii "coding") (ascii "Done")) (newSession (ascii "s") 0)
        (ascii "Done") ∧
      (executePipeline (answers (alwaysAnswers plainParse (ascii "coding") (ascii "Done")))
        (newSession (ascii "s") 0)).1.status = .COMPLETED := by
  refine ⟨⟨rfl, ?_, ?_, Or.inl ?_, ?_, ?_⟩, ?_⟩
  all_goals decide +kernel

end DenseLite.Engine.Answers
