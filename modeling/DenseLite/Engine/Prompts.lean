import DenseLite.Engine.Pipeline

/-! # What reaches the model

Through all turns and retries the prompt is the compilation of the latest selection, in the format of
the configuration that was computed before the loop, with the continuation text behind it
(`attempts_recorded`). A cloud model does not get it: the payload has the messages of the request.
`context_reaches_model_iff` and `template_agrees_iff` say for which calls this makes no difference. -/

namespace DenseLite.Engine.Prompts

open DenseLite.Lib.ByteStream DenseLite.Gguf.Config DenseLite.Engine.Context DenseLite.Engine.Sessions
open DenseLite.Engine.Pipeline
open DenseLite.Infer.State (ascii occursIn)

/-! ### The invariant of the loop -/

section Invariant

variable (inp : Inputs)

/-- What `optimize` selects of the request, with the tokenizer of some model. -/
def Selection (messages : List OpenAIMessage) : Prop :=
  ∃ (env : Env) (target : Bytes) (evidence : List SearchResult) (limit : ℕ),
    messages = optimize (prepared inp).messages evidence (env.tokenizer target) limit

/-- What a call handed over, as far as it does not depend on the recovery before it. -/
structure Recorded (a : Attempt) : Prop where
  selected : Selection inp a.selected
  prompt : ∀ text, a.sent = .prompt text → text = compile a.selected (cfg inp) ++ a.continuation
  payload : ∀ messages, a.sent = .payload messages →
    messages.map (·.content) = (prepared inp).messages.map (·.content)

/-- The prompt is the compiled selection with the continuation, and all calls are recorded. -/
structure Compiled (st : LoopState) : Prop where
  selected : Selection inp st.selected
  prompt : st.prompt = compile st.selected (cfg inp) ++ st.continuation
  attempts : ∀ a ∈ st.attempts, Recorded inp a

variable {inp}

theorem payloadMessages_content (url : Bytes) (req : OpenAIRequest) :
    (payloadMessages url req).map (·.content) = req.messages.map (·.content) := by
  unfold payloadMessages
  split_ifs
  · rw [List.map_map]; rfl
  · rw [List.map_map]; rfl

/-- What `infer` sends: the prompt it is given, or the messages of the request. -/
theorem infer_sent (env : Env) (model : Bytes) (req : OpenAIRequest) (prompt : Bytes) :
    (∀ text, (infer env model req prompt).1 = .prompt text → text = prompt) ∧
      ∀ messages, (infer env model req prompt).1 = .payload messages →
        messages.map (·.content) = req.messages.map (·.content) := by
  unfold infer
  dsimp only
  split_ifs
  · exact ⟨fun text h => (Sent.prompt.inj h).symm, fun messages h => absurd h (by simp)⟩
  · exact ⟨fun text h => absurd h (by simp), fun messages h => absurd h (by simp)⟩
  · refine ⟨fun text h => absurd h (by simp), fun messages h => ?_⟩
    rw [← Sent.payload.inj h]
    exact payloadMessages_content _ req

variable {st : LoopState}

theorem Compiled.withTarget (h : Compiled inp st) (target : Bytes) :
    Compiled inp { st with target := target } := ⟨h.selected, h.prompt, h.attempts⟩

/-- A new selection needs nothing of the prompt before it. -/
theorem compiled_optimizeAndCompile (h : ∀ a ∈ st.attempts, Recorded inp a) (env : Env)
    (evidence : List SearchResult) (limit : ℕ) :
    Compiled inp (optimizeAndCompile inp env evidence limit st) where
  selected := ⟨env, st.target, evidence, limit, rfl⟩
  prompt := by
    dsimp only [optimizeAndCompile]
    rw [List.append_nil]
  attempts := h

/-- `MODEL_CONTINUE` appends the partial output. -/
theorem Compiled.continue (h : Compiled inp st) (more : Bytes) :
    Compiled inp { st with prompt := st.prompt ++ more, continuation := st.continuation ++ more } := by
  refine ⟨h.selected, ?_, h.attempts⟩
  show st.prompt ++ more = compile st.selected (cfg inp) ++ (st.continuation ++ more)
  rw [h.prompt, List.append_assoc]

theorem Compiled.called (h : Compiled inp st) : Compiled inp (called inp st) where
  selected := h.selected
  prompt := by
    dsimp only [Pipeline.called]
    exact h.prompt
  attempts := by
    intro a ha
    dsimp only [Pipeline.called] at ha
    rcases List.mem_append.mp ha with ha | ha
    · exact h.attempts a ha
    · obtain ⟨hprompt, hpayload⟩ := infer_sent (envOf inp st) st.target (prepared inp) st.prompt
      rw [List.mem_singleton.mp ha]
      exact ⟨h.selected, fun text ht => (hprompt text ht).trans h.prompt, hpayload⟩

theorem Compiled.recover (h : Compiled inp st) (env : Env) (action : RecoveryAction) :
    Compiled inp (recover inp env action st) := by
  cases action with
  | REDUCE_CONTEXT => exact compiled_optimizeAndCompile h.attempts env [] 4096
  | SWITCH_MODEL | SWITCH_PROVIDER | SWITCH_KEY | FALLBACK_LOCAL => exact h.withTarget _
  | RETRY_SAME | FAIL_SESSION => exact h

theorem Compiled.retries : ∀ (left : ℕ) (last : ℤ × Bytes) (st : LoopState), Compiled inp st →
    Compiled inp (retries inp left last st).1
  | 0, _, _, h => h
  | left + 1, _, st, h => by
    unfold Pipeline.retries
    dsimp only
    split_ifs with hok
    · exact h.called
    · split
      · exact h.called
      · exact Compiled.retries left _ _ (h.called.recover _ _)

theorem Compiled.turns : ∀ (left : ℕ) (st : LoopState), Compiled inp st →
    Compiled inp (turns inp left st).2
  | 0, _, h => h
  | left + 1, st, h => by
    unfold Pipeline.turns
    have hret := Compiled.retries 3 (0, []) st h
    split
    · next st' last heq => rw [heq] at hret; exact hret
    · next st' output heq =>
      rw [heq] at hret
      -- a turn that goes on has changed the target or the prompt only
      dsimp only
      split
      · exact hret
      · exact Compiled.turns left _ (hret.withTarget _)
      · exact Compiled.turns left _ (hret.continue _)
      all_goals
        split_ifs
        · exact hret
        · exact Compiled.turns left st' hret

/-- **Every call of a run.** A local model gets the compiled selection, with the continuation; a cloud
model gets the messages of the request. -/
theorem attempts_recorded (a : Attempt) (ha : a ∈ attempts inp) : Recorded inp a := by
  unfold attempts at ha
  split_ifs at ha
  · exact absurd ha List.not_mem_nil
  · have hstart : Compiled inp (start inp) :=
      compiled_optimizeAndCompile (fun a ha => absurd ha List.not_mem_nil) _ _ _
    exact (Compiled.turns maxInternalTurns (start inp) hstart).attempts a ha

end Invariant

/-! ### The optimised context -/

/-- The call hands over the contents of the latest selection and the continuation text: a prompt that
is compiled from it, or a payload with the same contents in which the continuation occurs. -/
def Reaches (inp : Inputs) (a : Attempt) : Prop :=
  match a.sent with
  | .prompt text => text = compile a.selected (cfg inp) ++ a.continuation
  | .noKey => True
  | .payload messages => messages.map (·.content) = a.selected.map (·.content) ∧
      (a.continuation = [] ∨ ∃ text ∈ messages.map (·.content), occursIn a.continuation text)

/-- A call of a cloud model comes when the selection has the contents of the request, and there is no
continuation text that is not in them. -/
def Unchanged (inp : Inputs) (a : Attempt) : Prop :=
  (∃ messages, a.sent = .payload messages) →
    (prepared inp).messages.map (·.content) = a.selected.map (·.content) ∧
      (a.continuation = [] ∨
        ∃ text ∈ (prepared inp).messages.map (·.content), occursIn a.continuation text)

theorem reaches_iff {inp : Inputs} {a : Attempt} (h : Recorded inp a) : Reaches inp a ↔ Unchanged inp a := by
  unfold Reaches Unchanged
  cases hs : a.sent with
  | prompt text => exact iff_of_true (h.prompt text hs) fun ⟨_, h⟩ => Sent.noConfusion h
  | noKey => exact iff_of_true trivial fun ⟨_, h⟩ => Sent.noConfusion h
  | payload messages =>
    dsimp only
    rw [h.payload messages hs]
    exact ⟨fun h _ => h, fun h => h ⟨messages, rfl⟩⟩

/-- **Context optimisation and the model that runs.** In every run, every call hands over the latest
selection with its continuation exactly when every call of a cloud model finds the selection to be
what the request has. -/
theorem context_reaches_model_iff (inp : Inputs) :
    (∀ a ∈ attempts inp, Reaches inp a) ↔ ∀ a ∈ attempts inp, Unchanged inp a :=
  forall₂_congr fun a ha => reaches_iff (attempts_recorded a ha)

/-! ### The chat template -/

/-- A prompt for a local model is compiled with the configuration of that model. -/
def Agrees (a : Attempt) : Prop :=
  ∀ text config, a.sent = .prompt text → a.config = some config →
    ∃ messages, text = compile messages config ++ a.continuation

/-- A local model that is called has the format of the configuration that the loop compiles with. -/
def SameFormat (inp : Inputs) (a : Attempt) : Prop :=
  ∀ text config, a.sent = .prompt text → a.config = some config → isLlama config = isLlama (cfg inp)

theorem agrees_iff {inp : Inputs} {a : Attempt} (h : Recorded inp a) : Agrees a ↔ SameFormat inp a := by
  refine forall₂_congr fun text config => forall₂_congr fun hs hc => ?_
  have htext := h.prompt text hs
  constructor
  · rintro ⟨messages, heq⟩
    exact isLlama_eq_of_compile (heq.symm.trans htext)
  · intro hformat
    refine ⟨a.selected, ?_⟩
    rw [htext, compile, compile, hformat]

/-- **Templates across fallbacks.** In every run, every local model that is called gets a prompt in its
own format exactly when its format is that of the model chosen first. -/
theorem template_agrees_iff (inp : Inputs) :
    (∀ a ∈ attempts inp, Agrees a) ↔ ∀ a ∈ attempts inp, SameFormat inp a :=
  forall₂_congr fun a ha => agrees_iff (attempts_recorded a ha)

/-! ### Runs in which they fail -/

/-- A request to the cloud model `gpt`, with one piece of evidence; the models answer with the given
status codes. The local model `g` has a Llama architecture. -/
def cloudRequest (evidence : List SearchResult) (codes : List ℤ) : Inputs where
  request := { model := ascii "gpt", messages := [{ role := ascii "user", content := ascii "hi" }] }
  settings :=
    { routingMode := ascii "auto", enableToolDedup := false, systemPrompt := []
      enableContextInjection := true, contextWindow := 8192 }
  decide _ _ := {}
  sessionTools := []
  routeToCloud := false
  shrinkContext := false
  search _ _ := evidence
  multimodalOk := false
  analyze _ := .COMPLETE
  env k :=
    { providerModels :=
        [{ provider := ascii "OPENAI", modelName := ascii "gpt", modelType := ascii "text", priority := 1 }]
      roleModel := fun _ => ascii "g"
      models := fun m => if m = ascii "g" then some { architecture := ascii "llama" } else none
      onDisk := fun _ => none
      tokenizer := fun _ => none
      keyValue := fun _ => ascii "key"
      statusCode := codes.getD k 200
      output := ascii "ok" }

/-- A piece of evidence. -/
def evidenceX : SearchResult := { filePath := [], symbolName := [], content := ascii "x" }

/-- The evidence is in the prompt and not in the payload that the cloud model gets. -/
theorem context_does_not_reach_cloud :
    ¬ ∀ a ∈ attempts (cloudRequest [evidenceX] []), Reaches (cloudRequest [evidenceX] []) a := by
  intro h
  have hcall : (attempts (cloudRequest [evidenceX] [])).any (fun a =>
      a.sent = .payload [{ role := ascii "user", content := ascii "hi" }] ∧
        a.selected.length = 2) = true := by decide +kernel
  obtain ⟨a, ha, hsent⟩ := List.any_eq_true.mp hcall
  obtain ⟨hsent, hselected⟩ := of_decide_eq_true hsent
  have hreach := h a ha
  rw [Reaches, hsent] at hreach
  have hlength := congrArg List.length hreach.1
  simp [hselected] at hlength

/-- The cloud model fails with status 500; the local Llama model gets a ChatML prompt. -/
theorem template_disagrees_after_fallback : ¬ ∀ a ∈ attempts (cloudRequest [] [500]), Agrees a := by
  intro h
  have hcall : (attempts (cloudRequest [] [500])).any (fun a =>
      a.sent = .prompt (formatChatml [{ role := ascii "user", content := ascii "hi" }]) ∧
        a.config = some { architecture := ascii "llama" }) = true := by decide +kernel
  obtain ⟨a, ha, hsent⟩ := List.any_eq_true.mp hcall
  obtain ⟨hsent, hconfig⟩ := of_decide_eq_true hsent
  have hformat := (agrees_iff (attempts_recorded a ha)).mp (h a ha) _ _ hsent hconfig
  exact absurd hformat (by decide +kernel)

end DenseLite.Engine.Prompts
