import DenseLite.Engine.Keys

/-! # The offload of heavy requests

Before the loop `execute_pipeline` takes a cloud model for a heavy payload or a request that needs tools. It asks
`get_provider_for_model` whether a candidate has a provider and tests the answer for the empty string; but for a model
without a row the answer is `local`. So the first candidate is taken whether or not there is a row for it, and
`offloadsToCloud_iff` says when that is a cloud model. -/

namespace DenseLite.Engine.Offload

open DenseLite.Lib.ByteStream DenseLite.Engine.Pipeline DenseLite.Engine.Keys
open DenseLite.Infer.State (ascii ascii_ofList)

/-- The candidate that is asked for first. -/
def firstCandidate : Bytes := ascii "openai/gpt-oss-20b"

/-- The candidate that is asked for next. -/
def secondCandidate : Bytes := ascii "gemini-2.5-flash"

section Rows

variable (rows : List ProviderModel) (model : Bytes)

/-- A row of a cloud provider for the model. -/
def HasCloudRow : Prop := ∃ r ∈ rows, r.modelName = model ∧ isCloud r.provider = true

/-- The first row for the model has no provider. -/
def Unnamed : Prop := ∃ r, rows.find? (·.modelName = model) = some r ∧ r.provider = []

variable {rows model}

/-- The lookup is empty only for a row without a provider. -/
theorem getProviderForModel_eq_nil_iff (hmodel : cstr model = model) :
    getProviderForModel rows model = [] ↔ Unnamed rows model := by
  unfold getProviderForModel Unnamed
  rw [hmodel]
  cases rows.find? (·.modelName = model) with
  | none => exact iff_of_false (by decide) (by simp)
  | some r => simp

theorem cstr_firstCandidate : cstr firstCandidate = firstCandidate :=
  cstr_of_not_mem (by rw [firstCandidate, ascii_ofList]; decide)

theorem cstr_secondCandidate : cstr secondCandidate = secondCandidate :=
  cstr_of_not_mem (by rw [secondCandidate, ascii_ofList]; decide)

theorem firstCandidate_ne_nil : firstCandidate ≠ [] := by
  rw [firstCandidate, ascii_ofList]
  decide

theorem secondCandidate_ne_nil : secondCandidate ≠ [] := by
  rw [secondCandidate, ascii_ofList]
  decide

end Rows

section Offload

variable (inp : Inputs)

/-- The request is heavy or needs tools, and leaves the choice of the model to the engine. -/
def Offloads : Prop := (4000 < totalPayloadChars inp ∨ requiresTools inp = true) ∧ isAuto inp = true

instance : Decidable (Offloads inp) := inferInstanceAs (Decidable (_ ∧ _))

/-- `target_model` after the offload. -/
def offloadedTarget : Bytes := if Offloads inp then orElse (offloadModel inp) (roleTarget inp) else roleTarget inp

/-- The offload replaces the target by the model. -/
def Replaces (model : Bytes) : Prop := Offloads inp ∧ offloadModel inp = model ∧ model ≠ []

/-- A target that is replaced becomes a model with a row of a cloud provider, and without such a row for a candidate
the target is left as it was. -/
def OffloadsToCloud : Prop :=
  (∀ model, Replaces inp model → offloadedTarget inp = model ∧ HasCloudRow (inp.env 0).providerModels model) ∧
    (¬ HasCloudRow (inp.env 0).providerModels firstCandidate →
      ¬ HasCloudRow (inp.env 0).providerModels secondCandidate → offloadedTarget inp = roleTarget inp)

/-- The candidate that is taken has a cloud row: the first one, or the second one where the row of the first has no
provider; no candidate is taken where the rows of both have none. -/
def CandidateIsCloud (rows : List ProviderModel) : Prop :=
  HasCloudRow rows firstCandidate ∧ ¬ Unnamed rows firstCandidate ∨
    Unnamed rows firstCandidate ∧ (HasCloudRow rows secondCandidate ∨ Unnamed rows secondCandidate)

variable {inp}

theorem offloadModel_first (h : ¬ Unnamed (inp.env 0).providerModels firstCandidate) :
    offloadModel inp = firstCandidate := by
  have hfirst : getProviderForModel (inp.env 0).providerModels firstCandidate ≠ [] :=
    fun hnil => h ((getProviderForModel_eq_nil_iff cstr_firstCandidate).mp hnil)
  show orElse (if getProviderForModel (inp.env 0).providerModels firstCandidate = [] then [] else firstCandidate) _ = _
  rw [if_neg hfirst]
  exact if_neg firstCandidate_ne_nil

theorem offloadModel_second (h : Unnamed (inp.env 0).providerModels firstCandidate) : offloadModel inp =
    if getProviderForModel (inp.env 0).providerModels secondCandidate = [] then [] else secondCandidate := by
  show orElse (if getProviderForModel (inp.env 0).providerModels firstCandidate = [] then [] else firstCandidate) _ = _
  rw [if_pos ((getProviderForModel_eq_nil_iff cstr_firstCandidate).mpr h)]
  exact if_pos rfl

/-- The model that the offload takes, if any, has a cloud row exactly when the candidate that is taken has one. -/
theorem offloadModel_isCloud_iff : (offloadModel inp ≠ [] → HasCloudRow (inp.env 0).providerModels (offloadModel inp)) ↔
    CandidateIsCloud (inp.env 0).providerModels := by
  unfold CandidateIsCloud
  by_cases hfirst : Unnamed (inp.env 0).providerModels firstCandidate
  · rw [offloadModel_second hfirst]
    by_cases hsecond : Unnamed (inp.env 0).providerModels secondCandidate
    · rw [if_pos ((getProviderForModel_eq_nil_iff cstr_secondCandidate).mpr hsecond)]
      exact iff_of_true (fun h => absurd rfl h) (Or.inr ⟨hfirst, Or.inr hsecond⟩)
    · rw [if_neg fun hnil => hsecond ((getProviderForModel_eq_nil_iff cstr_secondCandidate).mp hnil)]
      constructor
      · exact fun h => Or.inr ⟨hfirst, Or.inl (h secondCandidate_ne_nil)⟩
      · rintro (⟨-, h⟩ | ⟨-, h | h⟩) -
        · exact absurd hfirst h
        · exact h
        · exact absurd h hsecond
  · rw [offloadModel_first hfirst]
    constructor
    · exact fun h => Or.inl ⟨h firstCandidate_ne_nil, hfirst⟩
    · rintro (⟨h, -⟩ | ⟨h, -⟩) -
      · exact h
      · exact absurd h hfirst

theorem offloadedTarget_of_replaces {model : Bytes} (h : Replaces inp model) : offloadedTarget inp = model := by
  obtain ⟨hoffloads, rfl, hne⟩ := h
  rw [offloadedTarget, if_pos hoffloads]
  exact if_neg hne

/-- Without a row of a cloud provider for a candidate, nothing is replaced where the offload takes cloud models. -/
theorem offloadedTarget_of_no_row (hcloud : CandidateIsCloud (inp.env 0).providerModels)
    (hfirst : ¬ HasCloudRow (inp.env 0).providerModels firstCandidate)
    (hsecond : ¬ HasCloudRow (inp.env 0).providerModels secondCandidate) : offloadedTarget inp = roleTarget inp := by
  obtain ⟨h, -⟩ | ⟨hunnamed, h | hunnamed'⟩ := hcloud
  · exact absurd h hfirst
  · exact absurd h hsecond
  · have hnone : offloadModel inp = [] := by
      rw [offloadModel_second hunnamed]
      exact if_pos ((getProviderForModel_eq_nil_iff cstr_secondCandidate).mpr hunnamed')
    unfold offloadedTarget
    split_ifs
    · rw [hnone]
      exact if_pos rfl
    · rfl

end Offload

/-- **The offload takes cloud models only** exactly when the request is not offloaded, or the candidate that is taken
has a row of a cloud provider. -/
theorem offloadsToCloud_iff (inp : Inputs) :
    OffloadsToCloud inp ↔ (Offloads inp → CandidateIsCloud (inp.env 0).providerModels) := by
  constructor
  · rintro ⟨hreplaced, -⟩ hoffloads
    exact offloadModel_isCloud_iff.mp fun hne => (hreplaced _ ⟨hoffloads, rfl, hne⟩).2
  · intro h
    refine ⟨fun model hmodel => ⟨offloadedTarget_of_replaces hmodel, ?_⟩, fun hfirst hsecond => ?_⟩
    · obtain ⟨hoffloads, rfl, hne⟩ := hmodel
      exact offloadModel_isCloud_iff.mpr (h hoffloads) hne
    · by_cases hoffloads : Offloads inp
      · exact offloadedTarget_of_no_row (h hoffloads) hfirst hsecond
      · exact if_neg hoffloads

/-- A request that asks the engine to run something. -/
def toolRequest (rows : List ProviderModel) : Inputs :=
  { plainRequest (ascii "denselite") fun _ => plainEnv rows [] 200 [] with
    request := { model := ascii "denselite", messages := [{ role := ascii "user", content := ascii "run it" }] } }

/-- On an empty table the request goes to the first candidate, which then is taken for a local model. -/
theorem not_offloadsToCloud_emptyTable : ¬ OffloadsToCloud (toolRequest []) ∧
    offloadedTarget (toolRequest []) = firstCandidate := by
  have hreplaces : Replaces (toolRequest []) firstCandidate := by
    refine ⟨?_, ?_, ?_⟩ <;> decide +kernel
  refine ⟨fun h => ?_, offloadedTarget_of_replaces hreplaces⟩
  obtain ⟨-, r, hr, -⟩ := h.1 firstCandidate hreplaces
  exact List.not_mem_nil hr

end DenseLite.Engine.Offload
