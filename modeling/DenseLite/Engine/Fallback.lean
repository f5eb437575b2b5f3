import DenseLite.Engine.Pipeline

/-! # The way back to a local model

When a cloud model answers 429, the retry loop takes the cheapest text model of OPENROUTER, and the
fallback model only when that provider has none. So a turn whose cloud attempts all fail with 429
comes to a local model exactly when one of its first two lookups finds no model, or finds one that is
served locally (`local_fallback_iff`). -/

namespace DenseLite.Engine.Fallback

open DenseLite.Lib.ByteStream DenseLite.Engine.Context DenseLite.Engine.Pipeline
open DenseLite.Infer.State (ascii)

/-! ### Where an attempt goes -/

/-- `infer` takes the model for a local one. -/
def isLocal (env : Env) (model : Bytes) : Bool :=
  getProviderForModel env.providerModels model = ascii "local" ∨
    getProviderForModel env.providerModels model = []

/-- The text model of OPENROUTER to which the recovery switches, or the empty string. -/
def switchModel (env : Env) : Bytes :=
  getCheapestModelForProvider env.providerModels (ascii "OPENROUTER") (ascii "text")

/-- After a failure in `env` the lookup finds no cloud model for an attempt in `next`. -/
def leavesCloud (env next : Env) : Bool := switchModel env = [] ∨ isLocal next (switchModel env)

/-- The role `general` is bound in `env` to a model that is a local one in `next`. -/
def boundLocally (env next : Env) : Bool :=
  env.roleModel (ascii "general") ≠ [] ∧ isLocal next (env.roleModel (ascii "general"))

variable {inp : Inputs} {st : LoopState}

theorem infer_local {env : Env} {model : Bytes} (h : isLocal env model) (req : OpenAIRequest)
    (prompt : Bytes) : (infer env model req prompt).1 = .prompt prompt := by
  have hprovider := of_decide_eq_true h
  unfold infer
  rw [if_pos hprovider]

/-- A cloud attempt sends no prompt. Without a key it fails with 429, else the provider answers. -/
theorem infer_cloud {env : Env} {model : Bytes} (h : isLocal env model = false) (req : OpenAIRequest)
    (prompt : Bytes) :
    (infer env model req prompt).1 = .noKey ∧ (infer env model req prompt).2.1 = 429 ∨
      ∃ messages, (infer env model req prompt).1 = .payload messages ∧
        (infer env model req prompt).2.1 = env.statusCode := by
  have hprovider := of_decide_eq_false h
  unfold infer
  dsimp only
  rw [if_neg hprovider]
  split_ifs with hkey
  · exact Or.inl ⟨rfl, rfl⟩
  · exact Or.inr ⟨_, rfl, rfl⟩

/-! ### The attempts of a turn -/

section Turn

variable (inp)

/-- What the next call of `infer` adds to the record. -/
def callOf (st : LoopState) : Attempt :=
  { target := st.target
    sent := (infer (envOf inp st) st.target (prepared inp) st.prompt).1
    selected := st.selected
    continuation := st.continuation
    config := ((envOf inp st).models st.target).or ((envOf inp st).onDisk st.target) }

/-- The attempts that the retry loop makes from a state on. -/
def attemptsFrom (left : ℕ) (last : ℤ × Bytes) (st : LoopState) : List Attempt :=
  (retries inp left last st).1.attempts.drop st.attempts.length

/-- The attempts of a turn that begins in `st`. -/
def turnAttempts (st : LoopState) : List Attempt := attemptsFrom inp 3 (0, []) st

/-- The state after an attempt that failed with 429. -/
def switched (st : LoopState) : LoopState :=
  { called inp st with target := orElse (switchModel (envOf inp st)) (resolveFallback (envOf inp st)) }

/-- Status code and output of the next call. -/
def replyOf (st : LoopState) : ℤ × Bytes := (infer (envOf inp st) st.target (prepared inp) st.prompt).2

theorem recover_attempts (env : Env) (action : RecoveryAction) (st : LoopState) :
    (recover inp env action st).attempts = st.attempts := by
  cases action <;> rfl

theorem retries_called {left : ℕ}
    (hrest : ∀ last st, st.attempts <+: (retries inp left last st).1.attempts)
    (last : ℤ × Bytes) (st : LoopState) :
    (called inp st).attempts <+: (retries inp (left + 1) last st).1.attempts := by
  unfold retries
  dsimp only
  split_ifs with hok
  · exact List.prefix_rfl
  · split
    · exact List.prefix_rfl
    · exact List.IsPrefix.trans ⟨[], by rw [List.append_nil, recover_attempts]⟩ (hrest _ _)

/-- The record of the calls only grows. -/
theorem retries_attempts : ∀ (left : ℕ) (last : ℤ × Bytes) (st : LoopState),
    st.attempts <+: (retries inp left last st).1.attempts
  | 0, _, _ => List.prefix_rfl
  | left + 1, last, st =>
    List.IsPrefix.trans (List.prefix_append _ _) (retries_called inp (retries_attempts left) last st)

theorem retries_eq_append (left : ℕ) (last : ℤ × Bytes) (st : LoopState) :
    (retries inp left last st).1.attempts = st.attempts ++ attemptsFrom inp left last st :=
  (List.prefix_iff_eq_append.mp (retries_attempts inp left last st)).symm

/-- A loop with a retry left begins with its call. -/
theorem attemptsFrom_head (left : ℕ) (last : ℤ × Bytes) (st : LoopState) :
    (attemptsFrom inp (left + 1) last st)[0]? = some (callOf inp st) := by
  obtain ⟨rest, hrest⟩ := retries_called inp (retries_attempts inp left) last st
  have hcall : (called inp st).attempts = st.attempts ++ [callOf inp st] := rfl
  rw [attemptsFrom, ← hrest, hcall, List.append_assoc, List.drop_left]
  rfl

theorem determineAction_429 (ctx : Bytes) :
    determineAction 429 ctx = .SWITCH_KEY ∨ determineAction 429 ctx = .SWITCH_PROVIDER := by
  unfold determineAction
  rw [if_neg (by omega), if_neg (by omega), if_pos rfl]
  split_ifs
  · exact Or.inl rfl
  · exact Or.inr rfl

variable {inp}

/-- A failure with 429 makes the loop switch, whatever the body says. -/
theorem retries_of_429 (h : (replyOf inp st).1 = 429) (left : ℕ) (last : ℤ × Bytes) :
    retries inp (left + 1) last st = retries inp left (replyOf inp st) (switched inp st) := by
  unfold replyOf at h ⊢
  rw [retries]
  dsimp only
  rw [if_neg (by rw [h]; decide), h]
  rcases determineAction_429 (infer (envOf inp st) st.target (prepared inp) st.prompt).2.2 with hact | hact
  all_goals
    rw [hact]
    dsimp only
    rw [← h]
    rfl

/-- The attempts of a loop whose first call fails with 429. -/
theorem attemptsFrom_of_429 (h : (replyOf inp st).1 = 429) (left : ℕ) (last : ℤ × Bytes) :
    attemptsFrom inp (left + 1) last st =
      callOf inp st :: attemptsFrom inp left (replyOf inp st) (switched inp st) := by
  have hrest := retries_eq_append inp left (replyOf inp st) (switched inp st)
  have hcall : (switched inp st).attempts = st.attempts ++ [callOf inp st] := rfl
  rw [hcall, ← retries_of_429 h left last, List.append_assoc] at hrest
  rw [attemptsFrom, hrest, List.drop_left, List.singleton_append]

/-- Every attempt of the list that reached a cloud model was answered with 429; the list begins with
attempt `n` of the run. -/
def CloudFails (inp : Inputs) (n : ℕ) (as : List Attempt) : Prop :=
  ∀ j a, as[j]? = some a → (∃ messages, a.sent = .payload messages) → (inp.env (n + j)).statusCode = 429

/-- Some attempt of the list is made on a local model. -/
def ReachesLocal (as : List Attempt) : Prop := ∃ a ∈ as, ∃ text, a.sent = .prompt text

theorem envOf_switched (st : LoopState) : envOf inp (switched inp st) = inp.env (st.attempts.length + 1) := by
  simp [envOf, switched, called]

/-- After a switch, the target is a local model exactly when the lookup has left the cloud. -/
theorem switched_isLocal
    (hbound : boundLocally (inp.env st.attempts.length) (inp.env (st.attempts.length + 1))) :
    isLocal (envOf inp (switched inp st)) (switched inp st).target =
      leavesCloud (inp.env st.attempts.length) (inp.env (st.attempts.length + 1)) := by
  rw [envOf_switched]
  obtain ⟨hne, hlocal⟩ := of_decide_eq_true hbound
  have hfallback : resolveFallback (envOf inp st) = (envOf inp st).roleModel (ascii "general") :=
    if_neg hne
  unfold leavesCloud
  by_cases hswitch : switchModel (inp.env st.attempts.length) = []
  · have htarget : (switched inp st).target = (envOf inp st).roleModel (ascii "general") :=
      (if_pos hswitch).trans hfallback
    rw [htarget, envOf, hlocal]
    simp [hswitch]
  · have htarget : (switched inp st).target = switchModel (inp.env st.attempts.length) := if_neg hswitch
    rw [htarget]
    simp [hswitch]

/-- The call of a state on a cloud model sends no prompt, and fails with 429. -/
theorem cloud_call {left : ℕ} {last : ℤ × Bytes} (hcloud : isLocal (envOf inp st) st.target = false)
    (hfails : CloudFails inp st.attempts.length (attemptsFrom inp (left + 1) last st)) :
    (replyOf inp st).1 = 429 ∧ ∀ text, (callOf inp st).sent ≠ .prompt text := by
  rcases infer_cloud hcloud (prepared inp) st.prompt with ⟨hsent, hcode⟩ | ⟨messages, hsent, hcode⟩
  · exact ⟨hcode, fun text h => absurd (hsent.symm.trans h) (by simp)⟩
  · have hstatus := hfails 0 (callOf inp st) (attemptsFrom_head inp left last st) ⟨messages, hsent⟩
    exact ⟨hcode.trans hstatus, fun text h => absurd (hsent.symm.trans h) (by simp)⟩

theorem reachesLocal_cons {a : Attempt} {as : List Attempt} (ha : ∀ text, a.sent ≠ .prompt text) :
    ReachesLocal (a :: as) ↔ ReachesLocal as := by
  simp [ReachesLocal, ha]

theorem CloudFails.tail {n : ℕ} {a : Attempt} {as : List Attempt} (h : CloudFails inp n (a :: as)) :
    CloudFails inp (n + 1) as := by
  intro j b hb hsent
  have hstatus := h (j + 1) b (by simpa using hb) hsent
  rwa [show n + (j + 1) = n + 1 + j by omega] at hstatus

/-- A loop with `left + 1` retries that begins on a cloud model comes to a local one exactly when one
of its `left` switches leaves the cloud. -/
theorem attemptsFrom_reachesLocal : ∀ (left : ℕ) (last : ℤ × Bytes) (st : LoopState),
    isLocal (envOf inp st) st.target = false →
    CloudFails inp st.attempts.length (attemptsFrom inp (left + 1) last st) →
    (∀ i < left, boundLocally (inp.env (st.attempts.length + i)) (inp.env (st.attempts.length + i + 1))) →
    (ReachesLocal (attemptsFrom inp (left + 1) last st) ↔ ∃ i < left,
      leavesCloud (inp.env (st.attempts.length + i)) (inp.env (st.attempts.length + i + 1)))
  | 0, last, st, hcloud, hfails, _ => by
    obtain ⟨h429, hcall⟩ := cloud_call hcloud hfails
    rw [attemptsFrom_of_429 h429, reachesLocal_cons hcall]
    simp [ReachesLocal, attemptsFrom, retries]
  | left + 1, last, st, hcloud, hfails, hbound => by
    obtain ⟨h429, hcall⟩ := cloud_call hcloud hfails
    rw [attemptsFrom_of_429 h429] at hfails ⊢
    rw [reachesLocal_cons hcall]
    have hlength : (switched inp st).attempts.length = st.attempts.length + 1 := by simp [switched, called]
    have hlocal := switched_isLocal (hbound 0 (Nat.succ_pos _))
    cases hnext : isLocal (envOf inp (switched inp st)) (switched inp st).target with
    | true =>
      -- the next attempt is the local one
      refine iff_of_true ⟨callOf inp (switched inp st), ?_, ?_⟩ ⟨0, Nat.succ_pos _, hlocal ▸ hnext⟩
      · exact List.mem_of_getElem? (attemptsFrom_head inp left _ _)
      · exact ⟨_, infer_local hnext _ _⟩
    | false =>
      have hshift (i : ℕ) : (switched inp st).attempts.length + i = st.attempts.length + (i + 1) := by
        rw [hlength]; omega
      have hrest := attemptsFrom_reachesLocal left (replyOf inp st) (switched inp st) hnext
        (by rw [hlength]; exact hfails.tail)
        (fun i hi => by rw [hshift]; exact hbound (i + 1) (by omega))
      rw [hrest, Nat.exists_lt_succ_left]
      simp only [hshift, Nat.add_zero, ← hlocal, hnext, Bool.false_eq_true, false_or]

end Turn

/-- **The way back to a local model.** A turn begins on a cloud model, all its cloud attempts fail with
429, and the role `general` is bound to a local model: one of its attempts is made on a local model if
and only if, after its first or its second failure, OPENROUTER has no text model, or the cheapest one
is served locally. -/
theorem local_fallback_iff (inp : Inputs) (st : LoopState)
    (hcloud : isLocal (inp.env st.attempts.length) st.target = false)
    (hfails : CloudFails inp st.attempts.length (turnAttempts inp st))
    (hbound : ∀ i < 2,
      boundLocally (inp.env (st.attempts.length + i)) (inp.env (st.attempts.length + i + 1))) :
    ReachesLocal (turnAttempts inp st) ↔ ∃ i < 2,
      leavesCloud (inp.env (st.attempts.length + i)) (inp.env (st.attempts.length + i + 1)) :=
  attemptsFrom_reachesLocal 2 (0, []) st hcloud hfails hbound

/-- A request to the cloud model `gpt` while every attempt is answered with 429; the role `general` is
bound to the local model `g`, and `more` are rows of `provider_models` beside the one of `gpt`. -/
def rateLimited (more : List ProviderModel) : Inputs :=
  let gpt := { provider := ascii "OPENAI", modelName := ascii "gpt", modelType := ascii "text", priority := 1 }
  plainRequest (ascii "gpt") fun _ => plainEnv (gpt :: more) (ascii "key") 429 (ascii "Too Many Requests")

/-- The row of an OPENROUTER text model. -/
def routerRow : ProviderModel :=
  { provider := ascii "OPENROUTER", modelName := ascii "free", modelType := ascii "text", priority := 1 }

/-- Without a model of OPENROUTER the second attempt is a local one. -/
theorem local_fallback_without_router :
    ReachesLocal (turnAttempts (rateLimited []) (start (rateLimited []))) :=
  (local_fallback_iff (rateLimited []) (start (rateLimited [])) (by decide +kernel) (fun _ _ _ _ => rfl)
    (by decide +kernel)).mpr ⟨0, by decide, by decide +kernel⟩

/-- With one, the three attempts go to the cloud and the session fails. -/
theorem local_fallback_missed :
    isLocal ((rateLimited [routerRow]).env 0) (start (rateLimited [routerRow])).target = false ∧
      CloudFails (rateLimited [routerRow]) 0
        (turnAttempts (rateLimited [routerRow]) (start (rateLimited [routerRow]))) ∧
      (∀ i, boundLocally ((rateLimited [routerRow]).env i) ((rateLimited [routerRow]).env (i + 1))) ∧
      ¬ ReachesLocal (turnAttempts (rateLimited [routerRow]) (start (rateLimited [routerRow]))) ∧
      (answers (rateLimited [routerRow])).effect.2 = .FAILED := by
  have hcloud : isLocal ((rateLimited [routerRow]).env 0) (start (rateLimited [routerRow])).target = false := by
    decide +kernel
  have hbound (i : ℕ) :
      boundLocally ((rateLimited [routerRow]).env i) ((rateLimited [routerRow]).env (i + 1)) := by
    show boundLocally ((rateLimited [routerRow]).env 0) ((rateLimited [routerRow]).env 0)
    decide +kernel
  have hlocal := attemptsFrom_reachesLocal 2 (0, []) (start (rateLimited [routerRow])) hcloud
    (fun _ _ _ _ => rfl) (fun i _ => hbound i)
  exact ⟨hcloud, fun _ _ _ _ => rfl, hbound, hlocal.not.mpr (by decide +kernel), by decide +kernel⟩

end DenseLite.Engine.Fallback
