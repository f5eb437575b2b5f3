import DenseLite.Infer.State

/-! # Generation on a session

`generate` of `infer.cpp` on a `SessionKVState`, in the parts it has: the setup (`attach`, `truncate`)
that decides which cached rows are reused, the delta prefill, and the generation loop. The tokens
the sampler draws are an input of the call. The ways a call can stop are the constructors of `Stop`.

Both loops are sequences of forward passes that advance the position; `Passes` is that sequence, with
one lemma for each thing it does to the cache, and `prefill_spec`, `generateLoop_spec` say which passes
a loop made and how it stopped. -/

namespace DenseLite.Infer.Generate

open DenseLite.Lib.ByteStream DenseLite.Lib.FlatRows DenseLite.Infer.State

/-! ### Sessions and calls -/

/-- `SessionKVState`, without its mutex. -/
structure SessionKVState where
  state : InferenceState := {}
  cachedTokens : List Token := []
  maxContextAllocated : ℤ := 0
  numKvHeads : ℤ := 0
  headDim : ℤ := 0
  modelHash : UInt32 := 0
  modelIdentity : Bytes := []
  tokenizerIdentity : Bytes := []
  isInitialized : Bool := false
  lastAccessedMs : ℤ := 0
  inUse : Bool := false
deriving DecidableEq, Repr

/-- One call of `generate`: its arguments, and the tokens the sampler draws step by step. -/
structure Call where
  prompt : List Token
  maxTokens : ℤ
  contextBudget : ℤ
  sample : ℕ → Token

/-- How a call ends: at once, by the exception of `reserve` on a negative count, by a forward pass
that returns false in the prefill (at which prompt index) or in the generation (at which step), at
an end-of-sequence token, after `max_tokens` steps, or at the end of the context. -/
inductive Stop
  | emptyPrompt
  | threw
  | prefillFailed (i : ℕ)
  | generationFailed (step : ℕ)
  | eos
  | maxTokens
  | contextLimit
deriving DecidableEq, Repr

/-- `ctx_len`: the budget, else the model's context length, else 4096, but at most 65536. -/
def ctxLen (c : ModelConfig) (contextBudget : ℤ) : ℤ :=
  let baseCtx := if 0 < contextBudget then contextBudget
    else if 0 < c.contextLength then int32OfU32 c.contextLength else 4096
  min baseCtx 65536

/-! ### Setup -/

/-- The loop that counts how many tokens two lists have in common at the front. -/
def matchPrefix : List Token → List Token → ℕ
  | a :: as, b :: bs => if a = b then matchPrefix as bs + 1 else 0
  | _, _ => 0

/-- The first part of the setup: initialise the session, or match the prompt, but for its last
token, with the cached tokens. Gives the session and `start_prefill_idx`. -/
def attach (m : DenseModel) (ctx : ℤ) (prompt : List Token) (s : SessionKVState) :
    SessionKVState × ℕ :=
  if !s.isInitialized || decide (s.maxContextAllocated < ctx) then
    ({ s with
      state := initInferenceState m.config ctx s.state
      maxContextAllocated := ctx
      numKvHeads := int32OfU32 m.config.numKvHeads
      headDim := int32OfU32 m.config.headDim
      isInitialized := true
      cachedTokens := [] }, 0)
  else
    let common := matchPrefix s.cachedTokens prompt.dropLast
    ({ s with state := { s.state with currentPos := int32OfU32 (UInt32.ofNat common) } }, common)

/-- What the setup of a call leaves: the session, `effective_tokens` and `start_prefill_idx`. -/
structure Setup where
  session : SessionKVState
  effective : List Token
  start : ℕ

/-- The second part of the setup: a prompt that does not fit keeps its last `ctx_len - 1` tokens and
reuses nothing. A negative `ctx_len` compares as a huge `size_t`. -/
def truncate (ctx : ℤ) (prompt : List Token) (a : SessionKVState × ℕ) : Setup :=
  if 0 ≤ ctx ∧ ctx ≤ prompt.length then
    { session := { a.1 with cachedTokens := [], state := { a.1.state with currentPos := 0 } }
      effective := prompt.drop (prompt.length - (ctx - 1).toNat)
      start := 0 }
  else { session := a.1, effective := prompt, start := a.2 }

/-- The setup of a call. -/
def setup (m : DenseModel) (s : SessionKVState) (c : Call) : Setup :=
  let ctx := ctxLen m.config c.contextBudget
  truncate ctx c.prompt (attach m ctx c.prompt s)

/-! ### The two loops -/

/-- The delta prefill over the tokens from index `i` on: the state it ends in, and the index of the
token whose pass failed, if one did. -/
def prefill (m : DenseModel) (ctx : ℤ) : ℕ → InferenceState → List Token → InferenceState × Option ℕ
  | _, st, [] => (st, none)
  | i, st, t :: ts =>
    if ctx - 1 ≤ st.currentPos then (st, none)
    else
      match forwardPass m st t with
      | none => (st, some i)
      | some st' => prefill m ctx (i + 1) { st' with currentPos := st'.currentPos + 1 } ts

/-- The strings that end a generation whatever the configured token id is. -/
def stopStrings : List Bytes :=
  [ascii "<|im_end|>", ascii "<|endoftext|>", ascii "</s>", ascii "<eos>", ascii "<|im_start|>",
    ascii "<|eot_id|>"]

/-- The test of the sampled token for end of sequence. -/
def isEos (m : DenseModel) (t : Token) : Bool :=
  t = m.config.eosTokenId ∨
    (0 ≤ t.toInt ∧ ∃ s ∈ m.vocabTokens[t.toInt.toNat]?, s ∈ stopStrings)

/-- What `generate` leaves: the session, the tokens it emitted, and how it stopped. -/
structure GenResult where
  session : SessionKVState
  generated : List Token
  stop : Stop

/-- The generation loop, with `fuel` steps left of `max_tokens`. -/
def generateLoop (m : DenseModel) (ctx : ℤ) (sample : ℕ → Token) :
    ℕ → ℕ → Token → SessionKVState → List Token → GenResult
  | 0, _, _, s, g => ⟨s, g, .maxTokens⟩
  | fuel + 1, step, current, s, g =>
    if ctx - 1 ≤ s.state.currentPos then ⟨s, g, .contextLimit⟩
    else
      match forwardPass m s.state current with
      | none => ⟨s, g, .generationFailed step⟩
      | some st =>
        let next := sample step
        if isEos m next then ⟨{ s with state := st }, g, .eos⟩
        else
          generateLoop m ctx sample fuel (step + 1) next
            { s with
              state := { st with currentPos := st.currentPos + 1 }
              cachedTokens := s.cachedTokens ++ [next] }
            (g ++ [next])

/-- `generate` on a session. With `ctx_len = 1` the effective prompt is empty, and to ask it for its last
token is undefined; a zero stands for it here, which the generation loop never uses. -/
def generate (m : DenseModel) (s : SessionKVState) (c : Call) : GenResult :=
  if c.prompt = [] then ⟨s, [], .emptyPrompt⟩
  else
    let ctx := ctxLen m.config c.contextBudget
    let u := setup m s c
    if c.maxTokens < 0 then ⟨u.session, [], .threw⟩
    else
      match prefill m ctx u.start u.session.state (u.effective.dropLast.drop u.start) with
      | (st, some i) => ⟨{ u.session with state := st }, [], .prefillFailed i⟩
      | (st, none) =>
        generateLoop m ctx c.sample c.maxTokens.toNat 0 (u.effective.getLastD 0)
          { u.session with state := st, cachedTokens := u.effective } []

/-! ### The common prefix -/

theorem matchPrefix_le_left : ∀ as bs, matchPrefix as bs ≤ as.length
  | [], _ => by simp [matchPrefix]
  | _ :: _, [] => by simp [matchPrefix]
  | a :: as, b :: bs => by
    have := matchPrefix_le_left as bs
    rw [matchPrefix, List.length_cons]
    split_ifs <;> omega

theorem matchPrefix_le_right : ∀ as bs, matchPrefix as bs ≤ bs.length
  | [], _ => by simp [matchPrefix]
  | _ :: _, [] => by simp [matchPrefix]
  | a :: as, b :: bs => by
    have := matchPrefix_le_right as bs
    rw [matchPrefix, List.length_cons]
    split_ifs <;> omega

/-- The counted tokens agree. -/
theorem take_matchPrefix : ∀ as bs : List Token,
    as.take (matchPrefix as bs) = bs.take (matchPrefix as bs)
  | [], _ => by simp [matchPrefix]
  | _ :: _, [] => by simp [matchPrefix]
  | a :: as, b :: bs => by
    rw [matchPrefix]
    split_ifs with h
    · rw [List.take_succ_cons, List.take_succ_cons, take_matchPrefix as bs, h]
    · rfl

/-- All of `as` is counted exactly when it is a prefix of `bs`. -/
theorem matchPrefix_eq_length_iff {as bs : List Token} :
    matchPrefix as bs = as.length ↔ as <+: bs := by
  constructor
  · intro h
    have := take_matchPrefix as bs
    rw [h, List.take_length] at this
    rw [this]
    exact List.take_prefix _ _
  · rintro ⟨cs, rfl⟩
    induction as with
    | nil => simp [matchPrefix]
    | cons a as ih => rw [List.cons_append, matchPrefix, if_pos rfl, ih, List.length_cons]

/-! ### Sequences of forward passes -/

/-- `Passes m st ts st'`: passes on the tokens `ts`, the position advanced after each, lead from `st`
to `st'`. -/
inductive Passes (m : DenseModel) : InferenceState → List Token → InferenceState → Prop
  | nil (st : InferenceState) : Passes m st [] st
  | cons {st st1 st2 : InferenceState} {t : Token} {ts : List Token}
      (h : forwardPass m st t = some st1)
      (rest : Passes m { st1 with currentPos := st1.currentPos + 1 } ts st2) :
      Passes m st (t :: ts) st2

theorem passes_cons_iff {m : DenseModel} {st st' : InferenceState} {t : Token} {ts : List Token} :
    Passes m st (t :: ts) st' ↔ ∃ st1, forwardPass m st t = some st1 ∧
      Passes m { st1 with currentPos := st1.currentPos + 1 } ts st' := by
  constructor
  · rintro (_ | ⟨h, rest⟩)
    exact ⟨_, h, rest⟩
  · rintro ⟨st1, h, rest⟩
    exact .cons h rest

theorem Passes.pos {m : DenseModel} {st st' : InferenceState} {ts : List Token}
    (h : Passes m st ts st') : st'.currentPos = st.currentPos + ts.length := by
  induction h with
  | nil => simp
  | cons h _ ih =>
    rw [ih, List.length_cons, forwardPass_eq_some h]
    push_cast
    ring

theorem Passes.invFreq {m : DenseModel} {st st' : InferenceState} {ts : List Token}
    (h : Passes m st ts st') : st'.invFreq = st.invFreq := by
  induction h with
  | nil => rfl
  | cons h _ ih => rw [ih, forwardPass_eq_some h]

theorem Passes.shaped {m : DenseModel} {st st' : InferenceState} {ts : List Token} {layers cap : ℕ}
    (h : Passes m st ts st') (hs : Shaped layers cap st.cache) : Shaped layers cap st'.cache := by
  induction h with
  | nil => exact hs
  | cons h _ ih =>
    have hs1 := forwardPass_shaped h hs
    exact ih hs1

theorem Passes.accepted {m : DenseModel} {st st' : InferenceState} {ts : List Token}
    (h : Passes m st ts st') : ∀ t ∈ ts, forwardRejects m t = false := by
  induction h with
  | nil => simp
  | cons h _ ih =>
    intro t ht
    rcases List.mem_cons.mp ht with rfl | ht
    · by_contra hne
      simp [forwardPass_eq_none_iff.mpr (by simpa using hne)] at h
    · exact ih t ht

theorem Passes.append {m : DenseModel} {st st1 st2 : InferenceState} {ts us : List Token}
    (h : Passes m st ts st1) (h' : Passes m st1 us st2) : Passes m st (ts ++ us) st2 := by
  induction h with
  | nil => exact h'
  | cons h _ ih => exact .cons h (ih h')

theorem Passes.split {m : DenseModel} {us : List Token} : ∀ {ts : List Token} {st st2 : InferenceState},
    Passes m st (ts ++ us) st2 → ∃ st1, Passes m st ts st1 ∧ Passes m st1 us st2
  | [], st, _, h => ⟨st, .nil st, h⟩
  | t :: ts, st, st2, h => by
    rw [List.cons_append] at h
    obtain ⟨st1, hfp, rest⟩ := passes_cons_iff.mp h
    obtain ⟨st', h1, h2⟩ := Passes.split rest
    exact ⟨st', .cons hfp h1, h2⟩

/-- Passes change no row outside the positions they run through. -/
theorem Passes.row_eq {m : DenseModel} {st st' : InferenceState} {ts : List Token} {layers cap p : ℕ}
    (h : Passes m st ts st') (hs : Shaped layers cap st.cache) (h0 : 0 ≤ st.currentPos)
    (hp : (p : ℤ) < st.currentPos ∨ st.currentPos + ts.length ≤ p) :
    kvRowAt m.config.numKvFeatures p st'.cache = kvRowAt m.config.numKvFeatures p st.cache := by
  induction h with
  | nil => rfl
  | @cons st st1 st2 t ts h _ ih =>
    have hpos : st1.currentPos = st.currentPos := by rw [forwardPass_eq_some h]
    rw [List.length_cons] at hp
    push_cast at hp
    have hs1 := forwardPass_shaped h hs
    have hrow := forwardPass_row_ne (p := p) h hs (by omega)
    rw [ih hs1 (by simp only [hpos]; omega) (by simp only [hpos]; omega)]
    exact hrow

/-- **Passes extend a filled cache by their tokens**, when the rows fit. -/
theorem Passes.filled {m : DenseModel} {st st' : InferenceState} {ts : List Token} {cap : ℕ}
    (h : Passes m st ts st') : ∀ {before : List Token},
    Shaped m.config.numLayers.toNat cap st.cache → Filled m st.invFreq st.cache before →
    st.currentPos = before.length →
    (before.length + ts.length) * m.config.numKvFeatures ≤ cap →
    Filled m st'.invFreq st'.cache (before ++ ts) := by
  induction h with
  | nil =>
    intro before _ hf _ _
    rwa [List.append_nil]
  | @cons st st1 st2 t ts h _ ih =>
    intro before hs hf hpos hfit
    rw [List.length_cons] at hfit
    have hfit1 : (before.length + 1) * m.config.numKvFeatures ≤ cap :=
      (Nat.mul_le_mul_right _ (by omega)).trans hfit
    have hf1 := forwardPass_filled h hs hf hpos hfit1
    have hpos1 : st1.currentPos = st.currentPos := by rw [forwardPass_eq_some h]
    have hs1 := forwardPass_shaped h hs
    have := ih hs1 hf1 (by simp only [hpos1, hpos]; simp)
      (by rw [List.length_append, List.length_singleton]; convert hfit using 2; omega)
    rwa [List.append_assoc] at this

/-! ### What the loops do -/

/-- **The prefill**: it passes over its tokens up to some index, and stops there because they are
used up, because the context is, or because the next one is rejected. -/
theorem prefill_spec (m : DenseModel) (ctx : ℤ) : ∀ (ts : List Token) (i : ℕ) (st : InferenceState),
    ∃ j ≤ ts.length, Passes m st (ts.take j) (prefill m ctx i st ts).1 ∧
      match (prefill m ctx i st ts).2 with
      | none => j = ts.length ∨ ctx - 1 ≤ st.currentPos + j
      | some k => k = i + j ∧ st.currentPos + j < ctx - 1 ∧
          ∃ t, ts[j]? = some t ∧ forwardRejects m t = true
  | [], i, st => ⟨0, le_rfl, .nil st, Or.inl rfl⟩
  | t :: ts, i, st => by
    rw [prefill]
    by_cases hctx : ctx - 1 ≤ st.currentPos
    · rw [if_pos hctx]
      exact ⟨0, Nat.zero_le _, .nil st, Or.inr (by simpa using hctx)⟩
    · rw [if_neg hctx]
      cases hfp : forwardPass m st t with
      | none =>
        refine ⟨0, Nat.zero_le _, .nil st, rfl, by simp; omega, t, by simp, ?_⟩
        exact forwardPass_eq_none_iff.mp hfp
      | some st1 =>
        have hpos : st1.currentPos = st.currentPos := by rw [forwardPass_eq_some hfp]
        obtain ⟨j, hj, hpass, hend⟩ :=
          prefill_spec m ctx ts (i + 1) { st1 with currentPos := st1.currentPos + 1 }
        refine ⟨j + 1, by rw [List.length_cons]; omega, ?_, ?_⟩
        · rw [List.take_succ_cons]
          exact .cons hfp hpass
        · revert hend
          simp only [hpos]
          cases (prefill m ctx (i + 1) { st1 with currentPos := st.currentPos + 1 } ts).2 with
          | none =>
            rintro (h | h)
            · left; simp [h]
            · right; push_cast at h ⊢; omega
          | some k =>
            rintro ⟨h1, h2, t', h3, h4⟩
            exact ⟨by omega, by push_cast; omega, t', by rwa [List.getElem?_cons_succ], h4⟩

/-- The first `n` tokens the sampler draws from step `k` on. -/
def drawn (sample : ℕ → Token) (k n : ℕ) : List Token := (List.range n).map fun i => sample (k + i)

@[simp] theorem length_drawn (sample : ℕ → Token) (k n : ℕ) : (drawn sample k n).length = n := by
  simp [drawn]

theorem drawn_succ (sample : ℕ → Token) (k n : ℕ) :
    drawn sample k (n + 1) = sample k :: drawn sample (k + 1) n := by
  unfold drawn
  rw [List.range_succ_eq_map, List.map_cons, List.map_map]
  congr 1
  refine List.map_congr_left fun i _ => ?_
  show sample (k + (i + 1)) = sample (k + 1 + i)
  congr 1
  omega

/-- How the generation loop stopped after `n` of `fuel` steps, the next being step `k`: `st` is the
state after the passes of these steps, `st'` the final one, `last` the token to pass over next and
`next` the token drawn after it. -/
def StopsWith (m : DenseModel) (ctx : ℤ) (fuel n k : ℕ) (st st' : InferenceState)
    (last next : Token) : Stop → Prop
  | .maxTokens => st' = st ∧ n = fuel
  | .contextLimit => st' = st ∧ n < fuel ∧ ctx - 1 ≤ st.currentPos
  | .generationFailed i => st' = st ∧ i = k ∧ n < fuel ∧ st.currentPos < ctx - 1 ∧
      forwardRejects m last = true
  | .eos => forwardPass m st last = some st' ∧ n < fuel ∧ st.currentPos < ctx - 1 ∧
      isEos m next = true
  | _ => False

theorem StopsWith.succ {m : DenseModel} {ctx : ℤ} {fuel n k k' : ℕ} {st st' : InferenceState}
    {last next : Token} (hk : k' = k) : ∀ {stop : Stop},
    StopsWith m ctx fuel n k st st' last next stop →
      StopsWith m ctx (fuel + 1) (n + 1) k' st st' last next stop
  | .maxTokens, ⟨h1, h2⟩ => ⟨h1, by omega⟩
  | .contextLimit, ⟨h1, h2, h3⟩ => ⟨h1, by omega, h3⟩
  | .generationFailed _, ⟨h1, h2, h3, h4, h5⟩ => ⟨h1, by omega, by omega, h4, h5⟩
  | .eos, ⟨h1, h2, h3, h4⟩ => ⟨h1, by omega, h3, h4⟩

/-- **The generation loop**: it emits `n` tokens, having passed over the current token and all but
the last of those; only at an end of sequence has it passed over the last one as well. -/
theorem generateLoop_spec (m : DenseModel) (ctx : ℤ) (sample : ℕ → Token) :
    ∀ (fuel step : ℕ) (current : Token) (s : SessionKVState) (g : List Token),
    ∃ (n : ℕ) (st st' : InferenceState), n ≤ fuel ∧
      Passes m s.state ((current :: drawn sample step n).take n) st ∧
      (∀ i < n, isEos m (sample (step + i)) = false ∧ s.state.currentPos + i < ctx - 1) ∧
      (generateLoop m ctx sample fuel step current s g).session =
        { s with state := st', cachedTokens := s.cachedTokens ++ drawn sample step n } ∧
      (generateLoop m ctx sample fuel step current s g).generated = g ++ drawn sample step n ∧
      StopsWith m ctx fuel n (step + n) st st' ((current :: drawn sample step n).getLastD 0)
        (sample (step + n)) (generateLoop m ctx sample fuel step current s g).stop
  | 0, step, current, s, g => by
    refine ⟨0, s.state, s.state, le_rfl, .nil _, by simp, ?_, ?_, rfl, rfl⟩ <;>
      simp [generateLoop, drawn]
  | fuel + 1, step, current, s, g => by
    rw [generateLoop]
    by_cases hctx : ctx - 1 ≤ s.state.currentPos
    · rw [if_pos hctx]
      refine ⟨0, s.state, s.state, Nat.zero_le _, .nil _, by simp, ?_, ?_, rfl, Nat.succ_pos _, hctx⟩ <;>
        simp [drawn]
    · rw [if_neg hctx]
      cases hfp : forwardPass m s.state current with
      | none =>
        refine ⟨0, s.state, s.state, Nat.zero_le _, .nil _, by simp, ?_, ?_, rfl, rfl, Nat.succ_pos _,
          by omega, forwardPass_eq_none_iff.mp hfp⟩ <;> simp [drawn]
      | some st1 =>
        have hpos : st1.currentPos = s.state.currentPos := by rw [forwardPass_eq_some hfp]
        by_cases heos : isEos m (sample step) = true
        · simp only [heos, if_true]
          refine ⟨0, s.state, st1, Nat.zero_le _, .nil _, by simp, ?_, ?_, hfp, Nat.succ_pos _,
            by omega, heos⟩ <;> simp [drawn]
        · have heos' : isEos m (sample step) = false := by simpa using heos
          simp only [heos', Bool.false_eq_true, if_false]
          obtain ⟨n, st, st', hn, hpass, hall, hsess, hgen, hstop⟩ :=
            generateLoop_spec m ctx sample fuel (step + 1) (sample step)
              { s with
                state := { st1 with currentPos := st1.currentPos + 1 }
                cachedTokens := s.cachedTokens ++ [sample step] } (g ++ [sample step])
          have hlast : ((current :: drawn sample step (n + 1)).getLastD 0) =
              (sample step :: drawn sample (step + 1) n).getLastD 0 := by
            rw [drawn_succ, List.getLastD_cons, List.getLastD_cons, List.getLastD_cons]
          refine ⟨n + 1, st, st', by omega, ?_, ?_, ?_, ?_, ?_⟩
          · rw [List.take_succ_cons, drawn_succ]
            exact .cons hfp hpass
          · intro i hi
            rcases Nat.eq_zero_or_pos i with rfl | hi0
            · exact ⟨heos', by push_cast; omega⟩
            · obtain ⟨h1, h2⟩ := hall (i - 1) (by omega)
              refine ⟨by rwa [show step + 1 + (i - 1) = step + i by omega] at h1, ?_⟩
              simp only [hpos] at h2
              have : ((i - 1 : ℕ) : ℤ) = (i : ℤ) - 1 := by omega
              omega
          · rw [hsess, drawn_succ]
            simp
          · rw [hgen, drawn_succ]
            simp
          · rw [hlast, show step + (n + 1) = step + 1 + n by omega]
            exact hstop.succ rfl

end DenseLite.Infer.Generate
