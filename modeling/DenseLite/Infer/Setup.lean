import DenseLite.Infer.Generate
import DenseLite.Lib.Runs

/-! # What a call of `generate` does, as one statement

The setup of a call in its cases (`Reinits`, `Truncates`), and the passes of the whole call:
`generate_spec` says that a call that gets past its setup either fails in the prefill, or passes over
exactly the tokens it then caches, from `start_prefill_idx` on and without the last one. The proofs
about sessions start from this statement and never unfold the loops.

`Defined` says where the source says what a call does at all: an odd head dimension makes the setup write
past `inv_freq`, and a context of one token makes it ask an empty vector for its last element. -/

namespace DenseLite.Infer.Setup

open DenseLite.Lib.ByteStream DenseLite.Lib.FlatRows DenseLite.Lib.Runs
open DenseLite.Infer.State DenseLite.Infer.Generate

/-! ### The cases of the setup -/

/-- The setup initialises the session. -/
def Reinits (s : SessionKVState) (ctx : ℤ) : Prop :=
  s.isInitialized = false ∨ s.maxContextAllocated < ctx

/-- The prompt does not fit the context. -/
def Truncates (ctx : ℤ) (prompt : List Token) : Prop := 0 ≤ ctx ∧ ctx ≤ prompt.length

instance (s : SessionKVState) (ctx : ℤ) : Decidable (Reinits s ctx) :=
  inferInstanceAs (Decidable (_ ∨ _))

instance (ctx : ℤ) (prompt : List Token) : Decidable (Truncates ctx prompt) :=
  inferInstanceAs (Decidable (_ ∧ _))

/-- The context of a call. -/
def ctxOf (m : DenseModel) (c : Call) : ℤ := ctxLen m.config c.contextBudget

theorem ctx_le (m : DenseModel) (c : Call) : ctxOf m c ≤ 65536 := by
  unfold ctxOf ctxLen
  exact min_le_right _ _

/-- A positive budget gives a positive context. -/
theorem ctx_pos_of_budget {m : DenseModel} {c : Call} (h : 0 < c.contextBudget) :
    0 < ctxOf m c := by
  unfold ctxOf ctxLen
  simp only [h, if_true]
  omega

theorem ctx_ne_zero (m : DenseModel) (c : Call) : ctxOf m c ≠ 0 := by
  have hctx : 0 < m.config.contextLength → int32OfU32 m.config.contextLength ≠ 0 := by
    intro hpos
    have hnat : m.config.contextLength.toNat ≠ 0 := by
      have := UInt32.lt_iff_toNat_lt.mp hpos
      simp at this
      omega
    have hlt := m.config.contextLength.toNat_lt
    unfold int32OfU32
    split_ifs <;> omega
  unfold ctxOf ctxLen
  dsimp only
  split_ifs with hb hc
  · omega
  · have := hctx hc
    omega
  · omega

variable {m : DenseModel} {s : SessionKVState} {c : Call}

theorem attach_reinit {ctx : ℤ} {prompt : List Token} (h : Reinits s ctx) :
    attach m ctx prompt s = ({ s with
      state := initInferenceState m.config ctx s.state
      maxContextAllocated := ctx
      numKvHeads := int32OfU32 m.config.numKvHeads
      headDim := int32OfU32 m.config.headDim
      isInitialized := true
      cachedTokens := [] }, 0) := by
  unfold attach
  rw [if_pos (by rcases h with h | h <;> simp [h])]

theorem attach_match {ctx : ℤ} {prompt : List Token} (h : ¬ Reinits s ctx) :
    attach m ctx prompt s = ({ s with state := { s.state with
      currentPos := int32OfU32 (UInt32.ofNat (matchPrefix s.cachedTokens prompt.dropLast)) } },
      matchPrefix s.cachedTokens prompt.dropLast) := by
  obtain ⟨h1, h2⟩ := not_or.mp h
  unfold attach
  rw [if_neg (by simpa [h1] using h2)]

/-- `start_prefill_idx`: nothing is reused by a call that initialises or truncates. -/
theorem setup_start : (setup m s c).start =
    if Reinits s (ctxOf m c) ∨ Truncates (ctxOf m c) c.prompt then 0
    else matchPrefix s.cachedTokens c.prompt.dropLast := by
  unfold setup truncate
  change (if Truncates (ctxOf m c) c.prompt then _ else _ : Setup).start = _
  by_cases ht : Truncates (ctxOf m c) c.prompt
  · rw [if_pos ht, if_pos (Or.inr ht)]
  · rw [if_neg ht]
    by_cases hr : Reinits s (ctxOf m c)
    · rw [if_pos (Or.inl hr), ← ctxOf, attach_reinit hr]
    · rw [if_neg (by simp [hr, ht]), ← ctxOf, attach_match hr]

theorem setup_effective : (setup m s c).effective =
    if Truncates (ctxOf m c) c.prompt then
      c.prompt.drop (c.prompt.length - (ctxOf m c - 1).toNat) else c.prompt := by
  unfold setup truncate
  change (if Truncates (ctxOf m c) c.prompt then _ else _ : Setup).effective = _
  split_ifs <;> rfl

/-- The session after the setup of a call that initialises it. -/
theorem setup_session_reinit (h : Reinits s (ctxOf m c)) : (setup m s c).session = { s with
    state := initInferenceState m.config (ctxOf m c) s.state
    maxContextAllocated := ctxOf m c
    numKvHeads := int32OfU32 m.config.numKvHeads
    headDim := int32OfU32 m.config.headDim
    isInitialized := true
    cachedTokens := [] } := by
  unfold setup truncate
  change (if Truncates (ctxOf m c) c.prompt then _ else _ : Setup).session = _
  rw [← ctxOf, attach_reinit h]
  split_ifs <;> rfl

/-- The session after the setup of a call that does not initialise it. -/
theorem setup_session_keep (h : ¬ Reinits s (ctxOf m c)) : ∃ pos, (setup m s c).session = { s with
    state := { s.state with currentPos := pos }
    cachedTokens := if Truncates (ctxOf m c) c.prompt then [] else s.cachedTokens } := by
  unfold setup truncate
  change ∃ pos, (if Truncates (ctxOf m c) c.prompt then _ else _ : Setup).session = _
  rw [← ctxOf, attach_match h]
  split_ifs with ht
  · exact ⟨0, rfl⟩
  · exact ⟨_, rfl⟩

/-- A later call leaves the layers as they are, also when it initialises the session again. -/
theorem setup_cache_later {cap : ℕ}
    (hs : Shaped m.config.numLayers.toNat cap s.state.cache) :
    (setup m s c).session.state.cache = s.state.cache := by
  by_cases hr : Reinits s (ctxOf m c)
  · rw [setup_session_reinit hr]
    exact resize_of_length_eq hs.length
  · obtain ⟨pos, hset⟩ := setup_session_keep (m := m) hr
    rw [hset]

theorem setup_cachedTokens : (setup m s c).session.cachedTokens =
    if Reinits s (ctxOf m c) ∨ Truncates (ctxOf m c) c.prompt then [] else s.cachedTokens := by
  by_cases hr : Reinits s (ctxOf m c)
  · rw [setup_session_reinit hr, if_pos (Or.inl hr)]
  · obtain ⟨pos, hs⟩ := setup_session_keep (m := m) hr
    rw [hs]
    simp [hr]

theorem setup_initialized : (setup m s c).session.isInitialized = true := by
  by_cases hr : Reinits s (ctxOf m c)
  · rw [setup_session_reinit hr]
  · obtain ⟨pos, hs⟩ := setup_session_keep (m := m) hr
    rw [hs]
    simpa using (not_or.mp hr).1

theorem setup_start_le : (setup m s c).start ≤ c.prompt.length - 1 := by
  rw [setup_start]
  split_ifs
  · exact Nat.zero_le _
  · simpa using matchPrefix_le_right s.cachedTokens c.prompt.dropLast

theorem setup_start_le_cached : (setup m s c).start ≤ s.cachedTokens.length := by
  rw [setup_start]
  split_ifs
  · exact Nat.zero_le _
  · exact matchPrefix_le_left _ _

theorem setup_effective_length (hctx : 0 < ctxOf m c) :
    (setup m s c).effective.length = min c.prompt.length (ctxOf m c - 1).toNat := by
  rw [setup_effective]
  split_ifs with h
  · rw [List.length_drop]
    obtain ⟨h1, h2⟩ := h
    omega
  · have : ¬ (ctxOf m c ≤ c.prompt.length) := fun h' => h ⟨by omega, h'⟩
    omega

/-- The part of the prompt that is reused is a part of the effective prompt. -/
theorem setup_take : (setup m s c).effective.take (setup m s c).start =
    c.prompt.take (setup m s c).start := by
  rw [setup_effective]
  split_ifs with h
  · rw [setup_start, if_pos (Or.inr h)]
    simp
  · rfl

theorem setup_start_le_effective :
    (setup m s c).start ≤ (setup m s c).effective.length - 1 := by
  have h1 := setup_start_le (m := m) (s := s) (c := c)
  by_cases ht : Truncates (ctxOf m c) c.prompt
  · rw [setup_start, if_pos (Or.inr ht)]
    exact Nat.zero_le _
  · rw [setup_effective, if_neg ht]
    exact h1

/-- The position the prefill starts from is `start_prefill_idx`. -/
theorem setup_pos (hctx : 0 < ctxOf m c) :
    (setup m s c).session.state.currentPos = (setup m s c).start := by
  unfold setup truncate
  change (if Truncates (ctxOf m c) c.prompt then _ else _ : Setup).session.state.currentPos =
    (if Truncates (ctxOf m c) c.prompt then _ else _ : Setup).start
  by_cases ht : Truncates (ctxOf m c) c.prompt
  · rw [if_pos ht]
    rfl
  · rw [if_neg ht, ← ctxOf]
    by_cases hr : Reinits s (ctxOf m c)
    · rw [attach_reinit hr]
      rfl
    · rw [attach_match hr]
      -- the prompt fits the context, so the count is small and its conversion to `int` exact
      have h1 := matchPrefix_le_right s.cachedTokens c.prompt.dropLast
      have h2 := ctx_le m c
      have h3 : ¬ (ctxOf m c ≤ c.prompt.length) := fun h' => ht ⟨by omega, h'⟩
      rw [List.length_dropLast] at h1
      have hval : (UInt32.ofNat (matchPrefix s.cachedTokens c.prompt.dropLast)).toNat =
          matchPrefix s.cachedTokens c.prompt.dropLast := by
        rw [UInt32.toNat_ofNat', Nat.mod_eq_of_lt (by omega)]
      show int32OfU32 _ = _
      rw [int32OfU32_of_lt (by rw [hval]; omega), hval]

/-! ### Calls that are defined -/

/-- The call does nothing undefined before its first pass is over: `inv_freq` has an entry for every step of
the loops over a head, that of `init_inference_state` which writes it and that of `rope` which reads it, and
`effective_tokens.back()` is there to take, unless `reserve` has thrown before. -/
def Defined (m : DenseModel) (s : SessionKVState) (c : Call) : Prop :=
  c.prompt ≠ [] → InvFreqInBounds m.config ∧ (0 ≤ c.maxTokens → (setup m s c).effective ≠ [])

/-- The head dimension is even, and the context has more than one token. -/
def StartsDefined (m : DenseModel) (c : Call) : Prop :=
  c.prompt = [] ∨ EvenHead m.config ∧ (c.maxTokens < 0 ∨ ctxOf m c ≠ 1)

instance (m : DenseModel) (c : Call) : Decidable (StartsDefined m c) :=
  inferInstanceAs (Decidable (_ ∨ _ ∧ (_ ∨ _)))

/-- Nothing is left of a prompt exactly in a context of one token. -/
theorem setup_effective_eq_nil_iff (hp : c.prompt ≠ []) :
    (setup m s c).effective = [] ↔ ctxOf m c = 1 := by
  have hpos : 0 < c.prompt.length := List.length_pos_iff.mpr hp
  have hctx := ctx_ne_zero m c
  rw [setup_effective]
  split_ifs with ht
  · obtain ⟨h0, hle⟩ := ht
    rw [List.drop_eq_nil_iff]
    omega
  · have hlong : 1 < c.prompt.length ∨ ctxOf m c ≠ 1 := by
      unfold Truncates at ht
      omega
    refine iff_of_false hp fun h1 => ht ⟨by omega, by omega⟩

/-- **Whether a call is defined** depends on its model and its context alone. -/
theorem defined_iff : Defined m s c ↔ StartsDefined m c := by
  unfold Defined StartsDefined
  by_cases hp : c.prompt = []
  · simp [hp]
  have heff := setup_effective_eq_nil_iff (m := m) (s := s) hp
  simp only [ne_eq, hp, not_false_eq_true, forall_true_left, false_or, invFreqInBounds_iff, heff]
  refine and_congr_right fun _ => ?_
  omega

/-- **Which runs of calls are defined**: those whose calls with a prompt are of a model with an even head
dimension, in contexts of more than one token. -/
theorem everyStep_defined_iff {σ : Type*} (step : σ → Call → σ) (session : σ → SessionKVState)
    (cs : List Call) (x : σ) :
    EveryStep step (fun x c => Defined m (session x) c) x cs ↔ ∀ c ∈ cs, StartsDefined m c := by
  simp only [defined_iff]
  exact everyStep_iff_forall_mem cs x

/-! ### The passes of a call -/

/-- Passing over a list from `k` on, then over its last element and more, but for the last. -/
theorem dropLast_drop_append (T D : List Token) (hT : T ≠ []) {k : ℕ} (hk : k ≤ T.length - 1) :
    T.dropLast.drop k ++ (T.getLastD 0 :: D).take D.length = (T ++ D).dropLast.drop k := by
  obtain ⟨T', a, rfl⟩ := T.eq_nil_or_concat'.resolve_left hT
  have hlast : (T' ++ [a]).getLastD 0 = a := List.getLastD_concat
  rw [List.length_append, List.length_singleton] at hk
  rw [hlast, List.dropLast_concat, List.append_assoc, List.singleton_append,
    List.dropLast_append_of_ne_nil (by simp), List.drop_append_of_le_length (by omega),
    List.dropLast_eq_take, List.length_cons, Nat.add_sub_cancel]

theorem getLastD_eq_getLast {ts : List Token} (h : ts ≠ []) : ts.getLastD 0 = ts.getLast h := by
  rw [List.getLastD_eq_getLast?, List.getLast?_eq_some_getLast h]
  rfl

theorem getLastD_append_cons (T D : List Token) (hT : T ≠ []) :
    (T.getLastD 0 :: D).getLastD 0 = (T ++ D).getLastD 0 := by
  obtain ⟨T', a, rfl⟩ := T.eq_nil_or_concat'.resolve_left hT
  simp [List.getLastD_eq_getLast?, List.getLast?_append, List.getLast?_cons]

/-- How the passes of a call that got through its prefill end: it caches its prompt and `n` sampled
tokens, and has passed over all of them but the last; `st` is the state after these passes and `st'`
the final one, which differs from it only at an end of sequence. -/
structure Generated (m : DenseModel) (s : SessionKVState) (c : Call) (n : ℕ)
    (st st' : InferenceState) : Prop where
  passes : Passes m (setup m s c).session.state
    (((setup m s c).effective ++ drawn c.sample 0 n).dropLast.drop (setup m s c).start) st
  session : (generate m s c).session = { (setup m s c).session with
    state := st'
    cachedTokens := (setup m s c).effective ++ drawn c.sample 0 n }
  generated : (generate m s c).generated = drawn c.sample 0 n
  steps : n ≤ c.maxTokens.toNat
  notEos : ∀ i < n, isEos m (c.sample i) = false
  room : ∀ i < n, ((setup m s c).effective.length : ℤ) + i < ctxOf m c
  stop : StopsWith m (ctxOf m c) c.maxTokens.toNat n n st st'
    (((setup m s c).effective ++ drawn c.sample 0 n).getLastD 0) (c.sample n) (generate m s c).stop

/-- The tokens a call caches number at most its context. -/
theorem Generated.length_le {n : ℕ} {st st' : InferenceState} (hctx : 0 < ctxOf m c)
    (hg : Generated m s c n st st') :
    (((setup m s c).effective ++ drawn c.sample 0 n).length : ℤ) ≤ ctxOf m c := by
  have hlen := setup_effective_length (m := m) (s := s) hctx
  rw [List.length_append, length_drawn]
  rcases Nat.eq_zero_or_pos n with rfl | hn
  · omega
  · have := hg.room (n - 1) (by omega)
    omega

/-- The position after the passes of a call that cached some token. -/
theorem Generated.pos {n : ℕ} {st st' : InferenceState} (hctx : 0 < ctxOf m c)
    (hg : Generated m s c n st st') (hne : (setup m s c).effective ++ drawn c.sample 0 n ≠ []) :
    st.currentPos = (((setup m s c).effective ++ drawn c.sample 0 n).length : ℤ) - 1 := by
  have hpos : 0 < ((setup m s c).effective ++ drawn c.sample 0 n).length := List.length_pos_iff.mpr hne
  have hstart := setup_start_le_effective (m := m) (s := s) (c := c)
  rw [hg.passes.pos, setup_pos hctx, List.length_drop, List.length_dropLast]
  rw [List.length_append] at hpos ⊢
  omega

/-- A call whose prefill failed: it has passed over `j` tokens from `start_prefill_idx` on, the next
one was rejected, and the tokens cached are those the setup left. -/
structure PrefillFailed (m : DenseModel) (s : SessionKVState) (c : Call) (j : ℕ)
    (st : InferenceState) : Prop where
  passes : Passes m (setup m s c).session.state
    (((setup m s c).effective.dropLast.drop (setup m s c).start).take j) st
  session : (generate m s c).session = { (setup m s c).session with state := st }
  stop : (generate m s c).stop = .prefillFailed ((setup m s c).start + j)
  rejected : ∃ t, ((setup m s c).effective.dropLast.drop (setup m s c).start)[j]? = some t ∧
    forwardRejects m t = true

theorem generate_empty (h : c.prompt = []) : generate m s c = ⟨s, [], .emptyPrompt⟩ := by
  unfold generate
  rw [if_pos h]

theorem generate_threw (h : c.prompt ≠ []) (hmax : c.maxTokens < 0) :
    generate m s c = ⟨(setup m s c).session, [], .threw⟩ := by
  unfold generate
  rw [if_neg h, if_pos hmax]

/-- **What a call does.** A call past its setup fails in the prefill, or generates. -/
theorem generate_spec (h : c.prompt ≠ []) (hmax : 0 ≤ c.maxTokens) (hctx : 0 < ctxOf m c) :
    (∃ j st, PrefillFailed m s c j st) ∨ ∃ n st st', Generated m s c n st st' := by
  have hlen := setup_effective_length (m := m) (s := s) hctx
  have hstart := setup_start_le_effective (m := m) (s := s) (c := c)
  have hpos := setup_pos (m := m) (s := s) hctx
  obtain ⟨j, hj, hpass, hend⟩ := prefill_spec m (ctxOf m c)
    ((setup m s c).effective.dropLast.drop (setup m s c).start) (setup m s c).start
    (setup m s c).session.state
  rcases hpre : prefill m (ctxOf m c) (setup m s c).start (setup m s c).session.state
      ((setup m s c).effective.dropLast.drop (setup m s c).start) with ⟨st, _ | i⟩
  · right
    simp only [hpre] at hpass hend
    have hgen : generate m s c = generateLoop m (ctxOf m c) c.sample c.maxTokens.toNat 0
        ((setup m s c).effective.getLastD 0)
        { (setup m s c).session with state := st, cachedTokens := (setup m s c).effective } [] := by
      unfold ctxOf at hpre
      simp only [generate, if_neg h, if_neg (show ¬ c.maxTokens < 0 by omega), hpre]
      rfl
    -- the effective prompt is shorter than the context, so the prefill runs to its end
    have hall : j = ((setup m s c).effective.dropLast.drop (setup m s c).start).length := by
      rcases hend with hend | hend
      · exact hend
      · rw [List.length_drop, List.length_dropLast] at hj ⊢
        omega
    rw [hall, List.take_length] at hpass
    have hst := hpass.pos
    rw [hpos, List.length_drop, List.length_dropLast] at hst
    obtain ⟨n, st1, st', hn, hpass', hall', hsess, hout, hstop⟩ := generateLoop_spec m (ctxOf m c)
      c.sample c.maxTokens.toNat 0 ((setup m s c).effective.getLastD 0)
      { (setup m s c).session with state := st, cachedTokens := (setup m s c).effective } []
    rw [← hgen] at hsess hout hstop
    simp only [Nat.zero_add] at hall' hstop
    by_cases hT : (setup m s c).effective = []
    · -- only with a context of one token: the loop stops before its first pass
      have hn0 : n = 0 := by
        by_contra hne
        have := (hall' 0 (by omega)).2
        rw [hT] at hlen hst
        have hp : 0 < c.prompt.length := List.length_pos_iff.mpr h
        simp only [List.length_nil] at hlen hst
        omega
      subst hn0
      refine ⟨0, st1, st', ?_, hsess, by simpa using hout, hn, by simp, by simp, ?_⟩
      · rw [hT]
        rw [hT] at hpass
        simpa [drawn] using hpass.append hpass'
      · simpa [hT, drawn] using hstop
    · refine ⟨n, st1, st', ?_, hsess, by simpa using hout, hn, fun i hi => (hall' i hi).1, ?_, ?_⟩
      · have happ := hpass.append hpass'
        have hD := dropLast_drop_append (setup m s c).effective (drawn c.sample 0 n) hT hstart
        rw [length_drawn] at hD
        rwa [hD] at happ
      · intro i hi
        have := (hall' i hi).2
        have hTpos : 0 < (setup m s c).effective.length := List.length_pos_iff.mpr hT
        simp only [hst] at this
        omega
      · rwa [← getLastD_append_cons _ _ hT]
  · left
    simp only [hpre] at hpass hend
    have hgen : generate m s c =
        ⟨{ (setup m s c).session with state := st }, [], .prefillFailed i⟩ := by
      unfold ctxOf at hpre
      simp only [generate, if_neg h, if_neg (show ¬ c.maxTokens < 0 by omega), hpre]
    obtain ⟨hi, -, t, ht, hrej⟩ := hend
    refine ⟨j, st, hpass, by rw [hgen], by rw [hgen, hi], t, ht, hrej⟩

/-- A call changes the session of its setup in the state and the cached tokens only. -/
theorem generate_session (h : c.prompt ≠ []) : ∃ st toks,
    (generate m s c).session = { (setup m s c).session with state := st, cachedTokens := toks } := by
  by_cases hmax : c.maxTokens < 0
  · rw [generate_threw h hmax]
    exact ⟨(setup m s c).session.state, (setup m s c).session.cachedTokens, rfl⟩
  rcases hpre : prefill m (ctxLen m.config c.contextBudget) (setup m s c).start
      (setup m s c).session.state ((setup m s c).effective.dropLast.drop (setup m s c).start) with
    ⟨st, _ | i⟩
  · obtain ⟨n, st1, st', -, -, -, hsess, -⟩ := generateLoop_spec m (ctxLen m.config c.contextBudget)
      c.sample c.maxTokens.toNat 0 ((setup m s c).effective.getLastD 0)
      { (setup m s c).session with state := st, cachedTokens := (setup m s c).effective } []
    simp only [generate, if_neg h, if_neg hmax, hpre]
    exact ⟨st', _, hsess⟩
  · simp only [generate, if_neg h, if_neg hmax, hpre]
    exact ⟨st, (setup m s c).session.cachedTokens, rfl⟩

/-- A call with a prompt leaves the session initialised. -/
theorem generate_initialized (h : c.prompt ≠ []) : (generate m s c).session.isInitialized = true := by
  obtain ⟨st, toks, hsess⟩ := generate_session (m := m) (s := s) h
  rw [hsess]
  exact setup_initialized

theorem generate_lastAccessedMs : (generate m s c).session.lastAccessedMs = s.lastAccessedMs := by
  by_cases h : c.prompt = []
  · rw [generate_empty h]
  obtain ⟨st, toks, hsess⟩ := generate_session (m := m) (s := s) h
  rw [hsess]
  by_cases hr : Reinits s (ctxOf m c)
  · rw [setup_session_reinit hr]
  · obtain ⟨pos, hset⟩ := setup_session_keep (m := m) hr
    rw [hset]

/-- The passes of a call, however it ends: only at an end of sequence there is one more, after which the
position is not advanced. -/
theorem generate_passes (h : c.prompt ≠ []) (hctx : 0 < ctxOf m c) : ∃ ts st,
    Passes m (setup m s c).session.state ts st ∧
      (((generate m s c).stop ≠ .eos ∧ (generate m s c).session.state = st) ∨
        ((generate m s c).stop = .eos ∧ ∃ t, forwardPass m st t = some (generate m s c).session.state)) := by
  by_cases hmax : c.maxTokens < 0
  · rw [generate_threw h hmax]
    exact ⟨[], _, .nil _, Or.inl ⟨by simp, rfl⟩⟩
  rcases generate_spec (m := m) (s := s) h (by omega) hctx with ⟨j, st, hf⟩ | ⟨n, st, st', hg⟩
  · refine ⟨_, st, hf.passes, Or.inl ⟨?_, by rw [hf.session]⟩⟩
    rw [hf.stop]
    simp
  · refine ⟨_, st, hg.passes, ?_⟩
    have hstop := hg.stop
    rw [hg.session]
    cases hs : (generate m s c).stop <;> rw [hs] at hstop
    case eos => exact Or.inr ⟨rfl, _, hstop.1⟩
    case maxTokens => exact Or.inl ⟨by simp, hstop.1⟩
    case contextLimit => exact Or.inl ⟨by simp, hstop.1⟩
    case generationFailed => exact Or.inl ⟨by simp, hstop.1⟩
    all_goals exact hstop.elim

/-- What a call leaves of its setup: everything but the state and the cached tokens; and of the
state the RoPE table and the shape of the cache. -/
theorem generate_frame (h : c.prompt ≠ []) (hctx : 0 < ctxOf m c) : ∃ st toks,
    (generate m s c).session = { (setup m s c).session with state := st, cachedTokens := toks } ∧
      st.invFreq = (setup m s c).session.state.invFreq ∧
      ∀ layers cap, Shaped layers cap (setup m s c).session.state.cache →
        Shaped layers cap st.cache := by
  obtain ⟨st, toks, hsess⟩ := generate_session (m := m) (s := s) h
  obtain ⟨ts, st1, hpass, hend⟩ := generate_passes (m := m) (s := s) h hctx
  have hst : (generate m s c).session.state = st := by rw [hsess]
  rw [hst] at hend
  refine ⟨st, toks, hsess, ?_, fun layers cap hs => ?_⟩
  · rcases hend with ⟨-, rfl⟩ | ⟨-, t, hfp⟩
    · exact hpass.invFreq
    · rw [forwardPass_eq_some hfp]
      exact hpass.invFreq
  · rcases hend with ⟨-, rfl⟩ | ⟨-, t, hfp⟩
    · exact hpass.shaped hs
    · exact forwardPass_shaped hfp (hpass.shaped hs)

/-- The prefill starts below the context. -/
theorem start_lt_ctx (hctx : 0 < ctxOf m c) : ((setup m s c).start : ℤ) < ctxOf m c := by
  have h1 := setup_start_le_effective (m := m) (s := s) (c := c)
  have h2 := setup_effective_length (m := m) (s := s) hctx
  omega

/-- The position and the number of cached tokens a call leaves. -/
theorem generate_bounds (h : c.prompt ≠ []) (hctx : 0 < ctxOf m c) :
    0 ≤ (generate m s c).session.state.currentPos ∧
      (generate m s c).session.state.currentPos < ctxOf m c ∧
      ((generate m s c).session.cachedTokens.length : ℤ) ≤ max (s.cachedTokens.length : ℤ) (ctxOf m c) := by
  have hstart := start_lt_ctx (m := m) (s := s) hctx
  have hpos := setup_pos (m := m) (s := s) hctx
  have hlen := setup_effective_length (m := m) (s := s) hctx
  have hcached : ((setup m s c).session.cachedTokens.length : ℤ) ≤
      max (s.cachedTokens.length : ℤ) (ctxOf m c) := by
    rw [setup_cachedTokens]
    split_ifs
    · rw [List.length_nil]
      omega
    · omega
  by_cases hmax : c.maxTokens < 0
  · rw [generate_threw h hmax]
    show 0 ≤ (setup m s c).session.state.currentPos ∧
      (setup m s c).session.state.currentPos < ctxOf m c ∧ _
    exact ⟨by omega, by omega, hcached⟩
  rcases generate_spec (m := m) (s := s) h (by omega) hctx with ⟨j, st, hf⟩ | ⟨n, st, st', hg⟩
  · have hst := hf.passes.pos
    have hj : (((setup m s c).effective.dropLast.drop (setup m s c).start).take j).length ≤
        (setup m s c).effective.length - 1 - (setup m s c).start := by
      rw [List.length_take, List.length_drop, List.length_dropLast]
      omega
    have hle := setup_start_le_effective (m := m) (s := s) (c := c)
    rw [hf.session]
    show 0 ≤ st.currentPos ∧ st.currentPos < ctxOf m c ∧ _
    exact ⟨by omega, by omega, hcached⟩
  · have hl := hg.length_le hctx
    have hst' : st'.currentPos = st.currentPos := by
      have hstop := hg.stop
      cases hs : (generate m s c).stop <;> rw [hs] at hstop
      case eos => rw [forwardPass_eq_some hstop.1]
      case maxTokens => rw [hstop.1]
      case contextLimit => rw [hstop.1]
      case generationFailed => rw [hstop.1]
      all_goals exact hstop.elim
    have hst := hg.passes.pos
    rw [List.length_drop, List.length_dropLast] at hst
    have hle := setup_start_le_effective (m := m) (s := s) (c := c)
    have hlen2 : (setup m s c).effective.length ≤
        ((setup m s c).effective ++ drawn c.sample 0 n).length := by
      rw [List.length_append]
      omega
    rw [hg.session]
    show 0 ≤ st'.currentPos ∧ st'.currentPos < ctxOf m c ∧
      (((setup m s c).effective ++ drawn c.sample 0 n).length : ℤ) ≤ _
    exact ⟨by omega, by omega, by omega⟩

end DenseLite.Infer.Setup
