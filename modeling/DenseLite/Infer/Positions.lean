import DenseLite.Infer.Local

/-! # The positions of forward passes

The positions at which a call of `generate` runs `forward_pass`. They are a run of numbers from the first token that
is not reused; how far it goes is read off the call (`Reached`). The context of a local call comes from the memory of
the host and the settings, so nothing keeps its positions below the context length of the model
(`belowContext_iff`). -/

namespace DenseLite.Infer.Positions

open DenseLite.Lib.ByteStream DenseLite.Infer.State DenseLite.Infer.Generate DenseLite.Infer.Setup
open DenseLite.Infer.Local

/-! ### Positions -/

/-- The positions of the passes of the prefill. -/
def prefillPositions (m : DenseModel) (ctx : ℤ) : InferenceState → List Token → List ℤ
  | _, [] => []
  | st, t :: ts =>
    if ctx - 1 ≤ st.currentPos then []
    else st.currentPos ::
      match forwardPass m st t with
      | none => []
      | some st' => prefillPositions m ctx { st' with currentPos := st'.currentPos + 1 } ts

/-- The positions of the passes of the generation loop. -/
def generatePositions (m : DenseModel) (ctx : ℤ) (sample : ℕ → Token) : ℕ → ℕ → Token → InferenceState → List ℤ
  | 0, _, _, _ => []
  | fuel + 1, step, current, st =>
    if ctx - 1 ≤ st.currentPos then []
    else st.currentPos ::
      match forwardPass m st current with
      | none => []
      | some st' =>
        if isEos m (sample step) then []
        else generatePositions m ctx sample fuel (step + 1) (sample step)
          { st' with currentPos := st'.currentPos + 1 }

/-- The positions at which `generate` runs `forward_pass`. -/
def positions (m : DenseModel) (s : SessionKVState) (c : Call) : List ℤ :=
  if c.prompt = [] ∨ c.maxTokens < 0 then []
  else
    let ctx := ctxOf m c
    let u := setup m s c
    let tokens := u.effective.dropLast.drop u.start
    prefillPositions m ctx u.session.state tokens ++
      match prefill m ctx u.start u.session.state tokens with
      | (_, some _) => []
      | (st, none) => generatePositions m ctx c.sample c.maxTokens.toNat 0 (u.effective.getLastD 0) st

/-! ### The loops -/

section Loops

variable {m : DenseModel} {ctx p : ℤ} {sample : ℕ → Token}

/-- The head of a loop that reaches an index, and the loop after it. -/
theorem exists_index_succ_iff {n : ℕ} {pos : ℤ} {ok : ℕ → Prop} :
    (∃ i < n + 1, p = pos + i ∧ p < ctx - 1 ∧ ∀ j < i, ok j) ↔
      (p = pos ∧ pos < ctx - 1) ∨
        ok 0 ∧ ∃ i < n, p = pos + 1 + i ∧ p < ctx - 1 ∧ ∀ j < i, ok (j + 1) := by
  rw [Nat.exists_lt_succ_left]
  refine or_congr ?_ ?_
  · constructor
    · rintro ⟨hp, hlt, -⟩
      rw [Nat.cast_zero, add_zero] at hp
      exact ⟨hp, hp ▸ hlt⟩
    · rintro ⟨rfl, hlt⟩
      exact ⟨by simp, hlt, fun j hj => absurd hj (Nat.not_lt_zero j)⟩
  · constructor
    · rintro ⟨i, hi, hp, hlt, hok⟩
      obtain ⟨hfirst, hrest⟩ := Nat.forall_lt_succ_left.mp hok
      exact ⟨hfirst, i, hi, by rw [hp]; push_cast; ring, hlt, hrest⟩
    · rintro ⟨hfirst, i, hi, hp, hlt, hrest⟩
      exact ⟨i, hi, by rw [hp]; push_cast; ring, hlt, Nat.forall_lt_succ_left.mpr ⟨hfirst, hrest⟩⟩

theorem forwardRejects_of_eq_some {st st' : InferenceState} {t : Token} (h : forwardPass m st t = some st') :
    forwardRejects m t = false := by
  by_contra hne
  rw [forwardPass_eq_none_iff.mpr (by simpa using hne)] at h
  cases h

/-- **The prefill** passes over a token if the context has its position and no token before it is rejected. -/
theorem mem_prefillPositions_iff : ∀ {ts : List Token} {st : InferenceState},
    p ∈ prefillPositions m ctx st ts ↔ ∃ i < ts.length, p = st.currentPos + i ∧ p < ctx - 1 ∧
      ∀ j < i, forwardRejects m (ts.getD j 0) = false
  | [], _ => by simp [prefillPositions]
  | t :: ts, st => by
    unfold prefillPositions
    by_cases hctx : ctx - 1 ≤ st.currentPos
    · rw [if_pos hctx]
      refine iff_of_false List.not_mem_nil ?_
      rintro ⟨i, -, rfl, hlt, -⟩
      omega
    · rw [if_neg hctx, List.mem_cons, List.length_cons, exists_index_succ_iff, and_iff_left (not_le.mp hctx)]
      refine or_congr_right ?_
      cases hpass : forwardPass m st t with
      | none =>
        have hrejects : forwardRejects m t = true := forwardPass_eq_none_iff.mp hpass
        refine iff_of_false List.not_mem_nil fun h => ?_
        exact absurd (h.1.symm.trans hrejects) (by decide)
      | some st' =>
        have haccepts : forwardRejects m ((t :: ts).getD 0 0) = false := forwardRejects_of_eq_some hpass
        rw [and_iff_right haccepts]
        dsimp only
        rw [mem_prefillPositions_iff, forwardPass_eq_some hpass]
        rfl

/-- The tokens that the generation loop feeds to the model, from a step on. -/
def fed (sample : ℕ → Token) (step : ℕ) (current : Token) : ℕ → Token
  | 0 => current
  | j + 1 => sample (step + j)

theorem fed_succ (step : ℕ) (current : Token) (j : ℕ) :
    fed sample step current (j + 1) = fed sample (step + 1) (sample step) j := by
  cases j with
  | zero => rfl
  | succ j => exact congrArg sample (by omega)

/-- **The generation loop** passes over a token if it has the step and the context has the position, and none before
it is rejected or ends the sequence. -/
theorem mem_generatePositions_iff : ∀ {fuel step : ℕ} {current : Token} {st : InferenceState},
    p ∈ generatePositions m ctx sample fuel step current st ↔ ∃ i < fuel, p = st.currentPos + i ∧ p < ctx - 1 ∧
      ∀ j < i, forwardRejects m (fed sample step current j) = false ∧ isEos m (sample (step + j)) = false
  | 0, _, _, _ => by simp [generatePositions]
  | fuel + 1, step, current, st => by
    unfold generatePositions
    by_cases hctx : ctx - 1 ≤ st.currentPos
    · rw [if_pos hctx]
      refine iff_of_false List.not_mem_nil ?_
      rintro ⟨i, -, rfl, hlt, -⟩
      omega
    · rw [if_neg hctx, List.mem_cons, exists_index_succ_iff, and_iff_left (not_le.mp hctx)]
      refine or_congr_right ?_
      cases hpass : forwardPass m st current with
      | none =>
        have hrejects : forwardRejects m current = true := forwardPass_eq_none_iff.mp hpass
        refine iff_of_false List.not_mem_nil fun h => ?_
        exact absurd (h.1.1.symm.trans hrejects) (by decide)
      | some st' =>
        have haccepts : forwardRejects m (fed sample step current 0) = false := forwardRejects_of_eq_some hpass
        dsimp only
        by_cases heos : isEos m (sample step) = true
        · rw [if_pos heos]
          refine iff_of_false List.not_mem_nil fun h => ?_
          exact absurd (h.1.2.symm.trans heos) (by decide)
        · rw [if_neg heos, and_iff_right ⟨haccepts, by simpa using heos⟩, mem_generatePositions_iff,
            forwardPass_eq_some hpass]
          simp only [fed_succ, Nat.add_assoc, Nat.add_comm 1]

end Loops

/-! ### The call -/

/-- The token that is fed at a position: one of the prompt, or one that was drawn after it. -/
def tokenAt (m : DenseModel) (s : SessionKVState) (c : Call) (i : ℕ) : Token :=
  if i < (setup m s c).effective.length then (setup m s c).effective.getD i 0
  else c.sample (i - (setup m s c).effective.length)

/-- A call gets as far as a position: the context has it, no token before it is rejected, and it is one of the prompt,
or of a step that the call has before it draws an end of sequence. -/
structure Reached (m : DenseModel) (s : SessionKVState) (c : Call) (p : ℕ) : Prop where
  prompt : c.prompt ≠ []
  maxTokens : 0 ≤ c.maxTokens
  start : (setup m s c).start ≤ p
  room : (p : ℤ) < ctxOf m c - 1
  accepted : ∀ i, (setup m s c).start ≤ i → i < p → forwardRejects m (tokenAt m s c i) = false
  drawn : p + 1 < (setup m s c).effective.length ∨
    p + 1 - (setup m s c).effective.length < c.maxTokens.toNat ∧
      ∀ j < p + 1 - (setup m s c).effective.length, isEos m (c.sample j) = false

section Call

variable {m : DenseModel} {s : SessionKVState} {c : Call} {p q : ℕ}

/-- A call that reaches a position has reached those before it. -/
theorem Reached.mono (h : Reached m s c p) (hstart : (setup m s c).start ≤ q) (hle : q ≤ p) :
    Reached m s c q where
  prompt := h.prompt
  maxTokens := h.maxTokens
  start := hstart
  room := by have := h.room; omega
  accepted i hi hlt := h.accepted i hi (by omega)
  drawn := by
    rcases h.drawn with hprompt | ⟨hsteps, heos⟩
    · exact Or.inl (by omega)
    · exact Or.inr ⟨by omega, fun j hj => heos j (by omega)⟩

/-- The tokens of the prefill. -/
theorem getD_prefill {j : ℕ} (hj : (setup m s c).start + j + 1 < (setup m s c).effective.length) :
    ((setup m s c).effective.dropLast.drop (setup m s c).start).getD j 0 =
      tokenAt m s c ((setup m s c).start + j) := by
  unfold tokenAt
  rw [if_pos (by omega), List.getD_eq_getElem?_getD, List.getD_eq_getElem?_getD, List.getElem?_drop,
    List.getElem?_dropLast, if_pos (by omega)]

/-- The tokens of the generation loop. -/
theorem fed_eq_tokenAt (hne : (setup m s c).effective ≠ []) (j : ℕ) :
    fed c.sample 0 ((setup m s c).effective.getLastD 0) j =
      tokenAt m s c ((setup m s c).effective.length - 1 + j) := by
  have hpos := List.length_pos_iff.mpr hne
  unfold tokenAt
  cases j with
  | zero =>
    rw [if_pos (by omega), List.getD_eq_getElem?_getD, Nat.add_zero, ← List.getLast?_eq_getElem?,
      ← List.getLastD_eq_getLast?]
    rfl
  | succ j =>
    rw [if_neg (by omega)]
    exact congrArg c.sample (by omega)

/-- A call of `generate` on a context of two tokens or more feeds at least one token. -/
theorem effective_ne_nil (hctx : 2 ≤ ctxOf m c) (hprompt : c.prompt ≠ []) : (setup m s c).effective ≠ [] := by
  have hlength := setup_effective_length (m := m) (s := s) (c := c) (by omega)
  have hpos := List.length_pos_iff.mpr hprompt
  refine List.length_pos_iff.mp ?_
  omega

/-- The passes of the prefill. -/
theorem mem_prefillPositions_setup_iff (hctx : 2 ≤ ctxOf m c) :
    (p : ℤ) ∈ prefillPositions m (ctxOf m c) (setup m s c).session.state
        ((setup m s c).effective.dropLast.drop (setup m s c).start) ↔
      (setup m s c).start ≤ p ∧ p + 1 < (setup m s c).effective.length ∧ (p : ℤ) < ctxOf m c - 1 ∧
        ∀ i, (setup m s c).start ≤ i → i < p → forwardRejects m (tokenAt m s c i) = false := by
  rw [mem_prefillPositions_iff, setup_pos (by omega), List.length_drop, List.length_dropLast]
  constructor
  · rintro ⟨i, hi, hp, hlt, hok⟩
    refine ⟨by omega, by omega, hlt, fun k hk hkp => ?_⟩
    have hk' := hok (k - (setup m s c).start) (by omega)
    rwa [getD_prefill (by omega), Nat.add_sub_cancel' hk] at hk'
  · rintro ⟨hstart, hlast, hlt, hok⟩
    refine ⟨p - (setup m s c).start, by omega, by omega, hlt, fun j hj => ?_⟩
    rw [getD_prefill (by omega)]
    exact hok _ (by omega) (by omega)

/-- The passes of the generation loop, where the prefill got through. -/
theorem mem_generatePositions_setup_iff {st : InferenceState} (hne : (setup m s c).effective ≠ [])
    (hpos : st.currentPos = ((setup m s c).effective.length : ℤ) - 1) :
    (p : ℤ) ∈ generatePositions m (ctxOf m c) c.sample c.maxTokens.toNat 0 ((setup m s c).effective.getLastD 0) st ↔
      (setup m s c).effective.length ≤ p + 1 ∧ p + 1 - (setup m s c).effective.length < c.maxTokens.toNat ∧
        (p : ℤ) < ctxOf m c - 1 ∧
        (∀ i, (setup m s c).effective.length ≤ i + 1 → i < p → forwardRejects m (tokenAt m s c i) = false) ∧
        ∀ j < p + 1 - (setup m s c).effective.length, isEos m (c.sample j) = false := by
  have hlength := List.length_pos_iff.mpr hne
  rw [mem_generatePositions_iff, hpos]
  constructor
  · rintro ⟨i, hi, hp, hlt, hok⟩
    refine ⟨by omega, by omega, hlt, fun k hk hkp => ?_, fun j hj => ?_⟩
    · have hk' := (hok (k + 1 - (setup m s c).effective.length) (by omega)).1
      rw [fed_eq_tokenAt hne] at hk'
      rwa [show (setup m s c).effective.length - 1 + (k + 1 - (setup m s c).effective.length) = k by omega] at hk'
    · have hj' := (hok j (by omega)).2
      rwa [Nat.zero_add] at hj'
  · rintro ⟨hlast, hsteps, hlt, hok, heos⟩
    refine ⟨p + 1 - (setup m s c).effective.length, hsteps, by omega, hlt, fun j hj => ?_⟩
    rw [fed_eq_tokenAt hne, Nat.zero_add]
    exact ⟨hok _ (by omega) (by omega), heos j hj⟩

/-- **The positions of a call** are those that it reaches. -/
theorem mem_positions_iff (hctx : 2 ≤ ctxOf m c) : (p : ℤ) ∈ positions m s c ↔ Reached m s c p := by
  unfold positions
  by_cases hnone : c.prompt = [] ∨ c.maxTokens < 0
  · rw [if_pos hnone]
    refine iff_of_false List.not_mem_nil fun h => ?_
    exact hnone.elim h.prompt fun hmax => absurd h.maxTokens (not_le.mpr hmax)
  obtain ⟨hprompt, hmax⟩ := not_or.mp hnone
  have hne : (setup m s c).effective ≠ [] := effective_ne_nil hctx hprompt
  have hlength := List.length_pos_iff.mpr hne
  have heffective := setup_effective_length (m := m) (s := s) (c := c) (by omega)
  have hstart := setup_start_le_effective (m := m) (s := s) (c := c)
  have hstate := setup_pos (m := m) (s := s) (c := c) (by omega)
  obtain ⟨j, hj, hpass, hend⟩ := prefill_spec m (ctxOf m c)
    ((setup m s c).effective.dropLast.drop (setup m s c).start) (setup m s c).start (setup m s c).session.state
  rw [if_neg hnone]
  dsimp only
  rw [List.mem_append, mem_prefillPositions_setup_iff hctx]
  rcases hpre : prefill m (ctxOf m c) (setup m s c).start (setup m s c).session.state
      ((setup m s c).effective.dropLast.drop (setup m s c).start) with ⟨st, _ | k⟩
  · -- the prefill got through, and nothing in it was rejected
    rw [hpre] at hpass hend
    dsimp only at hpass hend ⊢
    rw [List.length_drop, List.length_dropLast] at hj hend
    have hall : j = (setup m s c).effective.length - 1 - (setup m s c).start := by omega
    have hpos := hpass.pos
    rw [List.length_take, List.length_drop, List.length_dropLast, hstate] at hpos
    have haccepted : ∀ i, (setup m s c).start ≤ i → i + 1 < (setup m s c).effective.length →
        forwardRejects m (tokenAt m s c i) = false := by
      intro i hi hlt
      have hmem := hpass.accepted (tokenAt m s c i) (List.mem_of_getElem? (i := i - (setup m s c).start) ?_)
      · exact hmem
      · have htoken := getD_prefill (m := m) (s := s) (c := c) (j := i - (setup m s c).start) (by omega)
        rw [Nat.add_sub_cancel' hi] at htoken
        rw [List.getElem?_take, if_pos (by omega), ← htoken, List.getD_eq_getElem?_getD, List.getElem?_eq_getElem
          (by rw [List.length_drop, List.length_dropLast]; omega)]
        rfl
    rw [mem_generatePositions_setup_iff hne (by rw [hpos]; omega)]
    constructor
    · rintro (⟨hs, hlast, hlt, hok⟩ | ⟨hlast, hsteps, hlt, hok, heos⟩)
      · exact ⟨hprompt, not_lt.mp hmax, hs, hlt, hok, Or.inl hlast⟩
      · refine ⟨hprompt, not_lt.mp hmax, by omega, hlt, fun i hi hip => ?_, Or.inr ⟨hsteps, heos⟩⟩
        rcases Nat.lt_or_ge (i + 1) (setup m s c).effective.length with hin | hout
        · exact haccepted i hi hin
        · exact hok i hout hip
    · intro h
      by_cases hin : p + 1 < (setup m s c).effective.length
      · exact Or.inl ⟨h.start, hin, h.room, h.accepted⟩
      · obtain ⟨hsteps, heos⟩ := h.drawn.resolve_left hin
        exact Or.inr ⟨by omega, hsteps, h.room, fun i hi hip => h.accepted i (by omega) hip, heos⟩
  · -- a token of the prefill was rejected, and no position after it is reached
    rw [hpre] at hend
    obtain ⟨-, -, t, ht, hrejected⟩ := hend
    rw [or_iff_left List.not_mem_nil]
    have hindex := (List.getElem?_eq_some_iff.mp ht).1
    rw [List.length_drop, List.length_dropLast] at hindex
    have htoken : tokenAt m s c ((setup m s c).start + j) = t := by
      rw [← getD_prefill (by omega), List.getD_eq_getElem?_getD, ht]
      rfl
    constructor
    · rintro ⟨hs, hlast, hlt, hok⟩
      exact ⟨hprompt, not_lt.mp hmax, hs, hlt, hok, Or.inl hlast⟩
    · intro h
      refine ⟨h.start, ?_, h.room, h.accepted⟩
      by_contra hlast
      have hacc := h.accepted ((setup m s c).start + j) (by omega) (by omega)
      rw [htoken, hrejected] at hacc
      cases hacc

theorem nonneg_of_mem_positions (hctx : 2 ≤ ctxOf m c) {pos : ℤ} (h : pos ∈ positions m s c) : 0 ≤ pos := by
  have hstate := setup_pos (m := m) (s := s) (c := c) (by omega)
  unfold positions at h
  split_ifs at h
  · cases h
  dsimp only at h
  rcases List.mem_append.mp h with h | h
  · obtain ⟨i, -, rfl, -⟩ := mem_prefillPositions_iff.mp h
    omega
  · obtain ⟨j, -, hpass, -⟩ := prefill_spec m (ctxOf m c)
      ((setup m s c).effective.dropLast.drop (setup m s c).start) (setup m s c).start (setup m s c).session.state
    rcases hpre : prefill m (ctxOf m c) (setup m s c).start (setup m s c).session.state
        ((setup m s c).effective.dropLast.drop (setup m s c).start) with ⟨st, _ | k⟩
    · rw [hpre] at h hpass
      obtain ⟨i, -, rfl, -⟩ := mem_generatePositions_iff.mp h
      have hpos := hpass.pos
      dsimp only at hpos
      omega
    · rw [hpre] at h
      cases h

/-- The positions of a call are all below a bound if the first one that is not below it is not reached. -/
theorem forall_positions_lt_iff (hctx : 2 ≤ ctxOf m c) {bound : ℕ} :
    (∀ pos ∈ positions m s c, pos < bound) ↔ ¬ Reached m s c (max (setup m s c).start bound) := by
  constructor
  · intro h hreached
    have hlt := h _ ((mem_positions_iff hctx).mpr hreached)
    omega
  · intro h pos hmem
    by_contra hge
    obtain ⟨p, rfl⟩ := Int.eq_ofNat_of_zero_le (nonneg_of_mem_positions hctx hmem)
    have hreached := (mem_positions_iff hctx).mp hmem
    have hstart := hreached.start
    exact h (hreached.mono (le_max_left _ _) (by omega))

end Call

/-! ### The context length of the model -/

/-- **The context never exceeds the model**: all passes of a local call are at positions below the context length. -/
def BelowContext (contextWindow : ℤ) (host : HostMemory) (m : LocalModel) (prompt : Bytes) (maxTokens : ℤ)
    (sample : ℕ → Token) (s : SessionKVState) : Prop :=
  0 < m.config.contextLength → ∀ c, localCall contextWindow host m prompt maxTokens sample = some c →
    ∀ pos ∈ positions m.toDenseModel s c, pos < m.config.contextLength.toNat

/-- **The context never exceeds the model** exactly when no call gets as far as the context length of the model, or
begins beyond it with what it reuses. -/
theorem belowContext_iff (contextWindow : ℤ) (host : HostMemory) (m : LocalModel) (prompt : Bytes) (maxTokens : ℤ)
    (sample : ℕ → Token) (s : SessionKVState) :
    BelowContext contextWindow host m prompt maxTokens sample s ↔
      (0 < m.config.contextLength → ∀ c, localCall contextWindow host m prompt maxTokens sample = some c →
        ¬ Reached m.toDenseModel s c (max (setup m.toDenseModel s c).start m.config.contextLength.toNat)) := by
  refine forall_congr' fun _ => forall_congr' fun c => forall_congr' fun hc => ?_
  obtain ⟨hbudget, -⟩ := localCall_eq_some_iff.mp hc
  exact forall_positions_lt_iff (by rw [ctxOf_localCall hc]; omega)

/-- A model with a context of 32 tokens, and a prompt of 40: the budget is 8192 tokens. -/
theorem not_belowContext_short : ¬ BelowContext 8192
    { availRam := 2147483648, ceiling := 8589934592, rss := 1073741824 }
    (byteModel { contextLength := 32, numLayers := 28, numKvHeads := 2, headDim := 128, vocabSize := 256 })
    (List.replicate 40 0x61) 16 (fun _ => 0) {} := by
  intro h
  have hreached := (forall_positions_lt_iff (by decide +kernel)).mp (h (by decide) _ rfl)
  refine hreached ⟨by decide +kernel, by decide, ?_, ?_, ?_, ?_⟩
  · decide +kernel
  · decide +kernel
  · decide +kernel
  · exact Or.inl (by decide +kernel)

end DenseLite.Infer.Positions
