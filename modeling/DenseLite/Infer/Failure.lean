import DenseLite.Infer.Reuse

/-! # What a failed call leaves in the session

A forward pass returns false on a token outside the vocabulary, or on a model it cannot run. In the
prefill the rows of the prompt have by then been written over those of the cached tokens, which are
replaced only after the prefill: `prefillFailed_reusable_iff`. In the generation the failing token is
already cached, and it has no row: `generationFailed_reusable_iff`. -/

namespace DenseLite.Infer.Failure

open DenseLite.Lib.ByteStream DenseLite.Lib.FlatRows
open DenseLite.Infer.State DenseLite.Infer.Generate DenseLite.Infer.Setup DenseLite.Infer.Reuse

/-- Row `p` of the cache is the row of the tokens `ts` up to `p`: a prefill of these runs through, and
writes that row. -/
def HasRow (m : DenseModel) (rope : RopeTable) (cache : List LayerCache) (ts : List Token) (p : ℕ) :
    Prop :=
  (∀ t ∈ ts.take (p + 1), forwardRejects m t = false) ∧
    (freshRows m rope ts)[p]? = some (kvRowAt m.config.numKvFeatures p cache)

/-- An initialised session whose cached tokens describe its rows. -/
structure Described (m : DenseModel) (cap : ℕ) (s : SessionKVState) : Prop where
  initialized : s.isInitialized = true
  shaped : Shaped m.config.numLayers.toNat cap s.state.cache
  rows : ∀ p < s.cachedTokens.length, HasRow m s.state.invFreq s.state.cache s.cachedTokens p

/-- Every index that a later call can match has the row of the cached tokens. -/
def Reusable (m : DenseModel) (s : SessionKVState) : Prop :=
  ∀ (c : Call) (p : ℕ), 0 < ctxOf m c → p < (setup m s c).start →
    HasRow m s.state.invFreq s.state.cache s.cachedTokens p

/-- The failures after which the session is reusable. In the prefill: the session was cleared before
it, or every row written over a cached token is that token's row. In the generation: no later context
is long enough to match the failing token, and the rows before it fit the layers. -/
def Harmless (m : DenseModel) (cap : ℕ) (s : SessionKVState) (c : Call) : Stop → Prop
  | .prefillFailed i => Reinits s (ctxOf m c) ∨ Truncates (ctxOf m c) c.prompt ∨
      ∀ p, matchPrefix s.cachedTokens c.prompt.dropLast ≤ p → p < i → p < s.cachedTokens.length →
        (freshRows m s.state.invFreq c.prompt)[p]? =
          (freshRows m s.state.invFreq s.cachedTokens)[p]?
  | .generationFailed g =>
      min (max s.maxContextAllocated (ctxOf m c)) 65536 ≤
          min c.prompt.length (ctxOf m c - 1).toNat + g + 1 ∧
        (m.config.numLayers = 0 ∨
          (min c.prompt.length (ctxOf m c - 1).toNat + g - 1) * m.config.numKvFeatures ≤ cap)
  | _ => True

/-! ### Which indices a later call can match -/

section Match

variable {m : DenseModel} {s : SessionKVState}

theorem matchPrefix_take : ∀ {ts : List Token} {k : ℕ}, k ≤ ts.length → matchPrefix ts (ts.take k) = k
  | [], k, h => by
    have hk : k = 0 := Nat.le_zero.mp h
    rw [hk]
    rfl
  | _ :: _, 0, _ => rfl
  | t :: ts, k + 1, h => by
    rw [List.take_succ_cons, matchPrefix, if_pos rfl, matchPrefix_take (Nat.le_of_succ_le_succ h)]

/-- A match stays inside the cached tokens, and below a context of the session. -/
theorem match_bound {c : Call} {p : ℕ} (hctx : 0 < ctxOf m c) (hp : p < (setup m s c).start) :
    p < s.cachedTokens.length ∧ (p : ℤ) + 2 < min s.maxContextAllocated 65536 := by
  have hle := ctx_le m c
  have h1 := setup_start_le (m := m) (s := s) (c := c)
  have h2 := setup_start_le_cached (m := m) (s := s) (c := c)
  have hcase : ¬ (Reinits s (ctxOf m c) ∨ Truncates (ctxOf m c) c.prompt) := by
    intro h
    rw [setup_start, if_pos h] at hp
    omega
  obtain ⟨hr, ht⟩ := not_or.mp hcase
  have hr' := (not_or.mp hr).2
  have ht' : ¬ (ctxOf m c ≤ c.prompt.length) := fun h' => ht ⟨by omega, h'⟩
  exact ⟨by omega, by omega⟩

/-- Every index in these bounds is matched by some call. -/
theorem exists_match (hi : s.isInitialized = true) {p : ℕ} (hp : p < s.cachedTokens.length)
    (hroom : (p : ℤ) + 2 < min s.maxContextAllocated 65536) :
    ∃ c : Call, 0 < ctxOf m c ∧ p < (setup m s c).start := by
  set c : Call := ⟨s.cachedTokens.take (p + 1) ++ [0], 0, min s.maxContextAllocated 65536, fun _ => 0⟩
    with hc
  have hctx : ctxOf m c = min s.maxContextAllocated 65536 := by
    have hb : 0 < c.contextBudget := by
      show 0 < min s.maxContextAllocated 65536
      omega
    unfold ctxOf ctxLen
    rw [if_pos hb]
    show min (min s.maxContextAllocated 65536) 65536 = _
    omega
  have hlen : c.prompt.length = p + 2 := by
    rw [hc, List.length_append, List.length_take, List.length_singleton]
    omega
  have hcase : ¬ (Reinits s (ctxOf m c) ∨ Truncates (ctxOf m c) c.prompt) := by
    rintro ((h | h) | h)
    · simp [hi] at h
    · omega
    · have := h.2
      omega
  refine ⟨c, by omega, ?_⟩
  rw [setup_start, if_neg hcase, hc, List.dropLast_concat, matchPrefix_take (by omega)]
  omega

/-- A reusable session has the rows of all tokens that can be matched. -/
theorem reusable_iff (hi : s.isInitialized = true) : Reusable m s ↔
    ∀ p < s.cachedTokens.length, (p : ℤ) + 2 < min s.maxContextAllocated 65536 →
      HasRow m s.state.invFreq s.state.cache s.cachedTokens p := by
  constructor
  · intro h p hp hroom
    obtain ⟨c, hctx, hlt⟩ := exists_match (m := m) hi hp hroom
    exact h c p hctx hlt
  · intro h c p hctx hlt
    obtain ⟨hp, hroom⟩ := match_bound hctx hlt
    exact h p hp hroom

end Match

/-! ### Rows that are there, and rows that fit -/

section Rows

variable {m : DenseModel} {rope : RopeTable} {cache : List LayerCache} {cap : ℕ} {ts : List Token}

theorem hasRow_of_filled (hf : Filled m rope cache ts) (ha : ∀ t ∈ ts, forwardRejects m t = false)
    {p : ℕ} (hp : p < ts.length) : HasRow m rope cache ts p := by
  refine ⟨fun t ht => ha t (List.mem_of_mem_take ht), ?_⟩
  unfold Filled at hf
  rw [← hf, getElem?_rowsUpTo hp]

theorem filled_of_hasRow (h : ∀ p < ts.length, HasRow m rope cache ts p) : Filled m rope cache ts := by
  refine List.ext_getElem? fun p => ?_
  rcases Nat.lt_or_ge p ts.length with hp | hp
  · rw [getElem?_rowsUpTo hp, (h p hp).2]
  · rw [List.getElem?_eq_none (by simpa using hp), List.getElem?_eq_none (by simpa using hp)]

theorem accepted_of_hasRow (h : ∀ p < ts.length, HasRow m rope cache ts p) :
    ∀ t ∈ ts, forwardRejects m t = false := by
  intro t ht
  have hpos : 0 < ts.length := List.length_pos_of_mem ht
  refine (h (ts.length - 1) (by omega)).1 t ?_
  rwa [show ts.length - 1 + 1 = ts.length by omega, List.take_length]

/-- A row of a model with layers fits the layers that hold it. -/
theorem row_fits (hs : Shaped m.config.numLayers.toNat cap cache) (hl : m.config.numLayers ≠ 0) {p : ℕ}
    (hrow : (freshRows m rope ts)[p]? = some (kvRowAt m.config.numKvFeatures p cache)) :
    (p + 1) * m.config.numKvFeatures ≤ cap := by
  rcases Nat.eq_zero_or_pos m.config.numKvFeatures with hw | hw
  · rw [hw]
    simp
  have hlt : p < ts.length := by
    have := (List.getElem?_eq_some_iff.mp hrow).1
    rwa [length_freshRows] at this
  rw [getElem?_freshRows m rope (List.getElem?_eq_getElem hlt), Option.some.injEq] at hrow
  have hpos : 0 < cache.length := by
    rw [hs.length]
    exact Nat.pos_of_ne_zero fun h0 => hl (UInt32.toNat_inj.mp h0)
  obtain ⟨l, hmem⟩ := List.exists_mem_of_length_pos hpos
  have hin : (row m.config.numKvFeatures p l.k, row m.config.numKvFeatures p l.v) ∈
      kvRowAt m.config.numKvFeatures p cache := List.mem_map_of_mem hmem
  rw [← hrow] at hin
  have hwidth := (m.kv_width _ _ _ _ hin).1
  have hfit := le_of_length_row hwidth hw
  rw [(hs.size l hmem).1] at hfit
  rw [Nat.add_mul, Nat.one_mul]
  exact hfit

/-- The rows of a filled cache fit its layers; without layers every size fits. -/
theorem filled_fits (hs : Shaped m.config.numLayers.toNat cap cache) (hf : Filled m rope cache ts) :
    ∃ cap', Shaped m.config.numLayers.toNat cap' cache ∧
      ts.length * m.config.numKvFeatures ≤ cap' := by
  by_cases hl : m.config.numLayers = 0
  · have hnil : cache = [] := by
      have := hs.length
      rw [hl] at this
      exact List.length_eq_zero_iff.mp this
    refine ⟨_, ⟨hs.length, ?_⟩, le_refl _⟩
    rw [hnil]
    intro c hc
    cases hc
  · refine ⟨cap, hs, ?_⟩
    rcases Nat.eq_zero_or_pos ts.length with h0 | hpos
    · rw [h0]
      simp
    · have hrow : (freshRows m rope ts)[ts.length - 1]? =
          some (kvRowAt m.config.numKvFeatures (ts.length - 1) cache) := by
        unfold Filled at hf
        rw [← hf, getElem?_rowsUpTo (by omega)]
      have := row_fits hs hl hrow
      rwa [show ts.length - 1 + 1 = ts.length by omega] at this

end Rows

/-! ### The two kinds of failure -/

section Failed

variable {m : DenseModel} {cap : ℕ} {s : SessionKVState} {c : Call}

theorem setup_maxContextAllocated (hi : s.isInitialized = true) :
    (setup m s c).session.maxContextAllocated = max s.maxContextAllocated (ctxOf m c) := by
  by_cases hr : Reinits s (ctxOf m c)
  · rw [setup_session_reinit hr]
    rcases hr with hr | hr
    · simp [hi] at hr
    · show ctxOf m c = _
      omega
  · obtain ⟨pos, hs⟩ := setup_session_keep (m := m) hr
    have := (not_or.mp hr).2
    rw [hs]
    show s.maxContextAllocated = _
    omega

/-- A call that ends with a failure got past its setup. -/
theorem started_of_stop (h1 : (generate m s c).stop ≠ .emptyPrompt)
    (h2 : (generate m s c).stop ≠ .threw) : c.prompt ≠ [] ∧ 0 ≤ c.maxTokens := by
  have hp : c.prompt ≠ [] := fun h => h1 (by rw [generate_empty h])
  refine ⟨hp, ?_⟩
  by_contra hmax
  exact h2 (by rw [generate_threw hp (by omega)])

theorem prefillFailed_of_stop {i : ℕ} (hctx : 0 < ctxOf m c)
    (hstop : (generate m s c).stop = .prefillFailed i) :
    ∃ j st, PrefillFailed m s c j st ∧ i = (setup m s c).start + j := by
  obtain ⟨hp, hmax⟩ := started_of_stop (m := m) (s := s) (c := c) (by simp [hstop]) (by simp [hstop])
  rcases generate_spec (s := s) hp hmax hctx with ⟨j, st, hf⟩ | ⟨n, st, st', hg⟩
  · refine ⟨j, st, hf, ?_⟩
    have := hf.stop
    rw [hstop] at this
    exact Stop.prefillFailed.inj this
  · have := hg.stop
    rw [hstop] at this
    exact this.elim

theorem generationFailed_of_stop {g : ℕ} (hctx : 0 < ctxOf m c)
    (hstop : (generate m s c).stop = .generationFailed g) :
    c.prompt ≠ [] ∧ ∃ st, Generated m s c g st st ∧ st.currentPos < ctxOf m c - 1 ∧
      forwardRejects m (((setup m s c).effective ++ drawn c.sample 0 g).getLastD 0) = true := by
  obtain ⟨hp, hmax⟩ := started_of_stop (m := m) (s := s) (c := c) (by simp [hstop]) (by simp [hstop])
  rcases generate_spec (s := s) hp hmax hctx with ⟨j, st, hf⟩ | ⟨n, st, st', hg⟩
  · have := hf.stop
    simp [hstop] at this
  · have h := hg.stop
    rw [hstop] at h
    obtain ⟨rfl, rfl, -, hroom, hrej⟩ := h
    exact ⟨hp, st', hg, hroom, hrej⟩

/-- The setup of a call on a described session starts with the rows of its prompt. -/
theorem Described.setup_filled (h : Described m cap s) :
    Filled m (setup m s c).session.state.invFreq (setup m s c).session.state.cache
      (c.prompt.take (setup m s c).start) := by
  rw [setup_start]
  split_ifs with hcase
  · exact filled_nil _ _ _
  · obtain ⟨pos, hs⟩ := setup_session_keep (m := m) (not_or.mp hcase).1
    rw [hs, take_prompt]
    exact (filled_of_hasRow h.rows).take _

theorem Described.setup_accepted (h : Described m cap s) :
    ∀ t ∈ c.prompt.take (setup m s c).start, forwardRejects m t = false := by
  intro t ht
  rw [setup_start] at ht
  split_ifs at ht with hcase
  · simp [List.take_zero] at ht
  · rw [take_prompt] at ht
    exact accepted_of_hasRow h.rows t (List.mem_of_mem_take ht)

/-- The index of a failed prefill is one of the prompt but for its last token. -/
theorem prefillFailed_lt {j : ℕ} {st : InferenceState} (ht : ¬ Truncates (ctxOf m c) c.prompt)
    (hf : PrefillFailed m s c j st) : (setup m s c).start + j < c.prompt.length - 1 := by
  obtain ⟨t, hget, -⟩ := hf.rejected
  have hlt := (List.getElem?_eq_some_iff.mp hget).1
  rw [setup_effective, if_neg ht, List.length_drop, List.length_dropLast] at hlt
  omega

/-- The rows a failed prefill has written over cached tokens are those of the prompt. -/
theorem prefillFailed_filled {j : ℕ} {st : InferenceState} (h : Described m cap s)
    (hctx : 0 < ctxOf m c) (hr : ¬ Reinits s (ctxOf m c)) (ht : ¬ Truncates (ctxOf m c) c.prompt)
    (hf : PrefillFailed m s c j st) :
    Filled m s.state.invFreq st.cache
      (c.prompt.take (min ((setup m s c).start + j) s.cachedTokens.length)) := by
  have hstart := setup_start_le_cached (m := m) (s := s) (c := c)
  have hlt := prefillFailed_lt ht hf
  have hpos := setup_pos (m := m) (s := s) hctx
  have hbelow := h.setup_filled (c := c)
  obtain ⟨cap', hshape, hfit⟩ := filled_fits h.shaped (filled_of_hasRow h.rows)
  obtain ⟨pos, hs⟩ := setup_session_keep (m := m) hr
  have hpass := hf.passes
  rw [setup_effective, if_neg ht] at hpass
  set k := min ((setup m s c).start + j) s.cachedTokens.length with hk
  set start := (setup m s c).start with hst
  -- the passes over cached tokens first, then those after them
  rw [← List.take_append_drop (k - start) ((c.prompt.dropLast.drop start).take j), List.take_take,
    Nat.min_eq_left (by omega)] at hpass
  obtain ⟨st1, hpass1, hpass2⟩ := hpass.split
  have hlen1 : ((c.prompt.dropLast.drop start).take (k - start)).length = k - start := by
    rw [List.length_take, List.length_drop, List.length_dropLast]
    omega
  have htake : c.prompt.take start ++ (c.prompt.dropLast.drop start).take (k - start) =
      c.prompt.take k := by
    rw [← take_dropLast (by omega : start ≤ c.prompt.length - 1), ← List.take_add,
      show start + (k - start) = k by omega, take_dropLast (by omega)]
  have hshape0 : Shaped m.config.numLayers.toNat cap' (setup m s c).session.state.cache := by
    rw [hs]
    exact hshape
  have hroom : (c.prompt.take start).length + ((c.prompt.dropLast.drop start).take (k - start)).length ≤
      s.cachedTokens.length := by
    rw [hlen1, List.length_take]
    omega
  have hfill1 := hpass1.filled hshape0 hbelow
    (by rw [hpos, List.length_take]; omega) ((Nat.mul_le_mul_right _ hroom).trans hfit)
  rw [htake, hpass1.invFreq, hs] at hfill1
  have hpos1 := hpass1.pos
  rw [hpos, hlen1] at hpos1
  refine hfill1.congr fun p hp => ?_
  rw [List.length_take] at hp
  exact hpass2.row_eq (hpass1.shaped hshape0) (by omega) (Or.inl (by omega))

/-- **After a failed prefill** the session is reusable exactly when it was cleared, or no row of a
cached token was changed. -/
theorem prefillFailed_reusable_iff {i : ℕ} (h : Described m cap s) (hctx : 0 < ctxOf m c)
    (hstop : (generate m s c).stop = .prefillFailed i) :
    Reusable m (generate m s c).session ↔ Harmless m cap s c (.prefillFailed i) := by
  obtain ⟨j, st, hf, rfl⟩ := prefillFailed_of_stop hctx hstop
  have hi : (generate m s c).session.isInitialized = true := by
    rw [hf.session]
    exact setup_initialized
  rw [reusable_iff hi, hf.session]
  show (∀ p < (setup m s c).session.cachedTokens.length,
    (p : ℤ) + 2 < min (setup m s c).session.maxContextAllocated 65536 →
      HasRow m st.invFreq st.cache (setup m s c).session.cachedTokens p) ↔ _
  rw [setup_cachedTokens, hf.passes.invFreq]
  by_cases hcase : Reinits s (ctxOf m c) ∨ Truncates (ctxOf m c) c.prompt
  · -- the setup has dropped the cached tokens
    rw [if_pos hcase]
    refine iff_of_true (fun p hp => absurd hp (Nat.not_lt_zero _)) ?_
    rcases hcase with hr | ht
    · exact Or.inl hr
    · exact Or.inr (Or.inl ht)
  rw [if_neg hcase]
  obtain ⟨hr, ht⟩ := not_or.mp hcase
  have hfill := prefillFailed_filled h hctx hr ht hf
  have hlt := prefillFailed_lt ht hf
  have hle := ctx_le m c
  have hpos := setup_pos (m := m) (s := s) hctx
  have hall := setup_maxContextAllocated (m := m) (c := c) h.initialized
  have hlong : ¬ (ctxOf m c ≤ c.prompt.length) := fun h' => ht ⟨by omega, h'⟩
  have hstart : (setup m s c).start = matchPrefix s.cachedTokens c.prompt.dropLast := by
    rw [setup_start, if_neg hcase]
  obtain ⟨pos, hs⟩ := setup_session_keep (m := m) hr
  have hrope : (setup m s c).session.state.invFreq = s.state.invFreq := by rw [hs]
  have hcache : (setup m s c).session.state.cache = s.state.cache := by rw [hs]
  have hshape : Shaped m.config.numLayers.toNat cap (setup m s c).session.state.cache := by
    rw [hcache]
    exact h.shaped
  -- inside the written part the rows are those of the prompt
  have hwritten : ∀ p, p < (setup m s c).start + j → p < s.cachedTokens.length →
      (freshRows m s.state.invFreq c.prompt)[p]? =
        some (kvRowAt m.config.numKvFeatures p st.cache) := by
    intro p hp1 hp2
    unfold Filled at hfill
    have hlen : (c.prompt.take (min ((setup m s c).start + j) s.cachedTokens.length)).length =
        min ((setup m s c).start + j) s.cachedTokens.length := by
      rw [List.length_take]
      omega
    rw [hlen, ← take_freshRows] at hfill
    rw [← List.getElem?_take_of_lt (show p < min ((setup m s c).start + j) s.cachedTokens.length by omega),
      ← hfill, getElem?_rowsUpTo (by omega)]
  rw [hrope]
  constructor
  · intro hrows
    refine Or.inr (Or.inr fun p hp1 hp2 hp3 => ?_)
    rw [hwritten p hp2 hp3, (hrows p hp3 (by omega)).2]
  · rintro (h' | h' | hsame) p hp hroom
    · exact absurd h' hr
    · exact absurd h' ht
    · refine ⟨(h.rows p hp).1, ?_⟩
      by_cases hin : (setup m s c).start ≤ p ∧ p < (setup m s c).start + j
      · rw [← hwritten p hin.2 hp, hsame p (by omega) hin.2 hp]
      · have hrow : kvRowAt m.config.numKvFeatures p st.cache =
            kvRowAt m.config.numKvFeatures p s.state.cache := by
          rw [← hcache]
          refine hf.passes.row_eq hshape (by omega) ?_
          rw [hpos, List.length_take]
          omega
        rw [hrow]
        exact (h.rows p hp).2

/-- The tokens before the failing one have been accepted. -/
theorem generationFailed_accepted {g : ℕ} {st st' : InferenceState} (h : Described m cap s)
    (hg : Generated m s c g st st') :
    ∀ t ∈ ((setup m s c).effective ++ drawn c.sample 0 g).dropLast, forwardRejects m t = false := by
  intro t ht
  have hstart := setup_start_le_effective (m := m) (s := s) (c := c)
  rw [← List.take_append_drop (setup m s c).start
    ((setup m s c).effective ++ drawn c.sample 0 g).dropLast] at ht
  rcases List.mem_append.mp ht with ht | ht
  · rw [take_dropLast (by rw [List.length_append]; omega),
      List.take_append_of_le_length (by omega), setup_take] at ht
    exact h.setup_accepted t ht
  · exact hg.passes.accepted t ht

/-- The rows of the tokens before the failing one are there, if they fit. -/
theorem generationFailed_filled {g : ℕ} {st st' : InferenceState} (h : Described m cap s)
    (hctx : 0 < ctxOf m c) (hg : Generated m s c g st st')
    (hfit : m.config.numLayers = 0 ∨
      (((setup m s c).effective ++ drawn c.sample 0 g).length - 1) * m.config.numKvFeatures ≤ cap) :
    Filled m st.invFreq st.cache ((setup m s c).effective ++ drawn c.sample 0 g).dropLast := by
  have hshape := h.shaped
  rw [← setup_cache_later (c := c) h.shaped] at hshape
  rcases hfit with hl | hfit
  · -- without layers the cache is empty, and has any size
    have hany : Shaped m.config.numLayers.toNat
        ((((setup m s c).effective ++ drawn c.sample 0 g).length - 1) * m.config.numKvFeatures)
        (setup m s c).session.state.cache := by
      have hlen := hshape.length
      refine ⟨hlen, fun l hmem => ?_⟩
      rw [hl] at hlen
      simp [List.length_eq_zero_iff.mp hlen] at hmem
    exact generated_filled hctx hany h.setup_filled (le_refl _) hg
  · exact generated_filled hctx hshape h.setup_filled hfit hg

/-- **After a failed generation** the session is reusable exactly when no later context reaches the
failing token, and the rows before it fit. -/
theorem generationFailed_reusable_iff {g : ℕ} (h : Described m cap s) (hctx : 0 < ctxOf m c)
    (hstop : (generate m s c).stop = .generationFailed g) :
    Reusable m (generate m s c).session ↔ Harmless m cap s c (.generationFailed g) := by
  obtain ⟨hp, st, hg, hroom, hrej⟩ := generationFailed_of_stop hctx hstop
  have hne := cached_ne_nil hp hctx hg hroom
  have hpos := hg.pos hctx hne
  have hle := ctx_le m c
  have hlen : ((setup m s c).effective ++ drawn c.sample 0 g).length =
      min c.prompt.length (ctxOf m c - 1).toNat + g := by
    rw [List.length_append, length_drawn, setup_effective_length hctx]
  have hl1 : 0 < ((setup m s c).effective ++ drawn c.sample 0 g).length := List.length_pos_iff.mpr hne
  have hshape : Shaped m.config.numLayers.toNat cap st.cache := by
    refine hg.passes.shaped ?_
    rw [setup_cache_later h.shaped]
    exact h.shaped
  have hi : (generate m s c).session.isInitialized = true := by
    rw [hg.session]
    exact setup_initialized
  rw [reusable_iff hi, hg.session]
  show (∀ p < ((setup m s c).effective ++ drawn c.sample 0 g).length,
    (p : ℤ) + 2 < min (setup m s c).session.maxContextAllocated 65536 →
      HasRow m st.invFreq st.cache ((setup m s c).effective ++ drawn c.sample 0 g) p) ↔
    min (max s.maxContextAllocated (ctxOf m c)) 65536 ≤
        min c.prompt.length (ctxOf m c - 1).toNat + g + 1 ∧ _
  rw [setup_maxContextAllocated h.initialized]
  constructor
  · intro hrows
    constructor
    · -- the failing token itself has no row, so it cannot be matched
      by_contra hmatch
      obtain ⟨hacc, -⟩ := hrows (((setup m s c).effective ++ drawn c.sample 0 g).length - 1) (by omega)
        (by omega)
      rw [getLastD_eq_getLast hne, hacc _ (by
        rw [show ((setup m s c).effective ++ drawn c.sample 0 g).length - 1 + 1 =
          ((setup m s c).effective ++ drawn c.sample 0 g).length by omega, List.take_length]
        exact List.getLast_mem hne)] at hrej
      cases hrej
    · by_cases hl : m.config.numLayers = 0
      · exact Or.inl hl
      · right
        rw [← hlen]
        rcases Nat.lt_or_ge 1 ((setup m s c).effective ++ drawn c.sample 0 g).length with hlt | hge
        · -- the row before it can be matched, so it is there, and fits
          have hrow := hrows (((setup m s c).effective ++ drawn c.sample 0 g).length - 2) (by omega)
            (by omega)
          have hfit := row_fits hshape hl hrow.2
          rwa [show ((setup m s c).effective ++ drawn c.sample 0 g).length - 2 + 1 =
            ((setup m s c).effective ++ drawn c.sample 0 g).length - 1 by omega] at hfit
        · rw [show ((setup m s c).effective ++ drawn c.sample 0 g).length - 1 = 0 by omega]
          simp
  · rintro ⟨hshort, hfit⟩ p hplt hmatch
    rw [← hlen] at hfit
    have hfill := generationFailed_filled h hctx hg hfit
    have hacc := generationFailed_accepted h hg
    have hp' : p < ((setup m s c).effective ++ drawn c.sample 0 g).dropLast.length := by
      rw [List.length_dropLast]
      omega
    obtain ⟨hacc', hrow⟩ := hasRow_of_filled hfill hacc hp'
    rw [List.length_dropLast] at hp'
    refine ⟨?_, ?_⟩
    · rwa [take_dropLast (by omega)] at hacc'
    · rwa [List.dropLast_eq_take, ← take_freshRows, List.getElem?_take_of_lt hp'] at hrow

/-- A call whose pass failed had room for that pass, so its context has more than one token. -/
theorem ctx_ne_one_of_failed {i : ℕ} (hctx : 0 < ctxOf m c)
    (hfail : (generate m s c).stop = .prefillFailed i ∨ (generate m s c).stop = .generationFailed i) :
    ctxOf m c ≠ 1 := by
  intro hone
  have hlen := setup_effective_length (m := m) (s := s) hctx
  rcases hfail with hstop | hstop
  · obtain ⟨j, st, hf, -⟩ := prefillFailed_of_stop hctx hstop
    obtain ⟨t, ht, -⟩ := hf.rejected
    have hj := (List.getElem?_eq_some_iff.mp ht).1
    rw [List.length_drop, List.length_dropLast] at hj
    omega
  · obtain ⟨-, st, hg, hroom, -⟩ := generationFailed_of_stop hctx hstop
    have hpos := hg.passes.pos
    rw [setup_pos hctx] at hpos
    omega

end Failed

/-- **What a failed call leaves**: on a session whose cached tokens describe its rows, the call is defined and
every index a later call can match still has its row exactly when the head dimension is even and the failure
harmless. -/
theorem failed_generate_reusable_iff (m : DenseModel) (cap : ℕ) (s : SessionKVState) (c : Call)
    (i : ℕ) (h : Described m cap s) (hctx : 0 < ctxOf m c)
    (hfail : (generate m s c).stop = .prefillFailed i ∨ (generate m s c).stop = .generationFailed i) :
    Defined m s c ∧ Reusable m (generate m s c).session ↔
      EvenHead m.config ∧ Harmless m cap s c (generate m s c).stop := by
  have hp : c.prompt ≠ [] := by
    intro hempty
    rw [generate_empty hempty] at hfail
    simp at hfail
  have hstarts : StartsDefined m c ↔ EvenHead m.config := by
    unfold StartsDefined
    rw [or_iff_right hp, and_iff_left (Or.inr (ctx_ne_one_of_failed hctx hfail))]
  rw [defined_iff, hstarts]
  rcases hfail with hstop | hstop
  · rw [prefillFailed_reusable_iff h hctx hstop, hstop]
  · rw [generationFailed_reusable_iff h hctx hstop, hstop]

/-- A session of three tokens and their rows. -/
def threeTokens : SessionKVState where
  state := ⟨[⟨[1, 0, 2, 0, 3, 0, 0, 0, 0, 0, 0, 0, 0, 0, 0, 0], [1, 0, 2, 0, 3, 0, 0, 0, 0, 0, 0, 0, 0, 0, 0, 0]⟩],
    ropeTable tinyConfig 8, 2⟩
  cachedTokens := [1, 2, 3]
  maxContextAllocated := 8
  numKvHeads := 1
  headDim := 2
  isInitialized := true

/-- The prompt `1, 4, 77, 5` leaves the common prefix after its first token, and fails at the third. -/
def divergingCall : Call := ⟨[1, 4, 77, 5], 1, 8, fun _ => 0⟩

theorem threeTokens_described : Described tinyModel 16 threeTokens := by
  have hfill : Filled tinyModel (ropeTable tinyConfig 8) threeTokens.state.cache [1, 2, 3] := by
    unfold Filled
    decide +kernel
  have hacc : ([1, 2, 3] : List Token).all (fun t => !forwardRejects tinyModel t) = true := by
    decide +kernel
  refine ⟨rfl, ⟨rfl, by decide +kernel⟩, fun p hp => hasRow_of_filled hfill (fun t ht => ?_) hp⟩
  simpa using List.all_eq_true.mp hacc t ht

theorem failed_generate_reusable_iff_tiny :
    Defined tinyModel threeTokens divergingCall ∧
        Reusable tinyModel (generate tinyModel threeTokens divergingCall).session ↔
      EvenHead tinyModel.config ∧ Harmless tinyModel 16 threeTokens divergingCall
        (generate tinyModel threeTokens divergingCall).stop :=
  failed_generate_reusable_iff tinyModel 16 threeTokens divergingCall 2 threeTokens_described
    (by decide +kernel) (Or.inl (by decide +kernel))

/-- After it, the row of the new token `4` stands under the cached token `2`. -/
theorem failed_generate_not_reusable : Described tinyModel 16 threeTokens ∧
    StartsDefined tinyModel divergingCall ∧
    (generate tinyModel threeTokens divergingCall).stop = .prefillFailed 2 ∧
    ¬ Reusable tinyModel (generate tinyModel threeTokens divergingCall).session := by
  refine ⟨threeTokens_described, by decide, by decide +kernel, fun h => ?_⟩
  have hrow := (h ⟨[1, 2, 3, 0], 0, 8, fun _ => 0⟩ 1 (by decide +kernel) (by decide +kernel)).2
  revert hrow
  decide +kernel

end DenseLite.Infer.Failure
