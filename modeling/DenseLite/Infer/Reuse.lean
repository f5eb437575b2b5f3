import DenseLite.Infer.Setup
import DenseLite.Lib.Runs

/-! # Delta prefill: which reused rows are the right ones

A call reuses the rows of the cached tokens its prompt starts with. A call that ran through has passed
over all the tokens it caches but the last one; over that one too only when it stopped at an end of
sequence. So the row of the last cached token may be missing, and a prompt that runs past it reuses
whatever stands there.

`known` is the list of tokens whose rows the cache holds, as far as it follows from the calls made
(`Tracked`); `ran` says which rows a call leaves, `turn_tracked` that every call keeps `Tracked`, and
`match_filled` that a call whose prompt does not run past a token without a row reuses the rows of
its own tokens. -/

namespace DenseLite.Infer.Reuse

open DenseLite.Lib.ByteStream DenseLite.Lib.FlatRows DenseLite.Lib.Runs
open DenseLite.Infer.State DenseLite.Infer.Generate DenseLite.Infer.Setup

/-! ### Models and calls whose passes succeed -/

/-- Every tensor has a native type, and the embedding table is there. -/
def Runnable (m : DenseModel) : Prop :=
  (∀ e ∈ m.tensors, nativeTensorSupported e.1 e.2 = true) ∧
    (m.tensors.lookup (ascii "token_embd.weight") = some .Q4_0 ∨
      m.tensors.lookup (ascii "token_embd.weight") = some .Q8_0)

instance (m : DenseModel) : Decidable (Runnable m) := inferInstanceAs (Decidable (_ ∧ _))

/-- A token id below the size of the vocabulary. -/
def InVocab (m : DenseModel) (t : Token) : Prop :=
  ¬ (t < 0 ∨ Int32.ofUInt32 m.config.vocabSize ≤ t)

instance (m : DenseModel) (t : Token) : Decidable (InVocab m t) := inferInstanceAs (Decidable (¬ _))

/-- The prompt and the sampled tokens of a call are in the vocabulary. -/
def CallInVocab (m : DenseModel) (c : Call) : Prop :=
  (∀ t ∈ c.prompt, InVocab m t) ∧ ∀ k, InVocab m (c.sample k)

theorem accepts_of_inVocab {m : DenseModel} {t : Token} (hm : Runnable m) (ht : InVocab m t) :
    forwardRejects m t = false := by
  obtain ⟨h1, h2⟩ := hm
  have hany : m.tensors.any (fun e => !nativeTensorSupported e.1 e.2) = false := by
    rw [List.any_eq_false]
    intro e he
    simp [h1 e he]
  unfold forwardRejects
  rw [hany, Bool.false_or, decide_eq_false ht, Bool.false_or]
  rcases h2 with h | h <;> rw [h] <;> rfl

/-- Every index into a layer is an exact `int`, and the length of a layer an exact 32-bit number. -/
def Addressable (c : ModelConfig) (ctx : ℤ) : Prop :=
  ctx * c.numKvHeads.toNat * c.headDim.toNat < 2 ^ 31

instance (c : ModelConfig) (ctx : ℤ) : Decidable (Addressable c ctx) :=
  inferInstanceAs (Decidable (_ < _))

/-- The features of a row, where a positive number of rows has fewer than `2 ^ 32` floats. -/
theorem numKvFeatures_eq {c : ModelConfig} {n : ℕ} (hn : 0 < n)
    (h : n * c.numKvHeads.toNat * c.headDim.toNat < 2 ^ 32) :
    c.numKvFeatures = c.numKvHeads.toNat * c.headDim.toNat := by
  have hle : c.numKvHeads.toNat * c.headDim.toNat ≤ n * (c.numKvHeads.toNat * c.headDim.toNat) :=
    Nat.le_mul_of_pos_left _ hn
  rw [← Nat.mul_assoc] at hle
  rw [ModelConfig.numKvFeatures, UInt32.toNat_mul, Nat.mod_eq_of_lt (by omega)]

/-- An addressable context has as many rows in a layer as it has positions. -/
theorem layerFloats_eq {c : ModelConfig} {ctx : ℤ} (h0 : 0 < ctx) (hlt : ctx < 2 ^ 32)
    (h : Addressable c ctx) : layerFloats c ctx = ctx.toNat * c.numKvFeatures := by
  obtain ⟨n, rfl⟩ := Int.eq_ofNat_of_zero_le (Int.le_of_lt h0)
  unfold Addressable at h
  have h' : n * c.numKvHeads.toNat * c.headDim.toNat < 2 ^ 31 := by exact_mod_cast h
  have hn : 0 < n := by exact_mod_cast h0
  have hfeat := numKvFeatures_eq hn (show n * c.numKvHeads.toNat * c.headDim.toNat < 2 ^ 32 by omega)
  have hmod : ((n : ℤ) % 2 ^ 32).toNat = n := by
    rw [Int.emod_eq_of_lt (by omega) hlt, Int.toNat_natCast]
  rw [layerFloats, hmod, Int.toNat_natCast, hfeat, ← Nat.mul_assoc, Nat.mod_eq_of_lt (by omega)]

/-! ### Known rows -/

/-- The session is initialised for `m`, and its cache holds the rows of `known`, which are those of
all cached tokens except perhaps the last. -/
structure Tracked (m : DenseModel) (cap : ℕ) (s : SessionKVState) (known : List Token) : Prop where
  initialized : s.isInitialized = true
  shaped : Shaped m.config.numLayers.toNat cap s.state.cache
  filled : Filled m s.state.invFreq s.state.cache known
  cached : s.cachedTokens.dropLast <+: known

/-- The prompt of the call runs past all cached tokens only if the last of them has its row. -/
def LastRowKnown (s : SessionKVState) (known : List Token) (c : Call) : Prop :=
  s.cachedTokens <+: c.prompt.dropLast → s.cachedTokens <+: known

instance (s : SessionKVState) (known : List Token) (c : Call) : Decidable (LastRowKnown s known c) :=
  inferInstanceAs (Decidable (_ → _))

theorem take_dropLast {ts : List Token} {k : ℕ} (h : k ≤ ts.length - 1) :
    ts.dropLast.take k = ts.take k := by
  rw [List.dropLast_eq_take, List.take_take, Nat.min_eq_left h]

/-- The matched tokens are the first ones of the prompt. -/
theorem take_prompt (s : SessionKVState) (c : Call) :
    c.prompt.take (matchPrefix s.cachedTokens c.prompt.dropLast) =
      s.cachedTokens.take (matchPrefix s.cachedTokens c.prompt.dropLast) := by
  have hle := matchPrefix_le_right s.cachedTokens c.prompt.dropLast
  rw [List.length_dropLast] at hle
  rw [take_matchPrefix, take_dropLast hle]

/-- **The matched tokens have their rows.** -/
theorem match_known {s : SessionKVState} {known : List Token} {c : Call}
    (hcached : s.cachedTokens.dropLast <+: known) (hu : LastRowKnown s known c) :
    c.prompt.take (matchPrefix s.cachedTokens c.prompt.dropLast) <+: known := by
  rw [take_prompt]
  have hle := matchPrefix_le_left s.cachedTokens c.prompt.dropLast
  rcases Nat.lt_or_ge (matchPrefix s.cachedTokens c.prompt.dropLast) s.cachedTokens.length with hlt | hge
  · -- not all cached tokens match, so the last one is not among the matched ones
    have htake := List.take_prefix (matchPrefix s.cachedTokens c.prompt.dropLast) s.cachedTokens.dropLast
    rw [take_dropLast (by omega)] at htake
    exact htake.trans hcached
  · have hall : matchPrefix s.cachedTokens c.prompt.dropLast = s.cachedTokens.length := by omega
    rw [hall, List.take_length]
    exact hu (matchPrefix_eq_length_iff.mp hall)

/-- The known tokens after a call that passed over `passed`: those of before if they go on after
`passed`, as then the rows above are still theirs. -/
def extendKnown (known passed : List Token) : List Token := if passed <+: known then known else passed

theorem prefix_extendKnown (known passed : List Token) : passed <+: extendKnown known passed := by
  unfold extendKnown
  split_ifs with h
  · exact h
  · exact List.prefix_refl _

theorem filled_extendKnown {m : DenseModel} {rope : RopeTable} {cache cache' : List LayerCache}
    {known passed : List Token} (hf : Filled m rope cache known) (hp : Filled m rope cache' passed)
    (habove : ∀ p, passed.length ≤ p →
      kvRowAt m.config.numKvFeatures p cache' = kvRowAt m.config.numKvFeatures p cache) :
    Filled m rope cache' (extendKnown known passed) := by
  unfold extendKnown
  split_ifs with h
  · refine hf.congr fun p _ => ?_
    rcases Nat.lt_or_ge p passed.length with hlt | hge
    · have hbelow : Filled m rope cache passed := hf.of_prefix h
      exact kvRowAt_eq_of_rowsUpTo (hp.trans hbelow.symm) hlt
    · exact habove p hge
  · exact hp

/-! ### The end of sequence as a condition on the inputs -/

/-- The sampler draws an end of sequence within the steps the call has: at most `max_tokens`, and no
more than the context has positions left when the prompt but for its last token is in. -/
def stopsAtEos (m : DenseModel) (c : Call) : Bool :=
  let n := min c.prompt.length (ctxOf m c - 1).toNat
  (List.range (min c.maxTokens.toNat (ctxOf m c - 1 - (n - 1 : ℕ)).toNat)).any fun k =>
    isEos m (c.sample k)

theorem stopsAtEos_iff {m : DenseModel} {s : SessionKVState} {c : Call} (hctx : 0 < ctxOf m c) :
    stopsAtEos m c = true ↔ ∃ k, k < c.maxTokens.toNat ∧
      (((setup m s c).effective.length - 1 : ℕ) : ℤ) + k < ctxOf m c - 1 ∧
        isEos m (c.sample k) = true := by
  have hlen := setup_effective_length (m := m) (s := s) hctx
  unfold stopsAtEos
  simp only [List.any_eq_true, List.mem_range]
  rw [hlen]
  constructor
  · rintro ⟨k, hk, he⟩
    exact ⟨k, by omega, by omega, he⟩
  · rintro ⟨k, h1, h2, he⟩
    exact ⟨k, by omega, he⟩

/-- The tokens a call has passed over, of those it cached. -/
def passedTokens (cached : List Token) (eos : Bool) : List Token := if eos then cached else cached.dropLast

theorem dropLast_prefix_passedTokens (cached : List Token) (eos : Bool) :
    cached.dropLast <+: passedTokens cached eos := by
  unfold passedTokens
  split_ifs
  · exact List.dropLast_prefix _
  · exact List.prefix_refl _

/-! ### One call -/

section OneCall

variable {m : DenseModel} {cap : ℕ} {s : SessionKVState} {c : Call}

theorem mem_effective {t : Token} (h : t ∈ (setup m s c).effective) : t ∈ c.prompt := by
  rw [setup_effective] at h
  split_ifs at h
  · exact List.mem_of_mem_drop h
  · exact h

/-- A call on tokens of the vocabulary does not fail in its prefill. -/
theorem not_prefillFailed (hm : Runnable m) (hv : CallInVocab m c) {j : ℕ} {st : InferenceState} :
    ¬ PrefillFailed m s c j st := by
  intro hf
  obtain ⟨t, ht, hrej⟩ := hf.rejected
  have hmem : t ∈ (setup m s c).effective :=
    (List.dropLast_prefix _).subset (List.mem_of_mem_drop (List.mem_of_getElem? ht))
  simp [accepts_of_inVocab hm (hv.1 t (mem_effective hmem))] at hrej

/-- A call starts its prefill with room for its context and with right rows below its start. -/
structure Ready (m : DenseModel) (cap : ℕ) (s : SessionKVState) (c : Call) : Prop where
  shaped : Shaped m.config.numLayers.toNat cap (setup m s c).session.state.cache
  filled : Filled m (setup m s c).session.state.invFreq (setup m s c).session.state.cache
    (c.prompt.take (setup m s c).start)
  room : (ctxOf m c).toNat * m.config.numKvFeatures ≤ cap

/-- The passes of a call leave the rows of all tokens it caches but the last, if these fit. -/
theorem generated_filled {n : ℕ} {st st' : InferenceState} (hctx : 0 < ctxOf m c)
    (hs : Shaped m.config.numLayers.toNat cap (setup m s c).session.state.cache)
    (hf : Filled m (setup m s c).session.state.invFreq (setup m s c).session.state.cache
      (c.prompt.take (setup m s c).start))
    (hfit : (((setup m s c).effective ++ drawn c.sample 0 n).length - 1) * m.config.numKvFeatures ≤ cap)
    (hg : Generated m s c n st st') :
    Filled m st.invFreq st.cache ((setup m s c).effective ++ drawn c.sample 0 n).dropLast := by
  have hstart := setup_start_le_effective (m := m) (s := s) (c := c)
  have hbefore : ((setup m s c).effective ++ drawn c.sample 0 n).dropLast.take (setup m s c).start =
      c.prompt.take (setup m s c).start := by
    rw [take_dropLast (by rw [List.length_append]; omega),
      List.take_append_of_le_length (by omega), setup_take]
  have hsplit := List.take_append_drop (setup m s c).start
    ((setup m s c).effective ++ drawn c.sample 0 n).dropLast
  rw [hbefore] at hsplit
  have hl := congrArg List.length hsplit
  rw [List.length_append, List.length_dropLast] at hl
  rw [← hsplit]
  refine hg.passes.filled hs hf ?_ (by rw [hl]; exact hfit)
  have h1 := setup_start_le (m := m) (s := s) (c := c)
  rw [setup_pos hctx, List.length_take]
  omega

/-- The passes of a call change no row from its last cached token on. -/
theorem generated_above {n p : ℕ} {st st' : InferenceState} {layers : ℕ} (hctx : 0 < ctxOf m c)
    (hs : Shaped layers cap (setup m s c).session.state.cache) (hg : Generated m s c n st st')
    (hp : ((setup m s c).effective ++ drawn c.sample 0 n).length - 1 ≤ p) :
    kvRowAt m.config.numKvFeatures p st.cache =
      kvRowAt m.config.numKvFeatures p (setup m s c).session.state.cache := by
  have hstart := setup_start_le_effective (m := m) (s := s) (c := c)
  rw [List.length_append] at hp
  refine hg.passes.row_eq hs (by rw [setup_pos hctx]; omega) (Or.inr ?_)
  rw [setup_pos hctx, List.length_drop, List.length_dropLast, List.length_append]
  omega

/-- A call with room for a further pass has cached some token: without one its context is one, which
has no room. -/
theorem cached_ne_nil {n : ℕ} {st st' : InferenceState} (hp : c.prompt ≠ [])
    (hctx : 0 < ctxOf m c) (hg : Generated m s c n st st') (hroom : st.currentPos < ctxOf m c - 1) :
    (setup m s c).effective ++ drawn c.sample 0 n ≠ [] := by
  intro hnil
  have h0 := congrArg List.length hnil
  rw [List.length_append, List.length_nil] at h0
  have hl := setup_effective_length (m := m) (s := s) hctx
  have hpp : 0 < c.prompt.length := List.length_pos_iff.mpr hp
  have hpos := hg.passes.pos
  rw [setup_pos hctx] at hpos
  omega

/-- The last cached token of a call with room for a further pass is in the vocabulary. -/
theorem last_inVocab {n : ℕ} {st st' : InferenceState} (hv : CallInVocab m c)
    (hp : c.prompt ≠ []) (hctx : 0 < ctxOf m c) (hg : Generated m s c n st st')
    (hroom : st.currentPos < ctxOf m c - 1) :
    InVocab m (((setup m s c).effective ++ drawn c.sample 0 n).getLastD 0) := by
  have hne := cached_ne_nil hp hctx hg hroom
  rw [getLastD_eq_getLast hne]
  rcases List.mem_append.mp (List.getLast_mem hne) with h | h
  · exact hv.1 _ (mem_effective h)
  · obtain ⟨i, -, hi⟩ := List.mem_map.mp h
    rw [← hi]
    exact hv.2 _

/-- What a call that starts with right rows leaves: its rows are those of the tokens it passed over,
all cached ones when it stopped at an end of sequence, and the rows above are as they were. -/
structure Ran (m : DenseModel) (cap : ℕ) (s : SessionKVState) (c : Call) : Prop where
  initialized : (generate m s c).session.isInitialized = true
  allocated : (generate m s c).session.maxContextAllocated =
    (setup m s c).session.maxContextAllocated
  shaped : Shaped m.config.numLayers.toNat cap (generate m s c).session.state.cache
  rope : (generate m s c).session.state.invFreq = (setup m s c).session.state.invFreq
  filled : Filled m (generate m s c).session.state.invFreq (generate m s c).session.state.cache
    (passedTokens (generate m s c).session.cachedTokens (stopsAtEos m c))
  above : ∀ p, (passedTokens (generate m s c).session.cachedTokens (stopsAtEos m c)).length ≤ p →
    kvRowAt m.config.numKvFeatures p (generate m s c).session.state.cache =
      kvRowAt m.config.numKvFeatures p (setup m s c).session.state.cache

/-- **What a call leaves.** -/
theorem ran (hm : Runnable m) (hv : CallInVocab m c) (hctx : 0 < ctxOf m c)
    (hp : c.prompt ≠ []) (hmax : 0 ≤ c.maxTokens) (hr : Ready m cap s c) : Ran m cap s c := by
  rcases generate_spec (s := s) hp hmax hctx with ⟨j, st, hf⟩ | ⟨n, st, st', hg⟩
  · exact absurd hf (not_prefillFailed hm hv)
  have hlen := hg.length_le hctx
  have hfill := generated_filled hctx hr.shaped hr.filled
    (le_trans (Nat.mul_le_mul_right _ (by omega)) hr.room) hg
  have hshape := hg.passes.shaped hr.shaped
  have hrope := hg.passes.invFreq
  have hstop := hg.stop
  -- a drawn end of sequence would have stopped the loop before it used up its steps
  have hnone : ∀ k, k < n → isEos m (c.sample k) ≠ true := fun k hk => by simp [hg.notEos k hk]
  have hquiet : st' = st → stopsAtEos m c = false → Ran m cap s c := by
    intro hst heos
    rw [hst] at hg
    refine ⟨?_, ?_, ?_, ?_, ?_, fun p hp => ?_⟩ <;> rw [hg.session]
    · exact setup_initialized
    · exact hshape
    · exact hrope
    · rw [heos]
      exact hfill
    · rw [hg.session, heos, passedTokens, if_neg (by simp), List.length_dropLast] at hp
      exact generated_above hctx hr.shaped hg hp
  cases hs : (generate m s c).stop <;> rw [hs] at hstop
  case maxTokens =>
    refine hquiet hstop.1 (Bool.eq_false_iff.mpr fun he => ?_)
    obtain ⟨k, hk, -, heos⟩ := (stopsAtEos_iff (s := s) hctx).mp he
    exact hnone k (by rw [hstop.2]; exact hk) heos
  case contextLimit =>
    refine hquiet hstop.1 (Bool.eq_false_iff.mpr fun he => ?_)
    obtain ⟨k, hk, hroom, heos⟩ := (stopsAtEos_iff (s := s) hctx).mp he
    have hfull := hstop.2.2
    rw [hg.passes.pos, setup_pos hctx, List.length_drop, List.length_dropLast, List.length_append,
      length_drawn] at hfull
    have hstart := setup_start_le_effective (m := m) (s := s) (c := c)
    exact hnone k (by omega) heos
  case generationFailed i =>
    obtain ⟨-, -, -, hroom, hrej⟩ := hstop
    rw [accepts_of_inVocab hm (last_inVocab hv hp hctx hg hroom)] at hrej
    cases hrej
  case eos =>
    obtain ⟨hfp, hn, hroom, heos⟩ := hstop
    have hne := cached_ne_nil hp hctx hg hroom
    have hpos := hg.pos hctx hne
    have hl1 : 0 < ((setup m s c).effective ++ drawn c.sample 0 n).length := List.length_pos_iff.mpr hne
    have hstops : stopsAtEos m c = true := by
      refine (stopsAtEos_iff (s := s) hctx).mpr ⟨n, hn, ?_, heos⟩
      have hl := setup_effective_length (m := m) (s := s) hctx
      have hpp : 0 < c.prompt.length := List.length_pos_iff.mpr hp
      rw [List.length_append, length_drawn] at hpos hl1
      omega
    have hrope' : st'.invFreq = st.invFreq := by rw [forwardPass_eq_some hfp]
    refine ⟨?_, ?_, ?_, ?_, ?_, fun p hp => ?_⟩ <;> rw [hg.session]
    · exact setup_initialized
    · exact forwardPass_shaped hfp hshape
    · exact hrope'.trans hrope
    · rw [hstops]
      rw [getLastD_eq_getLast hne] at hfp
      have hconcat := forwardPass_filled hfp hshape hfill
        (by rw [hpos, List.length_dropLast]; omega)
        (by
          refine le_trans (Nat.mul_le_mul_right _ ?_) hr.room
          rw [List.length_dropLast]
          omega)
      rwa [List.dropLast_append_getLast hne] at hconcat
    · rw [hg.session, hstops] at hp
      change ((setup m s c).effective ++ drawn c.sample 0 n).length ≤ p at hp
      rw [forwardPass_row_ne hfp hshape (by omega)]
      exact generated_above hctx hr.shaped hg (by omega)
  all_goals exact hstop.elim

/-- A call on a session of its own context starts with right rows, unless its prompt runs past a token
without one. -/
theorem ready_keep {known : List Token} (h : Tracked m cap s known) (hnr : ¬ Reinits s (ctxOf m c))
    (hu : LastRowKnown s known c) (hroom : (ctxOf m c).toNat * m.config.numKvFeatures ≤ cap) :
    Ready m cap s c := by
  obtain ⟨pos, hs⟩ := setup_session_keep (m := m) hnr
  refine ⟨by rw [hs]; exact h.shaped, ?_, hroom⟩
  rw [setup_start]
  split_ifs with hcase
  · exact filled_nil _ _ _
  · rw [hs]
    exact h.filled.of_prefix (match_known h.cached hu)

/-- A call on an uninitialised session starts with no rows. -/
theorem ready_init (hr : Reinits s (ctxOf m c)) (hcache : s.state.cache = [])
    (hctx : 0 < ctxOf m c) (ha : Addressable m.config (ctxOf m c)) :
    Ready m (layerFloats m.config (ctxOf m c)) s c := by
  have hle := ctx_le m c
  refine ⟨?_, ?_, by rw [layerFloats_eq hctx (by omega) ha]⟩
  · rw [setup_session_reinit hr]
    show Shaped _ _ (resize _ _ s.state.cache)
    rw [hcache, resize_nil]
    exact shaped_replicate _ _
  · rw [setup_start, if_pos (Or.inl hr)]
    exact filled_nil _ _ _

end OneCall

/-! ### Runs of calls -/

/-- The known tokens after a call: none are left when it initialises the session, and those it passed
over come in when it runs. -/
def nextKnown (m : DenseModel) (s : SessionKVState) (known : List Token) (c : Call) : List Token :=
  if c.prompt = [] then known
  else
    let kept := if Reinits s (ctxOf m c) then [] else known
    if c.maxTokens < 0 then kept
    else extendKnown kept (passedTokens (generate m s c).session.cachedTokens (stopsAtEos m c))

/-- One call on a session, with the known tokens beside it. -/
def turn (m : DenseModel) (x : SessionKVState × List Token) (c : Call) : SessionKVState × List Token :=
  ((generate m x.1 c).session, nextKnown m x.1 x.2 c)

/-- A call that ran leaves the rows of the next known tokens. -/
theorem Ran.tracked {m : DenseModel} {cap : ℕ} {s : SessionKVState} {c : Call} {kept : List Token}
    (h : Ran m cap s c)
    (hk : Filled m (setup m s c).session.state.invFreq (setup m s c).session.state.cache kept) :
    Tracked m cap (generate m s c).session
      (extendKnown kept (passedTokens (generate m s c).session.cachedTokens (stopsAtEos m c))) where
  initialized := h.initialized
  shaped := h.shaped
  filled := filled_extendKnown (by rw [h.rope]; exact hk) h.filled h.above
  cached := (dropLast_prefix_passedTokens _ _).trans (prefix_extendKnown _ _)

/-- The sessions of a run with one context: not initialised yet, or initialised for that context with
the rows of the known tokens. -/
def RunState (m : DenseModel) (ctx : ℤ) (x : SessionKVState × List Token) : Prop :=
  (x.1.isInitialized = false ∧ x.1.state.cache = []) ∨
    (Tracked m (layerFloats m.config ctx) x.1 x.2 ∧ x.1.maxContextAllocated = ctx ∧
      x.1.state.invFreq = ropeTable m.config ctx)

section Runs

variable {m : DenseModel} {x : SessionKVState × List Token} {c : Call}

theorem not_reinits {ctx : ℤ} {cap : ℕ} (h : Tracked m cap x.1 x.2)
    (hctx : x.1.maxContextAllocated = ctx) : ¬ Reinits x.1 ctx := by
  rintro (h' | h')
  · simp [h.initialized] at h'
  · omega

/-- Before its prefill, a call of a run has right rows below its start, and those of the known tokens
that its setup keeps. -/
theorem runState_ready (hctx : 0 < ctxOf m c) (ha : Addressable m.config (ctxOf m c))
    (h : RunState m (ctxOf m c) x) (hu : LastRowKnown x.1 x.2 c) :
    Ready m (layerFloats m.config (ctxOf m c)) x.1 c ∧
      (setup m x.1 c).session.maxContextAllocated = ctxOf m c ∧
      (setup m x.1 c).session.state.invFreq = ropeTable m.config (ctxOf m c) ∧
      Filled m (setup m x.1 c).session.state.invFreq (setup m x.1 c).session.state.cache
        (if Reinits x.1 (ctxOf m c) then [] else x.2) := by
  have hle := ctx_le m c
  rcases h with ⟨hi, hcache⟩ | ⟨ht, hall, hrope⟩
  · have hr : Reinits x.1 (ctxOf m c) := Or.inl hi
    refine ⟨ready_init hr hcache hctx ha, ?_, ?_, ?_⟩
    · rw [setup_session_reinit hr]
    · rw [setup_session_reinit hr]
      rfl
    · rw [if_pos hr]
      exact filled_nil _ _ _
  · have hnr := not_reinits ht hall
    obtain ⟨pos, hs⟩ := setup_session_keep (m := m) hnr
    refine ⟨ready_keep ht hnr hu (by rw [layerFloats_eq hctx (by omega) ha]), ?_, ?_, ?_⟩
    · rw [hs]
      exact hall
    · rw [hs]
      exact hrope
    · rw [if_neg hnr, hs]
      exact ht.filled

/-- **One call keeps the state of a run.** -/
theorem turn_runState (hm : Runnable m) (hv : CallInVocab m c) (hctx : 0 < ctxOf m c)
    (ha : Addressable m.config (ctxOf m c)) (h : RunState m (ctxOf m c) x)
    (hu : LastRowKnown x.1 x.2 c) : RunState m (ctxOf m c) (turn m x c) := by
  by_cases hp : c.prompt = []
  · rw [turn, generate_empty hp, nextKnown, if_pos hp]
    exact h
  obtain ⟨hready, hall, hrope, hkept⟩ := runState_ready hctx ha h hu
  unfold turn nextKnown
  rw [if_neg hp]
  by_cases hmax : c.maxTokens < 0
  · simp only [hmax, if_true]
    rw [generate_threw hp hmax]
    refine Or.inr ⟨⟨setup_initialized, hready.shaped, hkept, ?_⟩, hall, hrope⟩
    -- the setup cached nothing, or left the cached tokens with their rows
    show (setup m x.1 c).session.cachedTokens.dropLast <+: _
    rw [setup_cachedTokens]
    rcases h with ⟨hi, hcache⟩ | ⟨ht, hall', -⟩
    · have hr : Reinits x.1 (ctxOf m c) := Or.inl hi
      rw [if_pos (Or.inl hr)]
      exact List.nil_prefix
    · have hnr := not_reinits ht hall'
      show _ <+: if Reinits x.1 (ctxOf m c) then [] else x.2
      rw [if_neg hnr]
      split_ifs
      · exact List.nil_prefix
      · exact ht.cached
  · simp only [hmax, if_false]
    have hran := ran hm hv hctx hp (by omega) hready
    exact Or.inr ⟨hran.tracked hkept, hran.allocated.trans hall, hran.rope.trans hrope⟩

end Runs

/-! ### Reused rows against a fresh prefill -/

/-- The cache after a prefill of `ts` into a fresh state. -/
def freshCache (m : DenseModel) (ctx : ℤ) (ts : List Token) : List LayerCache :=
  (prefill m ctx 0 (initInferenceState m.config ctx {}) ts).1.cache

/-- When the call starts its prefill, every row it reuses is the one a fresh prefill of its prompt up
to that token would write there. -/
def PrefillSound (m : DenseModel) (s : SessionKVState) (c : Call) : Prop :=
  ∀ p < (setup m s c).start,
    kvRowAt m.config.numKvFeatures p (setup m s c).session.state.cache =
      kvRowAt m.config.numKvFeatures p (freshCache m (ctxOf m c) (c.prompt.take (p + 1)))

instance (m : DenseModel) (s : SessionKVState) (c : Call) : Decidable (PrefillSound m s c) :=
  inferInstanceAs (Decidable (∀ p < _, _))

section Fresh

variable {m : DenseModel} {s : SessionKVState} {c : Call}

/-- A fresh prefill writes the rows of its tokens. -/
theorem freshCache_filled {ctx : ℤ} {ts : List Token} (hm : Runnable m) (hv : ∀ t ∈ ts, InVocab m t)
    (hlen : (ts.length : ℤ) < ctx) (hctx : ctx < 2 ^ 32) (ha : Addressable m.config ctx) :
    Filled m (ropeTable m.config ctx) (freshCache m ctx ts) ts := by
  obtain ⟨j, hj, hpass, hend⟩ := prefill_spec m ctx ts 0 (initInferenceState m.config ctx {})
  have hall : j = ts.length := by
    cases hres : (prefill m ctx 0 (initInferenceState m.config ctx {}) ts).2 with
    | none =>
      rw [hres] at hend
      have h0 : (initInferenceState m.config ctx {}).currentPos = 0 := rfl
      rcases hend with hend | hend <;> omega
    | some i =>
      rw [hres] at hend
      obtain ⟨-, -, t, ht, hrej⟩ := hend
      simp [accepts_of_inVocab hm (hv t (List.mem_of_getElem? ht))] at hrej
  rw [hall, List.take_length] at hpass
  have hshape : Shaped m.config.numLayers.toNat (layerFloats m.config ctx)
      (initInferenceState m.config ctx {}).cache := by
    show Shaped _ _ (resize _ _ [])
    rw [resize_nil]
    exact shaped_replicate _ _
  have hroom : ([] : List Token).length + ts.length ≤ ctx.toNat := by
    rw [List.length_nil]
    omega
  have hfill := hpass.filled hshape (filled_nil m _ _) rfl
    (by rw [layerFloats_eq (by omega) hctx ha]; exact Nat.mul_le_mul_right _ hroom)
  rwa [hpass.invFreq, List.nil_append] at hfill

/-- The reused rows are those of a fresh prefill exactly when they are those of the prompt's tokens. -/
theorem prefillSound_iff (hm : Runnable m) (hv : ∀ t ∈ c.prompt, InVocab m t) (hctx : 0 < ctxOf m c)
    (ha : Addressable m.config (ctxOf m c)) :
    PrefillSound m s c ↔ Filled m (ropeTable m.config (ctxOf m c)) (setup m s c).session.state.cache
      (c.prompt.take (setup m s c).start) := by
  have hle := ctx_le m c
  have hstart := start_lt_ctx (s := s) hctx
  have hlen : (c.prompt.take (setup m s c).start).length = (setup m s c).start := by
    have := setup_start_le (m := m) (s := s) (c := c)
    rw [List.length_take]
    omega
  have hfresh : ∀ p < (setup m s c).start, kvRowAt m.config.numKvFeatures p
      (freshCache m (ctxOf m c) (c.prompt.take (p + 1))) ∈
        (freshRows m (ropeTable m.config (ctxOf m c)) (c.prompt.take (setup m s c).start))[p]? := by
    intro p hp
    have htake : (c.prompt.take (setup m s c).start).take (p + 1) = c.prompt.take (p + 1) := by
      rw [List.take_take, Nat.min_eq_left (by omega)]
    have hl : (c.prompt.take (p + 1)).length = p + 1 := by
      rw [← htake, List.length_take, hlen]
      omega
    have hv' : ∀ t ∈ c.prompt.take (p + 1), InVocab m t := fun t ht => hv t (List.mem_of_mem_take ht)
    have hf := freshCache_filled hm hv' (by rw [hl]; omega) (by omega) ha
    have hrow := getElem?_rowsUpTo (w := m.config.numKvFeatures) (n := p + 1) (Nat.lt_succ_self p)
      (freshCache m (ctxOf m c) (c.prompt.take (p + 1)))
    unfold Filled at hf
    rw [hl] at hf
    rw [hf, ← htake, ← take_freshRows, List.getElem?_take_of_lt (Nat.lt_succ_self p), htake] at hrow
    exact hrow
  unfold PrefillSound Filled
  rw [hlen]
  constructor
  · intro h
    refine List.ext_getElem? fun p => ?_
    rcases Nat.lt_or_ge p (setup m s c).start with hp | hp
    · rw [getElem?_rowsUpTo hp, h p hp, (hfresh p hp)]
    · rw [List.getElem?_eq_none (by simpa using hp), List.getElem?_eq_none (by simpa [hlen] using hp)]
  · intro h p hp
    have hrow := getElem?_rowsUpTo (w := m.config.numKvFeatures) hp (setup m s c).session.state.cache
    rw [h, hfresh p hp] at hrow
    exact (Option.some.inj hrow).symm

end Fresh

/-- **Delta prefill is sound** along every run of calls on one session with one model and one
context, if its calls are defined and no prompt runs past a last cached token whose row is not known. -/
theorem delta_prefill_sound (m : DenseModel) (budget : ℤ) (s : SessionKVState) (cs : List Call)
    (hm : Runnable m) (hctx : 0 < ctxLen m.config budget)
    (ha : Addressable m.config (ctxLen m.config budget))
    (hs : s.isInitialized = false ∧ s.state.cache = [])
    (hcs : ∀ c ∈ cs, CallInVocab m c ∧ c.contextBudget = budget)
    (hstarts : ∀ c ∈ cs, StartsDefined m c)
    (hknown : EveryStep (turn m) (fun x c => LastRowKnown x.1 x.2 c) (s, []) cs) :
    EveryStep (turn m) (fun x c => Defined m x.1 c ∧ PrefillSound m x.1 c) (s, []) cs := by
  have hstep : ∀ (x : SessionKVState × List Token) (c : Call),
      RunState m (ctxLen m.config budget) x → (CallInVocab m c ∧ c.contextBudget = budget) →
      LastRowKnown x.1 x.2 c →
      PrefillSound m x.1 c ∧ RunState m (ctxLen m.config budget) (turn m x c) := by
    rintro x c hx ⟨hv, rfl⟩ hu
    obtain ⟨hready, -, hrope, -⟩ := runState_ready hctx ha hx hu
    refine ⟨(prefillSound_iff hm hv.1 hctx ha).mpr ?_, turn_runState hm hv hctx ha hx hu⟩
    have hfill := hready.filled
    rwa [hrope] at hfill
  rw [everyStep_and]
  exact ⟨(everyStep_defined_iff _ Prod.fst cs (s, [])).mpr hstarts,
    (everyStep_of_invariant_mem hstep cs (s, []) (Or.inl hs) hcs hknown).1⟩

/-! ### A small model, for concrete runs -/

/-- One layer with rows of two floats. -/
def tinyConfig : ModelConfig where
  contextLength := 16
  numLayers := 1
  numHeads := 1
  numKvHeads := 1
  headDim := 2
  vocabSize := 10
  eosTokenId := 9

/-- A model whose rows begin with the token itself. -/
def tinyModel : DenseModel where
  config := tinyConfig
  vocabTokens := []
  tensors := [(ascii "token_embd.weight", .Q8_0)]
  kv _ t _ := [([t.toUInt32, 0], [t.toUInt32, 0])]
  kv_length _ _ _ := rfl
  kv_width _ _ _ r hr := by
    rw [List.mem_singleton.mp hr]
    exact ⟨rfl, rfl⟩

theorem tiny_inVocab {ts : List Token} (h : (ts.all fun t => decide (InVocab tinyModel t)) = true) :
    ∀ t ∈ ts, InVocab tinyModel t := by
  intro t ht
  exact of_decide_eq_true (List.all_eq_true.mp h t ht)

/-- A first turn that draws one token and stops at `max_tokens`, and a second one whose prompt goes on
after that token. -/
def twoTurns : List Call :=
  [⟨[1, 2], 1, 16, fun _ => 3⟩, ⟨[1, 2, 3, 4], 1, 16, fun _ => 5⟩]

/-- The second turn reuses the row of a token that was never passed over. -/
theorem delta_prefill_unsound : Runnable tinyModel ∧
    (∀ c ∈ twoTurns, CallInVocab tinyModel c ∧ c.contextBudget = 16) ∧
    (∀ c ∈ twoTurns, StartsDefined tinyModel c) ∧
    ¬ EveryStep (turn tinyModel) (fun x c => PrefillSound tinyModel x.1 c) ({}, []) twoTurns := by
  refine ⟨by decide +kernel, ?_, ?_, ?_⟩
  · intro c hc
    rcases List.mem_pair.mp hc with rfl | rfl
    · exact ⟨⟨tiny_inVocab (by decide +kernel), fun _ => (by decide +kernel : InVocab tinyModel 3)⟩, rfl⟩
    · exact ⟨⟨tiny_inVocab (by decide +kernel), fun _ => (by decide +kernel : InVocab tinyModel 5)⟩, rfl⟩
  · simp only [twoTurns, List.forall_mem_cons]
    decide
  · rintro ⟨-, h, -⟩
    revert h
    decide +kernel

/-- The same two turns with an end of sequence drawn after the first token are sound. -/
theorem delta_prefill_sound_tiny :
    EveryStep (turn tinyModel) (fun x c => Defined tinyModel x.1 c ∧ PrefillSound tinyModel x.1 c) ({}, [])
      [⟨[1, 2], 2, 16, fun k => if k = 0 then 3 else 9⟩, ⟨[1, 2, 3, 4], 1, 16, fun _ => 5⟩] := by
  refine delta_prefill_sound tinyModel 16 {} _ (by decide +kernel) (by decide +kernel)
    (by decide +kernel) ⟨rfl, rfl⟩ ?_ (by simp only [List.forall_mem_cons]; decide) ?_
  · intro c hc
    rcases List.mem_pair.mp hc with rfl | rfl
    · refine ⟨⟨tiny_inVocab (by decide +kernel), fun k => ?_⟩, rfl⟩
      show InVocab tinyModel (if k = 0 then 3 else 9)
      split_ifs <;> decide +kernel
    · exact ⟨⟨tiny_inVocab (by decide +kernel), fun _ => (by decide +kernel : InVocab tinyModel 5)⟩, rfl⟩
  · exact ⟨by decide +kernel, by decide +kernel, trivial⟩

end DenseLite.Infer.Reuse
