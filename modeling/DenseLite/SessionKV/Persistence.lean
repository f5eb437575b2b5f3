import DenseLite.Infer.Capacity
import DenseLite.SessionKV.RoundTrip

/-! # A session that leaves memory and comes back

A session of one model runs through any calls, is saved, dropped, and created again from its file.
The file has all cached tokens but only `current_pos` rows, and a later call reuses rows by its tokens:
`persistence_transparent_iff` says that the rows it reuses are those the session had in memory exactly
when every one of them beyond `current_pos` was zero there, of calls that are defined. -/

namespace DenseLite.SessionKV.Persistence

open DenseLite.Lib.ByteStream DenseLite.Lib.FlatRows DenseLite.Lib.Runs
open DenseLite.Infer.State DenseLite.Infer.Generate DenseLite.Infer.Setup DenseLite.Infer.Reuse
open DenseLite.Infer.Capacity DenseLite.SessionKV.Dlkv DenseLite.SessionKV.RoundTrip

/-! ### The sessions that calls lead to -/

/-- What holds of a session of the model `m` after any calls. -/
structure Reached (m : DenseModel) (s : SessionKVState) : Prop where
  modelHash : s.modelHash = computeModelHash m.config
  modelIdentity : s.modelIdentity = m.config.modelId
  tokenizerIdentity : s.tokenizerIdentity = []
  numKvHeads : s.numKvHeads = int32OfU32 m.config.numKvHeads
  headDim : s.headDim = int32OfU32 m.config.headDim
  tokens : s.cachedTokens.length ≤ 65536
  state : (s.isInitialized = false ∧ s.state.cache = []) ∨
    (s.isInitialized = true ∧ (∃ cap < 2 ^ 32, Shaped m.config.numLayers.toNat cap s.state.cache) ∧
      0 ≤ s.state.currentPos ∧ s.state.currentPos ≤ s.maxContextAllocated ∧
      0 < s.maxContextAllocated ∧ s.maxContextAllocated ≤ 65536)

section Reached

variable {m : DenseModel} {s : SessionKVState} {c : Call}

theorem reached_newState (m : DenseModel) (now : ℤ) : Reached m (newState m.config now) where
  modelHash := rfl
  modelIdentity := rfl
  tokenizerIdentity := rfl
  numKvHeads := rfl
  headDim := rfl
  tokens := Nat.zero_le _
  state := Or.inl ⟨rfl, rfl⟩

/-- The context a session has after the setup of a call. -/
theorem setup_context_bounds (h : Reached m s) :
    ctxOf m c ≤ (setup m s c).session.maxContextAllocated ∧
      (setup m s c).session.maxContextAllocated ≤ 65536 := by
  have hle := ctx_le m c
  by_cases hr : Reinits s (ctxOf m c)
  · rw [setup_session_reinit hr]
    exact ⟨le_refl _, hle⟩
  · obtain ⟨pos, hs⟩ := setup_session_keep (m := m) hr
    obtain ⟨hi, hall⟩ := not_or.mp hr
    rw [hs]
    rcases h.state with ⟨h0, -⟩ | ⟨-, -, -, -, -, h64⟩
    · exact absurd h0 hi
    · exact ⟨by simpa using hall, h64⟩

/-- **One call keeps what holds of reached sessions.** -/
theorem reached_callStep (h : Reached m s) (hctx : 0 < ctxOf m c) : Reached m (callStep m s c) := by
  unfold callStep
  by_cases hp : c.prompt = []
  · rw [generate_empty hp]
    exact h
  obtain ⟨hpos0, hpos1, htok⟩ := generate_bounds (s := s) hp hctx
  obtain ⟨st, toks, hsess, -, hshaped⟩ := generate_frame (s := s) hp hctx
  obtain ⟨hc1, hc2⟩ := setup_context_bounds (c := c) h
  have hle := ctx_le m c
  have htok' := h.tokens
  have hshape : ∃ cap < 2 ^ 32, Shaped m.config.numLayers.toNat cap (setup m s c).session.state.cache := by
    rcases h.state with ⟨hi, hcache⟩ | ⟨-, ⟨cap, hcap, hs⟩, -⟩
    · exact ⟨_, Nat.mod_lt _ (by omega), setup_shaped_first hi hcache⟩
    · refine ⟨cap, hcap, ?_⟩
      rw [setup_cache_later hs]
      exact hs
  obtain ⟨cap, hcap, hs⟩ := hshape
  have hdims : (setup m s c).session.modelHash = s.modelHash ∧
      (setup m s c).session.modelIdentity = s.modelIdentity ∧
      (setup m s c).session.tokenizerIdentity = s.tokenizerIdentity ∧
      (setup m s c).session.numKvHeads = int32OfU32 m.config.numKvHeads ∧
      (setup m s c).session.headDim = int32OfU32 m.config.headDim := by
    by_cases hr : Reinits s (ctxOf m c)
    · rw [setup_session_reinit hr]
      exact ⟨rfl, rfl, rfl, rfl, rfl⟩
    · obtain ⟨pos, hset⟩ := setup_session_keep (m := m) hr
      rw [hset]
      exact ⟨rfl, rfl, rfl, h.numKvHeads, h.headDim⟩
  obtain ⟨d1, d2, d3, d4, d5⟩ := hdims
  rw [hsess] at hpos0 hpos1 htok ⊢
  refine ⟨d1.trans h.modelHash, d2.trans h.modelIdentity, d3.trans h.tokenizerIdentity, d4, d5, ?_, ?_⟩
  · show toks.length ≤ 65536
    have htok2 : (toks.length : ℤ) ≤ max (s.cachedTokens.length : ℤ) (ctxOf m c) := htok
    omega
  · refine Or.inr ⟨setup_initialized, ⟨cap, hcap, hshaped _ _ hs⟩, hpos0, ?_, ?_, hc2⟩
    · show st.currentPos ≤ (setup m s c).session.maxContextAllocated
      have hpos2 : st.currentPos < ctxOf m c := hpos1
      omega
    · show 0 < (setup m s c).session.maxContextAllocated
      omega

/-- The signed fields of an initialised reached session are `int`s. -/
theorem Reached.intFields (h : Reached m s) (hi : s.isInitialized = true) : IntFields s := by
  rcases h.state with ⟨h0, -⟩ | ⟨-, -, h0, h1, h2, h3⟩
  · simp [hi] at h0
  · refine ⟨?_, ?_, ?_, ?_⟩
    · rw [h.numKvHeads]
      exact isInt32_int32OfU32 _
    · rw [h.headDim]
      exact isInt32_int32OfU32 _
    · unfold IsInt32
      omega
    · unfold IsInt32
      omega

/-- **Every run leads to a reached session.** -/
theorem reached_run (now : ℤ) (cs : List Call) (hcs : ∀ c ∈ cs, 0 < ctxOf m c) :
    Reached m (cs.foldl (callStep m) (newState m.config now)) := by
  have hstep : ∀ s c, Reached m s → 0 < ctxOf m c → Reached m (callStep m s c) :=
    fun _ _ h hc => reached_callStep h hc
  exact foldl_invariant hstep cs _ (reached_newState m now) hcs

/-- The rows below `current_pos` lie inside the vectors, so that saving them reads nothing else. -/
def RowsInside (s : SessionKVState) : Prop :=
  ∀ l ∈ s.state.cache, s.state.currentPos * s.numKvHeads * s.headDim ≤ l.k.length ∧
    s.state.currentPos * s.numKvHeads * s.headDim ≤ l.v.length

/-- A reached session that is initialised is a session of its configuration. -/
theorem Reached.sessionOf (h : Reached m s) (hi : s.isInitialized = true) (hrows : RowsInside s) :
    SessionOf m.config s := by
  rcases h.state with ⟨h0, -⟩ | ⟨-, ⟨cap, hcap, hs⟩, h0, h1, h2, h3⟩
  · simp [hi] at h0
  · refine ⟨hi, hs.length, h.numKvHeads, h.headDim, h.modelHash, h.modelIdentity, ⟨h0, h1⟩, ?_, hrows, ?_⟩
    · unfold IsInt32
      omega
    · intro l hl
      rw [(hs.size l hl).1]
      omega

end Reached

/-! ### The rows of the restored session -/

section Restored

variable {m : DenseModel} {s : SessionKVState} {c : Call}

/-- The rows that are on disk. -/
def diskRows (m : DenseModel) (s : SessionKVState) : ℤ :=
  if m.config.numLayers.toNat < 2 ^ 31 then s.state.currentPos else 0

/-- The dimensions of a session whose file is accepted are those of the forward pass. -/
theorem rowWidth_eq (h : SessionOf m.config s) (hc : Carried s) (h0 : 0 < s.maxContextAllocated)
    (ha : Addressable m.config s.maxContextAllocated) : rowWidth s = m.config.numKvFeatures := by
  have hk : s.numKvHeads = m.config.numKvHeads.toNat := by
    have := hc.numKvHeads
    rw [h.numKvHeads] at this ⊢
    exact int32OfU32_of_lt ((int32OfU32_nonneg_iff _).mp (Int.le_of_lt this))
  have hd : s.headDim = m.config.headDim.toNat := by
    have := hc.headDim
    rw [h.headDim] at this ⊢
    exact int32OfU32_of_lt ((int32OfU32_nonneg_iff _).mp (Int.le_of_lt this))
  have hmul : s.maxContextAllocated * m.config.numKvHeads.toNat * m.config.headDim.toNat ≤
      ((2 ^ 31 : ℕ) : ℤ) := Int.le_of_lt ha
  rw [features_eq_of_mul_le h0 (by decide) hmul, rowWidth, hk, hd]
  exact_mod_cast rfl

/-- The vectors of the restored session have the rows of its context. -/
theorem layerFloats_context (h : SessionOf m.config s) (hc : Carried s) (h0 : 0 < s.maxContextAllocated)
    (ha : Addressable m.config s.maxContextAllocated) :
    layerFloats m.config s.maxContextAllocated = s.maxContextAllocated.toNat * rowWidth s := by
  have hall := h.allocated
  unfold IsInt32 at hall
  rw [layerFloats_eq h0 (by omega) ha, rowWidth_eq h hc h0 ha]

/-- A layer read back is zero after the rows that were saved. -/
theorem row_restored_zero {w p q cap n : ℕ} {v : List F32} (hv : q * w ≤ v.length) (hqp : q ≤ p)
    (hp : p < cap) (hn : n = cap * w) :
    row w p (resize n 0 (v.take (q * w))) = List.replicate w 0 := by
  have hlen : (v.take (q * w)).length = q * w := by
    rw [List.length_take]
    omega
  have hqw : q * w ≤ cap * w := Nat.mul_le_mul_right _ (by omega)
  have hpw : p * w + w ≤ cap * w := by
    rw [← Nat.succ_mul]
    exact Nat.mul_le_mul_right _ hp
  unfold resize
  rw [List.take_of_length_le (by omega)]
  exact row_append_replicate 0 hlen hqp (by omega)

/-- **The restored rows**: those on disk as they were, and zeros after them. -/
theorem kvRowAt_restoredCache (h : SessionOf m.config s) (hc : Carried s)
    (ha : Addressable m.config s.maxContextAllocated) {p : ℕ}
    (hp : (p : ℤ) < s.maxContextAllocated) :
    kvRowAt (rowWidth s) p (restoredCache m.config s) =
      if (p : ℤ) < diskRows m s then kvRowAt (rowWidth s) p s.state.cache
      else zeroRow (rowWidth s) m.config.numLayers.toNat := by
  have h0 : 0 < s.maxContextAllocated := by omega
  have hlen := layerFloats_context h hc h0 ha
  have hact := activeFloats_eq h hc
  have hpos := h.pos
  unfold restoredCache diskRows
  by_cases hlt : m.config.numLayers.toNat < 2 ^ 31
  · rw [if_pos hlt, if_pos hlt]
    split_ifs with hcur
    · refine kvRowAt_restoredLayer h hc ?_ hcur
      rw [hact, hlen]
      exact Nat.mul_le_mul_right _ (by omega)
    · have hrow : ∀ l ∈ s.state.cache,
          (row (rowWidth s) p (resize (layerFloats m.config s.maxContextAllocated) 0
            (l.k.take (activeFloats s))), row (rowWidth s) p (resize
            (layerFloats m.config s.maxContextAllocated) 0 (l.v.take (activeFloats s)))) =
            (List.replicate (rowWidth s) 0, List.replicate (rowWidth s) 0) := by
        intro l hl
        obtain ⟨hk, hv⟩ := activeFloats_le h hl
        rw [hact] at hk hv ⊢
        rw [row_restored_zero hk (by omega) (by omega) hlen,
          row_restored_zero hv (by omega) (by omega) hlen]
      unfold kvRowAt zeroRow
      rw [List.map_map, ← h.layers, ← List.map_const']
      exact List.map_congr_left hrow
  · rw [if_neg hlt, if_neg hlt, if_neg (by omega)]
    refine kvRowAt_replicate_zeroLayer ?_
    rw [hlen, ← Nat.succ_mul]
    exact Nat.mul_le_mul_right _ (by omega)

/-- The call reuses, of the session `s'`, only rows that it would also reuse of `s`, with the same
contents. -/
def Transparent (m : DenseModel) (s s' : SessionKVState) (c : Call) : Prop :=
  ∀ p < (setup m s' c).start, p < (setup m s c).start ∧
    kvRowAt m.config.numKvFeatures p (setup m s' c).session.state.cache =
      kvRowAt m.config.numKvFeatures p (setup m s c).session.state.cache

/-- Every row that the call would reuse beyond those on disk is zero in memory. -/
def NothingLost (m : DenseModel) (s : SessionKVState) (c : Call) : Prop :=
  Reinits s (ctxOf m c) ∨ Truncates (ctxOf m c) c.prompt ∨
    ∀ p : ℕ, diskRows m s ≤ p → p < matchPrefix s.cachedTokens c.prompt.dropLast →
      kvRowAt m.config.numKvFeatures p s.state.cache =
        zeroRow m.config.numKvFeatures m.config.numLayers.toNat

/-- A session that comes back uninitialised reuses nothing. -/
theorem transparent_of_uninitialized {s' : SessionKVState} (h : s'.isInitialized = false) :
    Transparent m s s' c := by
  intro p hp
  have hr : Reinits s' (ctxOf m c) := Or.inl h
  rw [setup_start, if_pos (Or.inl hr)] at hp
  exact absurd hp (Nat.not_lt_zero _)

/-- For a session that comes back with its tokens and its context, transparency is about the rows. -/
theorem transparent_iff_rows {s' : SessionKVState} (hi : s.isInitialized = true)
    (hi' : s'.isInitialized = true) (htok : s'.cachedTokens = s.cachedTokens)
    (hall : s'.maxContextAllocated = s.maxContextAllocated) :
    Transparent m s s' c ↔ Reinits s (ctxOf m c) ∨ Truncates (ctxOf m c) c.prompt ∨
      ∀ p < matchPrefix s.cachedTokens c.prompt.dropLast,
        kvRowAt m.config.numKvFeatures p s'.state.cache =
          kvRowAt m.config.numKvFeatures p s.state.cache := by
  have hreinits : Reinits s' (ctxOf m c) ↔ Reinits s (ctxOf m c) := by
    unfold Reinits
    rw [hi, hi', hall]
  unfold Transparent
  simp only [setup_start, hreinits, htok]
  by_cases hcase : Reinits s (ctxOf m c) ∨ Truncates (ctxOf m c) c.prompt
  · simp only [if_pos hcase]
    refine iff_of_true (fun p hp => absurd hp (Nat.not_lt_zero _)) ?_
    rcases hcase with h | h
    · exact Or.inl h
    · exact Or.inr (Or.inl h)
  · simp only [if_neg hcase]
    obtain ⟨hr, ht⟩ := not_or.mp hcase
    obtain ⟨pos, hs⟩ := setup_session_keep (m := m) hr
    obtain ⟨pos', hs'⟩ := setup_session_keep (m := m) (mt hreinits.mp hr)
    rw [hs, hs']
    constructor
    · intro h
      exact Or.inr (Or.inr fun p hp => (h p hp).2)
    · rintro (h | h | h)
      · exact absurd h hr
      · exact absurd h ht
      · exact fun p hp => ⟨hp, h p hp⟩

/-- **Transparency of a session of its configuration.** -/
theorem transparent_restored_iff {f : Bytes} {now : ℤ} (h : SessionOf m.config s) (hc : Carried s)
    (htok : s.cachedTokens.length ≤ 65536) (h0 : 0 < s.maxContextAllocated)
    (ha : Addressable m.config s.maxContextAllocated) (hctx : 0 < ctxOf m c)
    (hf : saveToDiskInternal s = some f) :
    Transparent m s (createState m.config now (some f)) c ↔ NothingLost m s c := by
  have hw := rowWidth_eq h hc h0 ha
  have hcreate : createState m.config now (some f) =
      restoredFrom m.config now s (restoredCache m.config s) := by
    rw [createState, restore_save h hc hf]
  have htake : (restoredFrom m.config now s (restoredCache m.config s)).cachedTokens =
      s.cachedTokens := by
    show s.cachedTokens.take (s.cachedTokens.length % 2 ^ 32) = s.cachedTokens
    rw [Nat.mod_eq_of_lt (by omega), List.take_length]
  rw [hcreate, transparent_iff_rows h.initialized rfl htake rfl]
  unfold NothingLost
  by_cases hcase : Reinits s (ctxOf m c) ∨ Truncates (ctxOf m c) c.prompt
  · rcases hcase with h' | h'
    · exact iff_of_true (Or.inl h') (Or.inl h')
    · exact iff_of_true (Or.inr (Or.inl h')) (Or.inr (Or.inl h'))
  obtain ⟨hr, ht⟩ := not_or.mp hcase
  rw [or_iff_right hr, or_iff_right hr, or_iff_right ht, or_iff_right ht]
  -- a matched index lies below the context of the session
  have hbound : ∀ p : ℕ, p < matchPrefix s.cachedTokens c.prompt.dropLast →
      (p : ℤ) < s.maxContextAllocated := by
    intro p hp
    have hstart := start_lt_ctx (m := m) (s := s) hctx
    rw [setup_start, if_neg hcase] at hstart
    have hkeep := (not_or.mp hr).2
    omega
  have hrow : ∀ p : ℕ, p < matchPrefix s.cachedTokens c.prompt.dropLast →
      kvRowAt m.config.numKvFeatures p (restoredFrom m.config now s (restoredCache m.config s)).state.cache =
        if (p : ℤ) < diskRows m s then kvRowAt m.config.numKvFeatures p s.state.cache
        else zeroRow m.config.numKvFeatures m.config.numLayers.toNat := by
    intro p hp
    rw [← hw]
    exact kvRowAt_restoredCache h hc ha (hbound p hp)
  constructor
  · intro hsame p hdisk hp
    have := hsame p hp
    rw [hrow p hp, if_neg (by omega)] at this
    exact this.symm
  · intro hzero p hp
    rw [hrow p hp]
    split_ifs with hdisk
    · rfl
    · exact (hzero p (by omega) hp).symm

end Restored

/-! ### Runs that are defined -/

/-- Nothing that happens is undefined: not in the calls, nor when the file is read, nor in the next call,
on the session in memory or on the one that comes back. -/
structure RunDefined (m : DenseModel) (now now' : ℤ) (cs : List Call) (c : Call) (f : Bytes) : Prop where
  calls : EveryStep (callStep m) (Defined m) (newState m.config now) cs
  reader : (createState m.config now' (some f)).isInitialized = true → InvFreqInBounds m.config
  inMemory : Defined m (cs.foldl (callStep m) (newState m.config now)) c
  restored : Defined m (createState m.config now' (some f)) c

section RunDefined

variable {m : DenseModel} {now now' : ℤ} {cs : List Call} {c : Call} {f : Bytes}

/-- A session that calls have initialised is of a model with an even head dimension, if they are defined. -/
theorem evenHead_of_run (hcs : ∀ c ∈ cs, StartsDefined m c)
    (hi : (cs.foldl (callStep m) (newState m.config now)).isInitialized = true) : EvenHead m.config := by
  refine foldl_invariant (I := fun s => s.isInitialized = true → EvenHead m.config) ?_ cs
    (newState m.config now) ?_ hcs hi
  · rintro s c hs (hp | ⟨heven, -⟩) hi
    · rw [callStep, generate_empty hp] at hi
      exact hs hi
    · exact heven
  · intro h
    cases h

theorem runDefined_iff (hf : saveToDiskInternal (cs.foldl (callStep m) (newState m.config now)) = some f) :
    RunDefined m now now' cs c f ↔ (∀ c ∈ cs, StartsDefined m c) ∧ StartsDefined m c := by
  have hcalls : EveryStep (callStep m) (fun s c => Defined m s c) (newState m.config now) cs ↔
      ∀ c ∈ cs, StartsDefined m c := everyStep_defined_iff (callStep m) id cs (newState m.config now)
  constructor
  · rintro ⟨hrun, -, hnext, -⟩
    exact ⟨hcalls.mp hrun, defined_iff.mp hnext⟩
  · rintro ⟨hcs, hc⟩
    have heven := evenHead_of_run hcs (initialized_of_save hf)
    exact ⟨hcalls.mpr hcs, fun _ => invFreqInBounds_iff.mpr heven, defined_iff.mpr hc, defined_iff.mpr hc⟩

/-- Rows are reused from the file as from memory exactly when it is refused, or nothing is lost. -/
theorem transparent_iff (hcs : ∀ c ∈ cs, 0 < ctxOf m c) (hctx : 0 < ctxOf m c)
    (ha : Addressable m.config
      (cs.foldl (callStep m) (newState m.config now)).maxContextAllocated)
    (hrows : RowsInside (cs.foldl (callStep m) (newState m.config now)))
    (hf : saveToDiskInternal (cs.foldl (callStep m) (newState m.config now)) = some f) :
    Transparent m (cs.foldl (callStep m) (newState m.config now)) (createState m.config now' (some f)) c ↔
      ¬ (m.config.modelId.length < 4096 ∧ 0 < int32OfU32 m.config.numKvHeads ∧
          0 < int32OfU32 m.config.headDim) ∨
        NothingLost m (cs.foldl (callStep m) (newState m.config now)) c := by
  have hreach := reached_run now cs hcs
  set s := cs.foldl (callStep m) (newState m.config now) with hs
  have hi : s.isInitialized = true := initialized_of_save hf
  have hof := hreach.sessionOf hi hrows
  by_cases hc : m.config.modelId.length < 4096 ∧ 0 < int32OfU32 m.config.numKvHeads ∧
      0 < int32OfU32 m.config.headDim
  · have hcarried : Carried s := by
      refine ⟨by rw [hreach.modelIdentity]; exact hc.1, hreach.tokenizerIdentity, ?_, ?_⟩
      · rw [hreach.numKvHeads]
        exact hc.2.1
      · rw [hreach.headDim]
        exact hc.2.2
    have h0 : 0 < s.maxContextAllocated := by
      rcases hreach.state with ⟨h0, -⟩ | ⟨-, -, -, -, h0, -⟩
      · simp [hi] at h0
      · exact h0
    rw [transparent_restored_iff hof hcarried hreach.tokens h0 ha hctx hf,
      or_iff_right (not_not.mpr hc)]
  · refine iff_of_true (transparent_of_uninitialized ?_) (Or.inl hc)
    -- the reader refuses the file
    by_contra hinit
    rw [Bool.not_eq_false] at hinit
    have hm : s.modelIdentity.length < 4096 := by
      by_contra hlong
      have hno : (restore m.config f (newState m.config now')).session.isInitialized = false :=
        restore_long_identity hof (by omega) hf
      simp [createState, hno] at hinit
    have hcarried := carried_of_initialized hof hm hreach.tokenizerIdentity hf hinit
    refine hc ⟨by rw [← hreach.modelIdentity]; exact hm, ?_, ?_⟩
    · rw [← hreach.numKvHeads]
      exact hcarried.numKvHeads
    · rw [← hreach.headDim]
      exact hcarried.headDim

end RunDefined

/-- **Persistence is transparent** for a session reached by any calls: all of it is defined, and the next
call reuses the rows it would have reused, exactly when the head dimension is even, no context has one
token only, and the file is refused or no row that the next call would reuse beyond those on disk is more
than zero. -/
theorem persistence_transparent_iff (m : DenseModel) (now now' : ℤ) (cs : List Call) (c : Call)
    (f : Bytes) (hcs : ∀ c ∈ cs, 0 < ctxOf m c) (hctx : 0 < ctxOf m c)
    (ha : Addressable m.config
      (cs.foldl (callStep m) (newState m.config now)).maxContextAllocated)
    (hrows : RowsInside (cs.foldl (callStep m) (newState m.config now)))
    (hf : saveToDiskInternal (cs.foldl (callStep m) (newState m.config now)) = some f) :
    RunDefined m now now' cs c f ∧ Transparent m (cs.foldl (callStep m) (newState m.config now))
        (createState m.config now' (some f)) c ↔
      ((∀ c ∈ cs, StartsDefined m c) ∧ StartsDefined m c) ∧
        (¬ (m.config.modelId.length < 4096 ∧ 0 < int32OfU32 m.config.numKvHeads ∧
            0 < int32OfU32 m.config.headDim) ∨
          NothingLost m (cs.foldl (callStep m) (newState m.config now)) c) := by
  rw [runDefined_iff hf, transparent_iff hcs hctx ha hrows hf]

/-- One call that draws the token `3` and then an end of sequence. -/
def eosRun : List Call := [⟨[1, 2], 2, 16, fun k => if k = 0 then 3 else 9⟩]

/-- The file of the session after it. -/
def eosFile : Bytes :=
  (saveToDiskInternal (eosRun.foldl (callStep tinyModel) (newState tinyModel.config 0))).getD []

theorem persistence_transparent_iff_tiny :
    RunDefined tinyModel 0 0 eosRun ⟨[1, 2, 4], 1, 16, fun _ => 5⟩ eosFile ∧
        Transparent tinyModel (eosRun.foldl (callStep tinyModel) (newState tinyModel.config 0))
          (createState tinyModel.config 0 (some eosFile)) ⟨[1, 2, 4], 1, 16, fun _ => 5⟩ ↔
      ((∀ c ∈ eosRun, StartsDefined tinyModel c) ∧ StartsDefined tinyModel ⟨[1, 2, 4], 1, 16, fun _ => 5⟩) ∧
        (¬ (tinyModel.config.modelId.length < 4096 ∧ 0 < int32OfU32 tinyModel.config.numKvHeads ∧
            0 < int32OfU32 tinyModel.config.headDim) ∨
          NothingLost tinyModel (eosRun.foldl (callStep tinyModel) (newState tinyModel.config 0))
            ⟨[1, 2, 4], 1, 16, fun _ => 5⟩) := by
  refine persistence_transparent_iff tinyModel 0 0 eosRun _ eosFile ?_ (by decide +kernel)
    (by decide +kernel) ?_ (by decide +kernel)
  · intro c hc
    rw [List.mem_singleton.mp hc]
    decide +kernel
  · unfold RowsInside
    decide +kernel

/-- The row of the token before the end of sequence is in memory, and not in the file. -/
theorem persistence_not_transparent :
    (∀ c ∈ eosRun, StartsDefined tinyModel c) ∧
    saveToDiskInternal (eosRun.foldl (callStep tinyModel) (newState tinyModel.config 0)) = some eosFile ∧
    ¬ Transparent tinyModel (eosRun.foldl (callStep tinyModel) (newState tinyModel.config 0))
      (createState tinyModel.config 0 (some eosFile)) ⟨[1, 2, 3, 4], 1, 16, fun _ => 5⟩ := by
  refine ⟨?_, by decide +kernel, fun h => ?_⟩
  · simp only [eosRun, List.forall_mem_singleton]
    decide
  · have hrow := (h 2 (by decide +kernel)).2
    revert hrow
    decide +kernel

end DenseLite.SessionKV.Persistence
