import DenseLite.Infer.Reuse

/-! # The capacity of the cache

`init_inference_state` gives a layer its floats only when it creates the layer: the `resize` on a cache
that is already there keeps every vector as it is. So a session whose context grows after its first
call records the larger context in `max_context_allocated` over vectors of the old size.

`capacity_iff` says which runs keep the capacity: exactly those, of calls that are defined, in which the
first call allocates an addressable cache and no later call asks for a larger context. -/

namespace DenseLite.Infer.Capacity

open DenseLite.Lib.ByteStream DenseLite.Lib.FlatRows DenseLite.Lib.Runs
open DenseLite.Infer.State DenseLite.Infer.Generate DenseLite.Infer.Setup DenseLite.Infer.Reuse

/-- One call on a session. -/
def callStep (m : DenseModel) (s : SessionKVState) (c : Call) : SessionKVState := (generate m s c).session

/-- The row at `p` lies inside a vector of `len` floats, at offsets that are exact `int`s. -/
def RowInside (c : ModelConfig) (p len : ℕ) : Prop :=
  (p + 1) * c.numKvFeatures < 2 ^ 31 ∧ (p + 1) * c.numKvFeatures ≤ len

/-- A vector of `len` floats has room for `alloc` positions, and for every row of a context. -/
def Holds (c : ModelConfig) (alloc ctx : ℤ) (len : ℕ) : Prop :=
  alloc * c.numKvHeads.toNat * c.headDim.toNat ≤ len ∧ ∀ p : ℕ, p < ctx → RowInside c p len

/-- After the setup of the call, every layer has room on both sides. -/
def CapacityOk (m : DenseModel) (s : SessionKVState) (c : Call) : Prop :=
  c.prompt ≠ [] → ∀ l ∈ (setup m s c).session.state.cache,
    Holds m.config (setup m s c).session.maxContextAllocated (ctxOf m c) l.k.length ∧
      Holds m.config (setup m s c).session.maxContextAllocated (ctxOf m c) l.v.length

/-- A model without layers, or whose rows are empty. -/
def Degenerate (c : ModelConfig) : Prop := c.numLayers = 0 ∨ c.numKvHeads = 0 ∨ c.headDim = 0

/-- The call allocates an addressable cache if the session has none yet, and asks for no larger context
if it has one. -/
def NoGrowth (m : DenseModel) (s : SessionKVState) (c : Call) : Prop :=
  c.prompt = [] ∨ Degenerate m.config ∨
    if s.isInitialized then ctxOf m c ≤ s.maxContextAllocated else Addressable m.config (ctxOf m c)

instance (c : ModelConfig) : Decidable (Degenerate c) := inferInstanceAs (Decidable (_ ∨ _ ∨ _))

instance (m : DenseModel) (s : SessionKVState) (c : Call) : Decidable (NoGrowth m s c) :=
  inferInstanceAs (Decidable (_ ∨ _ ∨ ite _ _ _))

/-- The sessions of a run that kept its capacity: not initialised, or with layers of one size, that of
`max_context_allocated`. -/
def Allocated (m : DenseModel) (s : SessionKVState) : Prop :=
  (s.isInitialized = false ∧ s.state.cache = []) ∨
    (s.isInitialized = true ∧ ∃ cap, Shaped m.config.numLayers.toNat cap s.state.cache ∧
      (¬ Degenerate m.config → 0 < s.maxContextAllocated ∧ s.maxContextAllocated ≤ 65536 ∧
        Addressable m.config s.maxContextAllocated ∧
          cap = layerFloats m.config s.maxContextAllocated))

/-! ### Room for a context -/

section Room

variable {c : ModelConfig}

theorem features_eq_of_mul_le {alloc : ℤ} {len : ℕ} (h0 : 0 < alloc) (hlen : len < 2 ^ 32)
    (h : alloc * c.numKvHeads.toNat * c.headDim.toNat ≤ len) :
    c.numKvFeatures = c.numKvHeads.toNat * c.headDim.toNat := by
  obtain ⟨n, rfl⟩ := Int.eq_ofNat_of_zero_le (Int.le_of_lt h0)
  have h' : n * c.numKvHeads.toNat * c.headDim.toNat ≤ len := by exact_mod_cast h
  exact numKvFeatures_eq (by exact_mod_cast h0) (h'.trans_lt hlen)

/-- A vector with room for a context is addressable. -/
theorem Holds.addressable {alloc ctx : ℤ} {len : ℕ} (h : Holds c alloc ctx len) (h0 : 0 < alloc)
    (hctx : 0 < ctx) (hlen : len < 2 ^ 32) : Addressable c ctx := by
  obtain ⟨h1, h2⟩ := h
  have hfeat := features_eq_of_mul_le h0 hlen h1
  have hlast := (h2 (ctx - 1).toNat (by omega)).1
  obtain ⟨n, rfl⟩ := Int.eq_ofNat_of_zero_le (Int.le_of_lt hctx)
  have hn : ((n : ℤ) - 1).toNat + 1 = n := by omega
  rw [hn, hfeat, ← Nat.mul_assoc] at hlast
  unfold Addressable
  exact_mod_cast hlast

/-- The layers of an addressable context have room for it, and for every smaller one. -/
theorem holds_layerFloats {alloc ctx : ℤ} (h0 : 0 < alloc) (hlt : alloc < 2 ^ 32)
    (ha : Addressable c alloc) (hle : ctx ≤ alloc) : Holds c alloc ctx (layerFloats c alloc) := by
  have hlen := layerFloats_eq h0 hlt ha
  have hfeat : c.numKvFeatures = c.numKvHeads.toNat * c.headDim.toNat := by
    unfold Addressable at ha
    have hn : alloc * c.numKvHeads.toNat * c.headDim.toNat ≤ ((2 ^ 31 : ℕ) : ℤ) := by
      push_cast
      omega
    exact features_eq_of_mul_le h0 (by decide) hn
  obtain ⟨n, rfl⟩ := Int.eq_ofNat_of_zero_le (Int.le_of_lt h0)
  rw [Int.toNat_natCast] at hlen
  have hbound : n * c.numKvFeatures < 2 ^ 31 := by
    unfold Addressable at ha
    rw [hfeat, ← Nat.mul_assoc]
    exact_mod_cast ha
  refine ⟨?_, fun p hp => ?_⟩
  · rw [hlen, hfeat, ← Nat.mul_assoc]
    push_cast
    exact le_refl _
  · have hrow : (p + 1) * c.numKvFeatures ≤ n * c.numKvFeatures := Nat.mul_le_mul_right _ (by omega)
    exact ⟨by omega, by omega⟩

/-- A vector for a smaller context has no room for a larger one. -/
theorem not_holds_of_lt {alloc old ctx : ℤ} (h0 : 0 < old) (hlt : old < 2 ^ 32)
    (ha : Addressable c old) (hgrow : old < alloc) (hkv : c.numKvHeads ≠ 0) (hhd : c.headDim ≠ 0) :
    ¬ Holds c alloc ctx (layerFloats c old) := by
  rintro ⟨h, -⟩
  have hlen := layerFloats_eq h0 hlt ha
  have hfeat := features_eq_of_mul_le (by omega) (Nat.mod_lt _ (by omega)) h
  rw [hlen, hfeat] at h
  have hkv' : 0 < c.numKvHeads.toNat := Nat.pos_of_ne_zero fun h => hkv (UInt32.toNat_inj.mp h)
  have hhd' : 0 < c.headDim.toNat := Nat.pos_of_ne_zero fun h => hhd (UInt32.toNat_inj.mp h)
  have hw : (0 : ℤ) < (c.numKvHeads.toNat * c.headDim.toNat : ℕ) := by
    exact_mod_cast Nat.mul_pos hkv' hhd'
  have hmul : old * (c.numKvHeads.toNat * c.headDim.toNat : ℕ) <
      alloc * (c.numKvHeads.toNat * c.headDim.toNat : ℕ) := Int.mul_lt_mul_of_pos_right hgrow hw
  have hold : ((old.toNat : ℕ) : ℤ) = old := Int.toNat_of_nonneg (by omega)
  rw [Int.mul_assoc] at h
  push_cast at h hmul
  rw [hold] at h
  omega

theorem holds_of_degenerate {alloc ctx : ℤ} {len : ℕ} (h : c.numKvHeads = 0 ∨ c.headDim = 0) :
    Holds c alloc ctx len := by
  have hw : c.numKvFeatures = 0 := by
    rw [ModelConfig.numKvFeatures, UInt32.toNat_mul]
    rcases h with h | h <;> rw [h] <;> simp
  refine ⟨?_, fun p _ => ⟨?_, ?_⟩⟩
  · rcases h with h | h <;> rw [h] <;> simp
  · rw [hw]
    simp
  · rw [hw]
    simp

end Room

/-! ### One call -/

section OneCall

variable {m : DenseModel} {s : SessionKVState} {c : Call}

/-- In layers of one size, the room of one of them is the room of all. -/
theorem capacityOk_iff_of_shaped {cap : ℕ} (hp : c.prompt ≠ []) (hlayers : m.config.numLayers ≠ 0)
    (hs : Shaped m.config.numLayers.toNat cap (setup m s c).session.state.cache) :
    CapacityOk m s c ↔
      Holds m.config (setup m s c).session.maxContextAllocated (ctxOf m c) cap := by
  constructor
  · intro h
    have hpos : 0 < (setup m s c).session.state.cache.length := by
      rw [hs.length]
      exact Nat.pos_of_ne_zero fun h0 => hlayers (UInt32.toNat_inj.mp h0)
    obtain ⟨l, hl⟩ := List.exists_mem_of_length_pos hpos
    have hk := (h hp l hl).1
    rwa [(hs.size l hl).1] at hk
  · intro h _ l hl
    rw [(hs.size l hl).1, (hs.size l hl).2]
    exact ⟨h, h⟩

/-- The first call gives every layer the floats of its context. -/
theorem setup_shaped_first (hi : s.isInitialized = false) (hcache : s.state.cache = []) :
    Shaped m.config.numLayers.toNat (layerFloats m.config (ctxOf m c))
      (setup m s c).session.state.cache := by
  have hr : Reinits s (ctxOf m c) := Or.inl hi
  rw [setup_session_reinit hr]
  show Shaped _ _ (resize _ _ s.state.cache)
  rw [hcache, resize_nil]
  exact shaped_replicate _ _

/-- **One call keeps the capacity exactly when it does not grow the context.** -/
theorem capacityOk_iff (h : Allocated m s) (hctx : 0 < ctxOf m c) :
    CapacityOk m s c ↔ NoGrowth m s c := by
  have hle := ctx_le m c
  by_cases hp : c.prompt = []
  · exact ⟨fun _ => Or.inl hp, fun _ hne => absurd hp hne⟩
  by_cases hdeg : Degenerate m.config
  · refine ⟨fun _ => Or.inr (Or.inl hdeg), fun _ _ l hl => ?_⟩
    rcases hdeg with hl0 | hrow
    · -- no layer at all
      have hnil : (setup m s c).session.state.cache = [] := by
        rcases h with ⟨hi, hcache⟩ | ⟨hi, cap, hs, -⟩
        · have := (setup_shaped_first (m := m) (c := c) hi hcache).length
          rw [hl0] at this
          exact List.length_eq_zero_iff.mp this
        · rw [setup_cache_later hs]
          have := hs.length
          rw [hl0] at this
          exact List.length_eq_zero_iff.mp this
      simp [hnil] at hl
    · exact ⟨holds_of_degenerate hrow, holds_of_degenerate hrow⟩
  obtain ⟨hlayers, hkv, hhd⟩ := not_or.mp hdeg |>.imp id not_or.mp
  have hgrow : NoGrowth m s c ↔ if s.isInitialized then ctxOf m c ≤ s.maxContextAllocated
      else Addressable m.config (ctxOf m c) := by
    unfold NoGrowth
    simp only [hp, hdeg, false_or]
  rw [hgrow]
  rcases h with ⟨hi, hcache⟩ | ⟨hi, cap, hs, hcap⟩
  · have hr : Reinits s (ctxOf m c) := Or.inl hi
    rw [capacityOk_iff_of_shaped hp hlayers (setup_shaped_first hi hcache), setup_session_reinit hr, hi]
    simp only [Bool.false_eq_true, if_false]
    constructor
    · intro hh
      exact hh.addressable hctx hctx (Nat.mod_lt _ (by omega))
    · intro ha
      exact holds_layerFloats hctx (by omega) ha (le_refl _)
  · obtain ⟨h0, h64, ha, hcap'⟩ := hcap hdeg
    have hshape := hs
    rw [← setup_cache_later (c := c) hs] at hshape
    rw [capacityOk_iff_of_shaped hp hlayers hshape, hcap', hi, if_pos rfl]
    by_cases hr : Reinits s (ctxOf m c)
    · have hlt : s.maxContextAllocated < ctxOf m c := by
        rcases hr with hr | hr
        · simp [hi] at hr
        · exact hr
      rw [setup_session_reinit hr]
      refine iff_of_false (not_holds_of_lt h0 (by omega) ha hlt hkv hhd) (by omega)
    · obtain ⟨pos, hset⟩ := setup_session_keep (m := m) hr
      have hge : ctxOf m c ≤ s.maxContextAllocated := by
        have := (not_or.mp hr).2
        omega
      have h32 : s.maxContextAllocated < 2 ^ 32 := by omega
      rw [hset]
      exact iff_of_true (holds_layerFloats h0 h32 ha hge) hge

/-- **A call that does not grow the context leaves an allocated session.** -/
theorem callStep_allocated (h : Allocated m s) (hctx : 0 < ctxOf m c) (hn : NoGrowth m s c) :
    Allocated m (callStep m s c) := by
  have hle := ctx_le m c
  unfold callStep
  by_cases hp : c.prompt = []
  · rw [generate_empty hp]
    exact h
  obtain ⟨st, toks, hsess, -, hshaped⟩ := generate_frame (s := s) hp hctx
  rw [hsess]
  right
  refine ⟨setup_initialized, ?_⟩
  have hn' : ¬ Degenerate m.config → if s.isInitialized then ctxOf m c ≤ s.maxContextAllocated
      else Addressable m.config (ctxOf m c) := by
    intro hdeg
    simpa [NoGrowth, hp, hdeg] using hn
  rcases h with ⟨hi, hcache⟩ | ⟨hi, cap, hs, hcap⟩
  · have hr : Reinits s (ctxOf m c) := Or.inl hi
    refine ⟨_, hshaped _ _ (setup_shaped_first hi hcache), fun hdeg => ?_⟩
    have ha := hn' hdeg
    rw [hi] at ha
    rw [setup_session_reinit hr]
    exact ⟨hctx, hle, by simpa using ha, rfl⟩
  · refine ⟨cap, hshaped _ _ (by rw [setup_cache_later hs]; exact hs), fun hdeg => ?_⟩
    have hge := hn' hdeg
    rw [hi, if_pos rfl] at hge
    have hr : ¬ Reinits s (ctxOf m c) := by
      rintro (hr | hr)
      · simp [hi] at hr
      · omega
    obtain ⟨pos, hset⟩ := setup_session_keep (m := m) hr
    rw [hset]
    exact hcap hdeg

end OneCall

/-- **The capacity of a session along its runs**: every call is defined, and every layer has room for
`max_context_allocated` and for every row of every context, exactly when the head dimension is even, no
context has one token only, the first call allocates an addressable cache, and no later one grows the
context. -/
theorem capacity_iff (m : DenseModel) (s : SessionKVState) (cs : List Call)
    (hs : s.isInitialized = false ∧ s.state.cache = []) (hcs : ∀ c ∈ cs, 0 < c.contextBudget) :
    EveryStep (callStep m) (fun s c => Defined m s c ∧ CapacityOk m s c) s cs ↔
      EveryStep (callStep m) (fun s c => StartsDefined m c ∧ NoGrowth m s c) s cs := by
  have hcapacity : EveryStep (callStep m) (CapacityOk m) s cs ↔ EveryStep (callStep m) (NoGrowth m) s cs := by
    refine everyStep_iff_of_invariant (I := Allocated m) ?_ ?_ cs s (Or.inl hs) hcs
    · intro s c h hb
      exact capacityOk_iff h (ctx_pos_of_budget hb)
    · intro s c h hb hn
      exact callStep_allocated h (ctx_pos_of_budget hb) hn
  rw [everyStep_and, everyStep_and, everyStep_iff_forall_mem, hcapacity]
  exact and_congr_left fun _ => everyStep_defined_iff _ id cs s

/-- A run that stays within its first context keeps its capacity. -/
theorem capacity_iff_tiny :
    EveryStep (callStep tinyModel) (fun s c => Defined tinyModel s c ∧ CapacityOk tinyModel s c) {}
        [⟨[1, 2], 1, 16, fun _ => 3⟩, ⟨[1, 2, 3], 1, 8, fun _ => 3⟩] ↔
      EveryStep (callStep tinyModel) (fun s c => StartsDefined tinyModel c ∧ NoGrowth tinyModel s c) {}
        [⟨[1, 2], 1, 16, fun _ => 3⟩, ⟨[1, 2, 3], 1, 8, fun _ => 3⟩] := by
  refine capacity_iff tinyModel {} _ ⟨rfl, rfl⟩ ?_
  intro c hc
  rcases List.mem_pair.mp hc with rfl | rfl <;> decide

/-- A second call with twice the context finds vectors of the old size. -/
theorem capacity_lost : (∀ c ∈ ([⟨[1, 2], 1, 8, fun _ => 3⟩, ⟨[1, 2], 1, 16, fun _ => 3⟩] : List Call),
      0 < c.contextBudget ∧ StartsDefined tinyModel c) ∧
    ¬ EveryStep (callStep tinyModel) (CapacityOk tinyModel) {}
      [⟨[1, 2], 1, 8, fun _ => 3⟩, ⟨[1, 2], 1, 16, fun _ => 3⟩] := by
  constructor
  · simp only [List.forall_mem_cons]
    decide
  · rintro ⟨-, h, -⟩
    have hroom := (h (by decide) ⟨[1, 0, 2, 0, 0, 0, 0, 0, 0, 0, 0, 0, 0, 0, 0, 0],
      [1, 0, 2, 0, 0, 0, 0, 0, 0, 0, 0, 0, 0, 0, 0, 0]⟩ (by decide +kernel)).1.1
    revert hroom
    decide +kernel

end DenseLite.Infer.Capacity
