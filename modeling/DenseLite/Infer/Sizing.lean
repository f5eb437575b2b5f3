import Mathlib.Tactic.Positivity
import DenseLite.Infer.Local

/-! # The context size and the memory it stands for

The governor compares the bytes of a context with its budget in 64-bit arithmetic, and
`init_inference_state` multiplies the floats of a layer in 32-bit arithmetic. `largest_spec` says that
the count the governor gives is the largest one that passes its test; `sizing_covered_iff`, when the
memory of that count is within the budget and is allocated in full. -/

namespace DenseLite.Infer.Sizing

open DenseLite.Lib.FlatRows DenseLite.Infer.State DenseLite.Infer.Local

/-! ### Rounding -/

/-- A rounding adds at most one unit in the last place. -/
theorem roundDouble_le (n : ℕ) : roundDouble n ≤ n + n / 2 ^ 52 := by
  unfold roundDouble
  dsimp only
  have hdiv := Nat.div_add_mod n (2 ^ (n.log2 - 52))
  rw [Nat.mul_comm] at hdiv
  split_ifs with hup
  · -- a number that is rounded up has more than 53 bits, and its unit is a small part of it
    have hlog : 52 ≤ n.log2 := by
      by_contra hlt
      rw [Nat.sub_eq_zero_of_le (by omega), Nat.pow_zero, Nat.mod_one] at hup
      omega
    have hn : n ≠ 0 := by
      rintro rfl
      simp at hlog
    have hunit : 2 ^ (n.log2 - 52) ≤ n / 2 ^ 52 := by
      rw [Nat.le_div_iff_mul_le (by positivity), ← Nat.pow_add, Nat.sub_add_cancel hlog]
      exact Nat.log2_self_le hn
    rw [Nat.add_mul, Nat.one_mul]
    omega
  · omega

theorem ninetyPercent_lt {n : ℕ} (h : n < 2 ^ 64) : ninetyPercent n < 2 ^ 64 := by
  unfold ninetyPercent
  have h1 := roundDouble_le n
  have h2 := roundDouble_le (roundDouble n * 8106479329266893)
  omega

theorem dynamicKvBudget_lt (host : HostMemory) : dynamicKvBudget host < 2 ^ 64 := by
  unfold dynamicKvBudget
  have h := host.ceiling.toNat_lt
  exact ninetyPercent_lt (by omega)

/-! ### The count the governor gives -/

/-- The token counts the governor gives, none apart. -/
def Offered (u : ℕ) : Prop :=
  u = 65536 ∨ u = 32768 ∨ u = 16384 ∨ (0 < u ∧ u ≤ 8192 ∧ 1024 ∣ u)

/-- The bytes a token takes in all layers, K and V, as a number without bound. -/
def tokenBytes (c : ModelConfig) : ℕ :=
  8 * c.numLayers.toNat * c.numKvHeads.toNat * c.headDim.toNat

/-- What 64 bits keep of them, or the default where that is nothing. -/
def wrappedBytes (c : ModelConfig) : ℕ :=
  if tokenBytes c % 2 ^ 64 = 0 then 57344 else tokenBytes c % 2 ^ 64

/-- The governor's test of a count: the product of a large one wraps, a small one comes from a division. -/
def PassesTest (c : ModelConfig) (host : HostMemory) (u : ℕ) : Prop :=
  (if 16384 ≤ u then u * wrappedBytes c % 2 ^ 64 else u * wrappedBytes c) ≤ dynamicKvBudget host

/-- The memory of `t` tokens is within the budget, and every layer gets all its floats. -/
structure Covered (c : ModelConfig) (host : HostMemory) (t : ℕ) : Prop where
  budget : t * tokenBytes c ≤ dynamicKvBudget host
  layers : Shaped c.numLayers.toNat (t * c.numKvHeads.toNat * c.headDim.toNat)
    (initInferenceState c t {}).cache

/-- The true sizes of `u` tokens fit the arithmetic: the bytes in 64 bits, the floats of a layer in 32. -/
def Exact (c : ModelConfig) (u : ℕ) : Prop :=
  u * tokenBytes c < 2 ^ 64 ∧ u * c.numKvHeads.toNat * c.headDim.toNat < 2 ^ 32

section Sizes

variable {c : ModelConfig} {host : HostMemory}

theorem wrappedBytes_pos : 0 < wrappedBytes c := by
  unfold wrappedBytes
  split_ifs <;> omega

theorem bytesPerToken_eq (hL : 0 < c.numLayers) (hK : 0 < c.numKvHeads) :
    bytesPerToken c = wrappedBytes c := by
  have hcomm : c.numLayers.toNat * c.numKvHeads.toNat * c.headDim.toNat * 8 = tokenBytes c := by
    unfold tokenBytes
    ring
  unfold bytesPerToken wrappedBytes
  simp only [if_pos (And.intro hL hK), hcomm]

theorem passesTest_large {u : ℕ} (h : 16384 ≤ u) :
    PassesTest c host u ↔ u * wrappedBytes c % 2 ^ 64 ≤ dynamicKvBudget host := by
  unfold PassesTest
  rw [if_pos h]

theorem passesTest_small {u : ℕ} (h : u ≤ 8192) :
    PassesTest c host u ↔ u ≤ dynamicKvBudget host / wrappedBytes c := by
  unfold PassesTest
  rw [if_neg (by omega), Nat.le_div_iff_mul_le wrappedBytes_pos]

/-- **What the governor gives**: none, or the largest of its counts that passes its test. -/
theorem largest_spec (host : HostMemory) (hL : 0 < c.numLayers) (hK : 0 < c.numKvHeads) :
    (calculateDynamicContextTokens c host = 0 ∨
      Offered (calculateDynamicContextTokens c host) ∧
        PassesTest c host (calculateDynamicContextTokens c host)) ∧
    ∀ u, Offered u → PassesTest c host u → u ≤ calculateDynamicContextTokens c host := by
  unfold calculateDynamicContextTokens
  dsimp only
  rw [bytesPerToken_eq hL hK]
  split_ifs with h64 h32 h16 <;> rw [← passesTest_large (by omega)] at *
  · exact ⟨Or.inr ⟨Or.inl rfl, h64⟩, fun u hu _ => by unfold Offered at hu; omega⟩
  · refine ⟨Or.inr ⟨Or.inr (Or.inl rfl), h32⟩, ?_⟩
    rintro u (rfl | rfl | rfl | hu) hpass
    · exact absurd hpass h64
    all_goals omega
  · refine ⟨Or.inr ⟨Or.inr (Or.inr (Or.inl rfl)), h16⟩, ?_⟩
    rintro u (rfl | rfl | rfl | hu) hpass
    · exact absurd hpass h64
    · exact absurd hpass h32
    all_goals omega
  · -- the division, rounded down to a multiple of 1024
    constructor
    · by_cases h0 : min (dynamicKvBudget host / wrappedBytes c / 1024 * 1024) 8192 = 0
      · exact Or.inl h0
      · refine Or.inr ⟨Or.inr (Or.inr (Or.inr ⟨by omega, by omega, by omega⟩)), ?_⟩
        rw [passesTest_small (by omega)]
        omega
    · rintro u (rfl | rfl | rfl | ⟨-, h8, hdvd⟩) hpass
      · exact absurd hpass h64
      · exact absurd hpass h32
      · exact absurd hpass h16
      · rw [passesTest_small h8] at hpass
        omega

/-! ### When the memory is covered -/

theorem Offered.le {u : ℕ} (h : Offered u) : u ≤ 65536 := by
  unfold Offered at h
  omega

theorem Exact.mono {u t : ℕ} (h : u ≤ t) (ht : Exact c t) : Exact c u :=
  ⟨(Nat.mul_le_mul_right _ h).trans_lt ht.1,
    (Nat.mul_le_mul_right _ (Nat.mul_le_mul_right _ h)).trans_lt ht.2⟩

/-- The floats of a layer of the cache of a fresh state. -/
theorem init_shaped (t : ℕ) : Shaped c.numLayers.toNat (layerFloats c t) (initInferenceState c t {}).cache := by
  have hcache : (initInferenceState c t {}).cache =
      List.replicate c.numLayers.toNat (zeroLayer (layerFloats c t)) := by
    unfold initInferenceState
    simp [resize]
  rw [hcache]
  exact shaped_replicate _ _

/-- A layer gets all its floats when they are less than `2 ^ 32`, and only then. -/
theorem layers_iff (hL : 0 < c.numLayers) {t : ℕ} (ht : t ≤ 65536) :
    Shaped c.numLayers.toNat (t * c.numKvHeads.toNat * c.headDim.toNat)
        (initInferenceState c t {}).cache ↔ t * c.numKvHeads.toNat * c.headDim.toNat < 2 ^ 32 := by
  have hsh := init_shaped (c := c) t
  have hfloats : layerFloats c t = t * c.numKvHeads.toNat * c.headDim.toNat % 2 ^ 32 := by
    unfold layerFloats
    rw [Int.emod_eq_of_lt (by omega) (by omega), Int.toNat_natCast]
  rw [hfloats] at hsh
  constructor
  · intro h
    have hpos : 0 < (initInferenceState c t {}).cache.length := by
      rw [hsh.length]
      exact hL
    obtain ⟨l, hl⟩ := List.exists_mem_of_length_pos hpos
    rw [← (h.size l hl).1, (hsh.size l hl).1]
    exact Nat.mod_lt _ (by norm_num)
  · intro h
    rwa [Nat.mod_eq_of_lt h] at hsh

/-- A count that passes the test in exact arithmetic is within the budget. -/
theorem budget_of_exact (hL : 0 < c.numLayers) (hK : 0 < c.numKvHeads) (hH : 0 < c.headDim) {t : ℕ}
    (h0 : 0 < t) (hpass : PassesTest c host t) (hex : Exact c t) :
    t * tokenBytes c ≤ dynamicKvBudget host := by
  have hN : 0 < tokenBytes c := by
    unfold tokenBytes
    have h1 : 0 < c.numLayers.toNat := hL
    have h2 : 0 < c.numKvHeads.toNat := hK
    have h3 : 0 < c.headDim.toNat := hH
    positivity
  have hle : tokenBytes c ≤ t * tokenBytes c := Nat.le_mul_of_pos_left _ h0
  have hbytes : wrappedBytes c = tokenBytes c := by
    unfold wrappedBytes
    rw [Nat.mod_eq_of_lt (hle.trans_lt hex.1), if_neg (by omega)]
  unfold PassesTest at hpass
  rw [hbytes, Nat.mod_eq_of_lt hex.1, ite_self] at hpass
  exact hpass

end Sizes

/-- **The sizing**: the count the governor gives is within the budget and allocated in full exactly when
every count that passes its test has sizes that fit the arithmetic. -/
theorem sizing_covered_iff (c : ModelConfig) (host : HostMemory) (hL : 0 < c.numLayers)
    (hK : 0 < c.numKvHeads) (hH : 0 < c.headDim) :
    Covered c host (calculateDynamicContextTokens c host) ↔
      ∀ u, Offered u → PassesTest c host u → Exact c u := by
  obtain ⟨hgiven, hmax⟩ := largest_spec host hL hK
  have hle : calculateDynamicContextTokens c host ≤ 65536 := calculateDynamicContextTokens_le
  constructor
  · rintro ⟨hbudget, hlayers⟩ u hu hpass
    have hlt := dynamicKvBudget_lt host
    exact Exact.mono (hmax u hu hpass) ⟨hbudget.trans_lt hlt, (layers_iff hL hle).mp hlayers⟩
  · intro h
    rcases hgiven with h0 | ⟨hoff, hpass⟩
    · rw [h0]
      refine ⟨by omega, (layers_iff hL (by omega)).mpr ?_⟩
      rw [Nat.zero_mul, Nat.zero_mul]
      norm_num
    · have hex := h _ hoff hpass
      have hpos : 0 < calculateDynamicContextTokens c host := by
        unfold Offered at hoff
        omega
      exact ⟨budget_of_exact hL hK hH hpos hpass hex, (layers_iff hL hle).mpr hex.2⟩

/-- The sizes of a small model. -/
def smallConfig : ModelConfig := { numLayers := 24, numKvHeads := 2, headDim := 64 }

/-- A host with 16 GiB. -/
def smallHost : HostMemory := ⟨17179869184, 17179869184, 0⟩

theorem sizing_covered_iff_small :
    Covered smallConfig smallHost (calculateDynamicContextTokens smallConfig smallHost) ↔
      ∀ u, Offered u → PassesTest smallConfig smallHost u → Exact smallConfig u :=
  sizing_covered_iff smallConfig smallHost (by decide) (by decide) (by decide)

/-- A token of `2 ^ 48` bytes: a context of `2 ^ 16` of them takes no bytes in 64-bit arithmetic, so a host
without memory is given it, and its layers are empty. -/
theorem sizing_not_covered : ∃ c : ModelConfig, 0 < c.numLayers ∧ 0 < c.numKvHeads ∧ 0 < c.headDim ∧
    tokenBytes c = 2 ^ 48 ∧ dynamicKvBudget ⟨0, 0, 0⟩ = 0 ∧
    calculateDynamicContextTokens c ⟨0, 0, 0⟩ = 65536 ∧ layerFloats c 65536 = 0 ∧
    ¬ Covered c ⟨0, 0, 0⟩ (calculateDynamicContextTokens c ⟨0, 0, 0⟩) := by
  refine ⟨{ numLayers := 65536, numKvHeads := 8192, headDim := 65536 }, by decide, by decide, by decide,
    by decide, by decide +kernel, by decide +kernel, by decide, fun h => ?_⟩
  have hbudget := h.budget
  revert hbudget
  decide +kernel

end DenseLite.Infer.Sizing
