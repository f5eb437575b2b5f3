import Mathlib.Algebra.BigOperators.Fin
import Mathlib.Algebra.BigOperators.Intervals
import Mathlib.Tactic.IntervalCases
import Mathlib.Tactic.Ring

/-! # Vector registers

The registers of 128 and 256 bits as their lanes, lane 0 the lowest, and the instructions on them that
the kernels use. The floating-point lanes are elements of a ring. The sum over the lanes
(`laneSum`) is what a kernel keeps track of: one lemma for an accumulation, one for each of the ways the
lanes are added up in the end. Behind it is what loops over arrays write and add up. -/

namespace DenseLite.Lib.Simd

open Finset

/-! ### Registers -/

/-- `__m128i`, as bytes. -/
abbrev M128i := Fin 16 → BitVec 8

/-- `__m256i`, as bytes. -/
abbrev M256i := Fin 32 → BitVec 8

/-- `__m128`. -/
abbrev M128 (R : Type*) := Fin 4 → R

/-- `__m256`. -/
abbrev M256 (R : Type*) := Fin 8 → R

/-! ### Integers -/

/-- `_mm256_loadu_si256`. -/
def loaduSi256 (p : Fin 32 → BitVec 8) : M256i := p

/-- `_mm_loadu_si128`. -/
def loaduSi128 (p : Fin 16 → BitVec 8) : M128i := p

/-- `_mm256_castsi256_si128`. -/
def castsi256Si128 (r : M256i) : M128i := fun l => r ⟨l, by omega⟩

/-- `_mm256_extracti128_si256` of the upper half. -/
def extracti128Si256 (r : M256i) : M128i := fun l => r ⟨16 + l, by omega⟩

/-- `_mm_srli_si128`: a shift by `n` bytes, zeros coming in. -/
def srliSi128 (r : M128i) (n : ℕ) : M128i := fun l => if h : l + n < 16 then r ⟨l + n, h⟩ else 0

/-- The low eight bytes. -/
def lowBytes (r : M128i) : Fin 8 → BitVec 8 := fun l => r ⟨l, by omega⟩

/-- `_mm256_cvtepi8_epi32`, as its eight lanes of 32 bits: the low bytes with their sign. -/
def cvtepi8Epi32 (r : M128i) : Fin 8 → BitVec 32 := fun l => (lowBytes r l).signExtend 32

/-- `_mm_set1_epi8`. -/
def set1Epi8 (b : BitVec 8) : M128i := fun _ => b

/-- `_mm_and_si128`. -/
def andSi128 (a b : M128i) : M128i := fun l => a l &&& b l

/-- `_mm_sub_epi8`. -/
def subEpi8 (a b : M128i) : M128i := fun l => a l - b l

/-- The lanes of 16 bits of a register. -/
def words (r : M128i) : Fin 8 → BitVec 16 := fun l =>
  r ⟨2 * l + 1, by omega⟩ ++ r ⟨2 * l, by omega⟩

/-- The register with these lanes of 16 bits. -/
def ofWords (w : Fin 8 → BitVec 16) : M128i := fun l =>
  (w ⟨l / 2, by omega⟩ >>> (8 * (l.val % 2))).setWidth 8

/-- `_mm_srli_epi16`: a shift by `n` bits within every lane of 16 bits. -/
def srliEpi16 (r : M128i) (n : ℕ) : M128i := ofWords fun l => words r l >>> n

/-- `_mm_set1_epi16`. -/
def set1Epi16 (h : BitVec 16) : Fin 8 → BitVec 16 := fun _ => h

/-! ### Floating point -/

section Float

variable {R : Type*}

/-- `_mm256_loadu_ps`. -/
def loaduPs (p : ℕ → R) : M256 R := fun l => p l

/-- `_mm_cvtph_ps`, with the conversion of one number. -/
def cvtphPs (ph : BitVec 16 → R) (r : Fin 8 → BitVec 16) : M128 R := fun l => ph (r ⟨l, by omega⟩)

/-- `_mm256_broadcastss_ps`. -/
def broadcastssPs (a : M128 R) : M256 R := fun _ => a 0

/-- `_mm256_extractf128_ps` of the upper half. -/
def extractf128Ps (a : M256 R) : M128 R := fun l => a ⟨4 + l, by omega⟩

/-- `_mm256_castps256_ps128`. -/
def castps256Ps128 (a : M256 R) : M128 R := fun l => a ⟨l, by omega⟩

/-- `_mm_cvtss_f32`. -/
def cvtssF32 (a : M128 R) : R := a 0

variable [CommRing R]

/-- `_mm256_setzero_ps`. -/
def setzeroPs : M256 R := fun _ => 0

/-- `_mm256_cvtepi32_ps`. -/
def cvtepi32Ps (r : Fin 8 → BitVec 32) : M256 R := fun l => ((r l).toInt : R)

/-- `_mm256_mul_ps`. -/
def mulPs (a b : M256 R) : M256 R := fun l => a l * b l

/-- `_mm256_add_ps`. -/
def addPs (a b : M256 R) : M256 R := fun l => a l + b l

/-- `_mm_add_ps`. -/
def addPs128 (a b : M128 R) : M128 R := fun l => a l + b l

/-- `_mm256_fmadd_ps`. -/
def fmaddPs (a b c : M256 R) : M256 R := fun l => a l * b l + c l

/-- `_mm_hadd_ps`: the sums of neighbours in `a`, then those in `b`. -/
def haddPs (a b : M128 R) : M128 R := ![a 0 + a 1, a 2 + a 3, b 0 + b 1, b 2 + b 3]

/-! ### The sum over the lanes -/

/-- The sum of the lanes. -/
def laneSum (a : M256 R) : R := ∑ l, a l

@[simp] theorem laneSum_setzeroPs : laneSum (setzeroPs : M256 R) = 0 := by
  simp [laneSum, setzeroPs]

/-- An accumulation adds the products of the lanes. -/
theorem laneSum_fmaddPs (a b c : M256 R) : laneSum (fmaddPs a b c) = ∑ l, a l * b l + laneSum c :=
  sum_add_distrib

theorem laneSum_addPs (a b : M256 R) : laneSum (addPs a b) = laneSum a + laneSum b :=
  sum_add_distrib

/-- The halves added, then neighbours twice: the horizontal sum of a register. -/
theorem hadd_laneSum (a : M256 R) :
    cvtssF32 (haddPs (haddPs (addPs128 (extractf128Ps a) (castps256Ps128 a))
        (addPs128 (extractf128Ps a) (castps256Ps128 a)))
      (haddPs (addPs128 (extractf128Ps a) (castps256Ps128 a))
        (addPs128 (extractf128Ps a) (castps256Ps128 a)))) = laneSum a := by
  rw [laneSum, Fin.sum_univ_eight]
  show (a 4 + a 0 + (a 5 + a 1)) + (a 6 + a 2 + (a 7 + a 3)) = _
  ring

end Float

/-! ### The lanes of bytes -/

/-- The lower byte of a lane of 16 bits shifted by four, masked, is its upper half. -/
theorem low_shift (a b : BitVec 8) : ((a ++ b) >>> 4 >>> 0).setWidth 8 &&& 0x0f#8 = b >>> 4 := by
  ext i hi
  simp only [BitVec.getElem_and, BitVec.getElem_setWidth, BitVec.getLsbD_ushiftRight,
    BitVec.getLsbD_append, BitVec.getElem_ushiftRight]
  interval_cases i <;> simp

/-- So is the upper byte. -/
theorem high_shift (a b : BitVec 8) : ((a ++ b) >>> 4 >>> 8).setWidth 8 &&& 0x0f#8 = a >>> 4 := by
  ext i hi
  simp only [BitVec.getElem_and, BitVec.getElem_setWidth, BitVec.getLsbD_ushiftRight,
    BitVec.getLsbD_append, BitVec.getElem_ushiftRight]
  interval_cases i <;> simp

/-- A shift by four bits within the lanes of 16 bits, masked, is the upper half of each byte. -/
theorem and_srliEpi16 (r : M128i) :
    andSi128 (srliEpi16 r 4) (set1Epi8 0x0f) = fun l => r l >>> 4 := by
  funext l
  show (((r _ ++ r _ : BitVec 16) >>> 4) >>> (8 * (l.val % 2))).setWidth 8 &&& 0x0f#8 = _
  rcases Nat.mod_two_eq_zero_or_one l.val with h | h
  · rw [h, low_shift]
    congr 2
    exact Fin.ext (by dsimp only; omega)
  · rw [h, high_shift]
    congr 2
    exact Fin.ext (by dsimp only; omega)

/-! ### Loops over arrays -/

section Loops

variable {R σ : Type*}

/-- A loop whose rounds write what `v` says at the indices `W`, of which `P` says whether `k` is one. -/
theorem foldl_writes {ι : Type*} {step : (ℕ → R) → ι → ℕ → R} {W : ι → ℕ → Prop} {v : ℕ → R}
    [∀ j k, Decidable (W j k)] (hstep : ∀ y j k, step y j k = if W j k then v k else y k) (y : ℕ → R)
    (js : List ι) {k : ℕ} {P : Prop} [Decidable P] (hP : P ↔ ∃ j ∈ js, W j k) :
    js.foldl step y k = if P then v k else y k := by
  induction js generalizing y P with
  | nil =>
    rw [if_neg (by simp [hP])]
    rfl
  | cons j js ih =>
    by_cases hrest : ∃ j ∈ js, W j k
    · rw [List.foldl_cons, ih _ (iff_of_true trivial hrest), if_pos trivial, if_pos (by simp [hP, hrest])]
    · rw [List.foldl_cons, ih _ (iff_of_false not_false hrest), if_neg not_false, hstep]
      refine if_congr ?_ rfl rfl
      rw [hP, List.exists_mem_cons_iff, or_iff_left hrest]

/-- A loop that writes one element a round, each at its own index. -/
theorem foldl_update_range (out : ℕ → R) (v : ℕ → R) {n i : ℕ} (hi : i < n) :
    (List.range n).foldl (fun out i => Function.update out i (v i)) out i = v i := by
  have h : (List.range n).foldl (fun out i => Function.update out i (v i)) out i =
      if i < n then v i else out i :=
    foldl_writes (W := fun j k => k = j) (fun y j k => by
      rw [Function.update_apply]
      exact if_ctx_congr Iff.rfl (fun h => by rw [h]) fun _ => rfl) out _ (by simp)
  rw [h, if_pos hi]

/-- A loop none of whose rounds fails. -/
theorem foldlM_some {α : Type*} {step : σ → α → Option σ} {f : σ → α → σ} (s : σ) (xs : List α)
    (h : ∀ x ∈ xs, ∀ s, step s x = some (f s x)) : xs.foldlM step s = some (xs.foldl f s) := by
  induction xs generalizing s with
  | nil => rfl
  | cons x xs ih =>
    rw [List.foldlM_cons, h x (by simp), List.foldl_cons]
    exact ih (f s x) fun y hy => h y (by simp [hy])

variable [AddCommMonoid R]

/-- What every round of a loop adds to a quantity, the loop adds up. -/
theorem foldl_measure {μ : σ → R} {step : σ → ℕ → σ} {v : ℕ → R}
    (hstep : ∀ s i, μ (step s i) = μ s + v i) (s : σ) (n : ℕ) :
    μ ((List.range n).foldl step s) = μ s + ∑ i ∈ range n, v i := by
  induction n with
  | zero => simp
  | succ n ih =>
    rw [List.range_succ, List.foldl_append, List.foldl_cons, List.foldl_nil, hstep, ih, sum_range_succ,
      add_assoc]

/-- A sum in blocks of `w` terms. -/
theorem sum_range_blocks (f : ℕ → R) (w nb : ℕ) :
    ∑ k ∈ range (w * nb), f k = ∑ i ∈ range nb, ∑ j ∈ range w, f (i * w + j) := by
  induction nb with
  | zero => simp
  | succ nb ih => rw [Nat.mul_succ, sum_range_add, ih, sum_range_succ, Nat.mul_comm nb w]

end Loops

end DenseLite.Lib.Simd
