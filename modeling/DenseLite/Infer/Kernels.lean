import DenseLite.Lib.Simd
import DenseLite.Infer.State

/-! # The matrix kernels

The dot products of `avx2_math.hpp` on blocks of quantised weights, beside the scalar dequantisation
of `infer.cpp`, over any ring. Both kernels unpack a block into two registers of sixteen signed bytes
and then do the same with them (`accumulate`); `kernels_eq_scalar` says that what they add up is the
product with the dequantised row. -/

namespace DenseLite.Infer.Kernels

open Finset
open DenseLite.Lib.Simd
open DenseLite.Infer.State (TensorType)

/-! ### Blocks -/

/-- `block_q8_0`. -/
structure BlockQ8 where
  d : BitVec 16
  qs : Fin 32 → BitVec 8

/-- `block_q4_0`. -/
structure BlockQ4 where
  d : BitVec 16
  qs : Fin 16 → BitVec 8

/-- The bytes at an address as blocks of 34 bytes. -/
def blocksQ8 (data : ℕ → BitVec 8) (i : ℕ) : BlockQ8 where
  d := data (34 * i + 1) ++ data (34 * i)
  qs j := data (34 * i + 2 + j)

/-- The bytes at an address as blocks of 18 bytes. -/
def blocksQ4 (data : ℕ → BitVec 8) (i : ℕ) : BlockQ4 where
  d := data (18 * i + 1) ++ data (18 * i)
  qs j := data (18 * i + 2 + j)

section Kernels

variable {R : Type*} [CommRing R] (fp16 : BitVec 16 → R)

/-! ### Dequantisation -/

/-- `fp16_to_fp32`. -/
def fp16ToFp32 (h : BitVec 16) : R := cvtssF32 (cvtphPs fp16 (set1Epi16 h))

/-- `dequantize_q8_row`, into the buffer `y`. -/
def dequantizeQ8Row (x : ℕ → BlockQ8) (y : ℕ → R) (numBlocks : ℕ) : ℕ → R :=
  (List.range numBlocks).foldl (fun y i =>
    let d := fp16ToFp32 fp16 (x i).d
    (List.finRange 32).foldl (fun y (j : Fin 32) =>
      Function.update y (i * 32 + j) ((((x i).qs j).toInt : R) * d)) y) y

/-- `dequantize_q4_row`, into the buffer `y`. -/
def dequantizeQ4Row (x : ℕ → BlockQ4) (y : ℕ → R) (numBlocks : ℕ) : ℕ → R :=
  (List.range numBlocks).foldl (fun y i =>
    let d := fp16ToFp32 fp16 (x i).d
    (List.finRange 16).foldl (fun y (j : Fin 16) =>
      let x0 : ℤ := ((x i).qs j &&& 0x0f).toNat - 8
      let x1 : ℤ := ((x i).qs j >>> 4).toNat - 8
      Function.update (Function.update y (i * 32 + j) (x0 * d)) (i * 32 + j + 16) (x1 * d)) y) y

/-! ### Dot products -/

/-- What both kernels do with a block once it is unpacked into two registers of bytes: four times eight of
them are extended, converted, scaled by `vd`, and accumulated with the values at `y`. -/
def accumulate (vqLo vqHi : M128i) (vd : M256 R) (y : ℕ → R) (acc : M256 R) : M256 R :=
  let vi0 := cvtepi8Epi32 vqLo
  let vi1 := cvtepi8Epi32 (srliSi128 vqLo 8)
  let vi2 := cvtepi8Epi32 vqHi
  let vi3 := cvtepi8Epi32 (srliSi128 vqHi 8)
  let vf0 := mulPs (cvtepi32Ps vi0) vd
  let vf1 := mulPs (cvtepi32Ps vi1) vd
  let vf2 := mulPs (cvtepi32Ps vi2) vd
  let vf3 := mulPs (cvtepi32Ps vi3) vd
  let vy0 := loaduPs fun k => y (0 + k)
  let vy1 := loaduPs fun k => y (8 + k)
  let vy2 := loaduPs fun k => y (16 + k)
  let vy3 := loaduPs fun k => y (24 + k)
  let acc := fmaddPs vf0 vy0 acc
  let acc := fmaddPs vf1 vy1 acc
  let acc := fmaddPs vf2 vy2 acc
  fmaddPs vf3 vy3 acc

/-- The horizontal sum at the end of both kernels. -/
def reduce (acc : M256 R) : R :=
  let accHi := extractf128Ps acc
  let accLo := castps256Ps128 acc
  let sum128 := addPs128 accHi accLo
  let sum128 := haddPs sum128 sum128
  let sum128 := haddPs sum128 sum128
  cvtssF32 sum128

/-- `dot_product_q8_fp32`. -/
def dotProductQ8Fp32 (x : ℕ → BlockQ8) (y : ℕ → R) (nb : ℕ) : R :=
  reduce <| (List.range nb).foldl (fun acc i =>
    let vd := broadcastssPs (cvtphPs fp16 (set1Epi16 (x i).d))
    let vq0 := loaduSi256 (x i).qs
    accumulate (castsi256Si128 vq0) (extracti128Si256 vq0) vd (fun k => y (i * 32 + k)) acc) setzeroPs

/-- `dot_product_q4_0_fp32`. -/
def dotProductQ4Fp32 (x : ℕ → BlockQ4) (y : ℕ → R) (nb : ℕ) : R :=
  let mask0f := set1Epi8 0x0f
  let offset8 := set1Epi8 8
  reduce <| (List.range nb).foldl (fun acc i =>
    let vd := broadcastssPs (cvtphPs fp16 (set1Epi16 (x i).d))
    let vqs := loaduSi128 (x i).qs
    let vqLo := subEpi8 (andSi128 vqs mask0f) offset8
    let vqHi := subEpi8 (andSi128 (srliEpi16 vqs 4) mask0f) offset8
    accumulate vqLo vqHi vd (fun k => y (i * 32 + k)) acc) setzeroPs

/-- A weight matrix: its type, and its bytes. -/
structure Tensor where
  type : TensorType
  data : ℕ → BitVec 8

/-- `matvec`, into the buffer `out`. -/
def matvec (w : Tensor) (x out : ℕ → R) (inFeatures outFeatures : ℕ) : ℕ → R :=
  let nb := inFeatures / 32
  if w.type = .Q4_0 then
    (List.range outFeatures).foldl (fun out i =>
      Function.update out i (dotProductQ4Fp32 fp16 (fun b => blocksQ4 w.data (i * nb + b)) x nb)) out
  else
    (List.range outFeatures).foldl (fun out i =>
      Function.update out i (dotProductQ8Fp32 fp16 (fun b => blocksQ8 w.data (i * nb + b)) x nb)) out

/-- Row `i` of the dequantised matrix of `nb` blocks a row, written into the buffer `y`. -/
def dequantizedRow (w : Tensor) (nb i : ℕ) (y : ℕ → R) : ℕ → R :=
  if w.type = .Q4_0 then dequantizeQ4Row fp16 (fun b => blocksQ4 w.data (i * nb + b)) y nb
  else dequantizeQ8Row fp16 (fun b => blocksQ8 w.data (i * nb + b)) y nb

/-! ### What the dequantisation writes -/

/-- Weight `k` of a row of Q8_0 blocks. -/
def weightQ8 (x : ℕ → BlockQ8) (k : ℕ) : R :=
  (((x (k / 32)).qs ⟨k % 32, Nat.mod_lt _ (by norm_num)⟩).toInt : R) * fp16 (x (k / 32)).d

/-- Weight `k` of a row of Q4_0 blocks: the low nibbles of a block come first. -/
def weightQ4 (x : ℕ → BlockQ4) (k : ℕ) : R :=
  let q := (x (k / 32)).qs ⟨k % 16, Nat.mod_lt _ (by norm_num)⟩
  let nibble : ℤ := if k % 32 < 16 then (q &&& 0x0f).toNat - 8 else (q >>> 4).toNat - 8
  nibble * fp16 (x (k / 32)).d

theorem weightQ8_block (x : ℕ → BlockQ8) (i : ℕ) (j : Fin 32) :
    weightQ8 fp16 x (i * 32 + j) = (((x i).qs j).toInt : R) * fp16 (x i).d := by
  have hi : (i * 32 + j.val) / 32 = i := by omega
  have hj : (⟨(i * 32 + j.val) % 32, Nat.mod_lt _ (by norm_num)⟩ : Fin 32) = j :=
    Fin.ext (by dsimp only; omega)
  rw [weightQ8, hi, hj]

theorem weightQ4_low (x : ℕ → BlockQ4) (i : ℕ) (j : Fin 16) : weightQ4 fp16 x (i * 32 + j) =
    ((((x i).qs j &&& 0x0f).toNat - 8 : ℤ) : R) * fp16 (x i).d := by
  have hi : (i * 32 + j.val) / 32 = i := by omega
  have hj : (⟨(i * 32 + j.val) % 16, Nat.mod_lt _ (by norm_num)⟩ : Fin 16) = j :=
    Fin.ext (by dsimp only; omega)
  rw [weightQ4, hi, hj, if_pos (by omega)]

theorem weightQ4_high (x : ℕ → BlockQ4) (i : ℕ) (j : Fin 16) : weightQ4 fp16 x (i * 32 + (16 + j)) =
    ((((x i).qs j >>> 4).toNat - 8 : ℤ) : R) * fp16 (x i).d := by
  have hi : (i * 32 + (16 + j.val)) / 32 = i := by omega
  have hj : (⟨(i * 32 + (16 + j.val)) % 16, Nat.mod_lt _ (by norm_num)⟩ : Fin 16) = j :=
    Fin.ext (by dsimp only; omega)
  rw [weightQ4, hi, hj, if_neg (by omega)]

/-- The blocks of a row are those whose index is below their number. -/
theorem lt_blocks_iff {nb k : ℕ} : k < 32 * nb ↔ ∃ i ∈ List.range nb, k / 32 = i := by
  simp only [List.mem_range, exists_eq_right']
  omega

/-- **The scalar dequantisation** of Q8_0 blocks writes their weights, in order. -/
theorem dequantizeQ8Row_apply (x : ℕ → BlockQ8) (y : ℕ → R) (nb k : ℕ) :
    dequantizeQ8Row fp16 x y nb k = if k < 32 * nb then weightQ8 fp16 x k else y k := by
  have hone : ∀ (i : ℕ) (y : ℕ → R) (j : Fin 32) (k : ℕ),
      Function.update y (i * 32 + j) ((((x i).qs j).toInt : R) * fp16 (x i).d) k =
        if k = i * 32 + j then weightQ8 fp16 x k else y k := by
    intro i y j k
    rw [Function.update_apply, ← weightQ8_block]
    exact if_ctx_congr Iff.rfl (fun h => by rw [h]) fun _ => rfl
  refine foldl_writes (W := fun i k => k / 32 = i) (fun y i k => ?_) y _ lt_blocks_iff
  refine foldl_writes (hone i) y _ ⟨fun h => ?_, ?_⟩
  · exact ⟨⟨k % 32, by omega⟩, List.mem_finRange _, by dsimp only; omega⟩
  · rintro ⟨j, -, hj⟩
    omega

/-- **The scalar dequantisation** of Q4_0 blocks, which writes two weights sixteen apart at a time. -/
theorem dequantizeQ4Row_apply (x : ℕ → BlockQ4) (y : ℕ → R) (nb k : ℕ) :
    dequantizeQ4Row fp16 x y nb k = if k < 32 * nb then weightQ4 fp16 x k else y k := by
  have hone : ∀ (i : ℕ) (y : ℕ → R) (j : Fin 16) (k : ℕ), Function.update (Function.update y (i * 32 + j)
        ((((x i).qs j &&& 0x0f).toNat - 8 : ℤ) * fp16 (x i).d)) (i * 32 + j + 16)
      ((((x i).qs j >>> 4).toNat - 8 : ℤ) * fp16 (x i).d) k =
      if k = i * 32 + j ∨ k = i * 32 + (16 + j) then weightQ4 fp16 x k else y k := by
    intro i y j k
    rw [Function.update_apply, Function.update_apply, ← weightQ4_low, ← weightQ4_high, Nat.add_assoc,
      Nat.add_comm j.val]
    by_cases h16 : k = i * 32 + (16 + j)
    · rw [if_pos h16, if_pos (Or.inr h16), h16]
    · by_cases h0 : k = i * 32 + j
      · rw [if_neg h16, if_pos h0, if_pos (Or.inl h0), h0]
      · rw [if_neg h16, if_neg h0, if_neg (not_or.mpr ⟨h0, h16⟩)]
  refine foldl_writes (W := fun i k => k / 32 = i) (fun y i k => ?_) y _ lt_blocks_iff
  refine foldl_writes (hone i) y _ ⟨fun h => ?_, ?_⟩
  · exact ⟨⟨k % 16, by omega⟩, List.mem_finRange _, by dsimp only; omega⟩
  · rintro ⟨j, -, hj⟩
    omega

/-! ### What the kernels add up -/

/-- Eight bytes extended, converted and scaled, times eight values. -/
theorem sum_chunk (r : M128i) (vd : M256 R) (y : ℕ → R) :
    ∑ l, mulPs (cvtepi32Ps (cvtepi8Epi32 r)) vd l * loaduPs y l =
      ∑ l : Fin 8, ((lowBytes r l).toInt : R) * vd l * y l := by
  refine sum_congr rfl fun l _ => ?_
  rw [mulPs, cvtepi32Ps, cvtepi8Epi32, loaduPs, BitVec.toInt_signExtend_of_le (by norm_num)]

/-- A block adds the products of its sixteen low and sixteen high bytes. -/
theorem laneSum_accumulate (lo hi : M128i) (d : R) (y : ℕ → R) (acc : M256 R) :
    laneSum (accumulate lo hi (fun _ => d) y acc) = laneSum acc +
      (∑ j : Fin 16, ((lo j).toInt : R) * d * y j + ∑ j : Fin 16, ((hi j).toInt : R) * d * y (16 + j)) := by
  have hsplit : ∀ (r : M128i) (y : ℕ → R), ∑ j : Fin 16, ((r j).toInt : R) * d * y j =
      ∑ l : Fin 8, ((lowBytes r l).toInt : R) * d * y l +
        ∑ l : Fin 8, ((lowBytes (srliSi128 r 8) l).toInt : R) * d * y (8 + l) := by
    intro r y
    refine (Fin.sum_univ_add (a := 8) (b := 8) fun j => ((r j).toInt : R) * d * y j).trans ?_
    refine congrArg₂ (· + ·) rfl (sum_congr rfl fun l _ => ?_)
    have hl : lowBytes (srliSi128 r 8) l = r (Fin.natAdd 8 l) := by
      rw [lowBytes, srliSi128, dif_pos (by dsimp only; omega)]
      exact congrArg r (Fin.ext (Nat.add_comm _ _))
    rw [hl]
    rfl
  unfold accumulate
  simp only [laneSum_fmaddPs, sum_chunk, hsplit lo, hsplit hi fun k => y (16 + k), Nat.zero_add,
    ← Nat.add_assoc]
  ring

/-- The nibbles less eight, as bytes and as numbers. -/
theorem toInt_sub_eight : ∀ b : BitVec 8, b.toNat < 16 → (b - 8#8).toInt = b.toNat - 8 := by
  decide +kernel

theorem toNat_and_lt (b : BitVec 8) : (b &&& 0x0f).toNat < 16 := by
  rw [BitVec.toNat_and]
  exact Nat.lt_succ_of_le Nat.and_le_right

theorem toNat_shift_lt (b : BitVec 8) : (b >>> 4).toNat < 16 := by
  rw [BitVec.toNat_ushiftRight, Nat.shiftRight_eq_div_pow]
  omega

/-- A kernel whose rounds add the products with the weights `v` of their block computes the product. -/
theorem reduce_blocks {v y : ℕ → R} {step : M256 R → ℕ → M256 R} {nb : ℕ}
    (hstep : ∀ acc i, laneSum (step acc i) = laneSum acc +
      (∑ j : Fin 16, v (i * 32 + j) * y (i * 32 + j) +
        ∑ j : Fin 16, v (i * 32 + (16 + j)) * y (i * 32 + (16 + j)))) :
    reduce ((List.range nb).foldl step setzeroPs) = ∑ k ∈ range (32 * nb), v k * y k := by
  have hblock : ∀ i, ∑ j ∈ range 32, v (i * 32 + j) * y (i * 32 + j) =
      ∑ j : Fin 16, v (i * 32 + j) * y (i * 32 + j) +
        ∑ j : Fin 16, v (i * 32 + (16 + j)) * y (i * 32 + (16 + j)) := by
    intro i
    rw [sum_range_add (fun j => v (i * 32 + j) * y (i * 32 + j)) 16 16, sum_range, sum_range]
  have hred : ∀ acc : M256 R, reduce acc = laneSum acc := hadd_laneSum
  rw [hred, foldl_measure hstep, laneSum_setzeroPs, zero_add, sum_range_blocks]
  exact sum_congr rfl fun i _ => (hblock i).symm

theorem dotProductQ8Fp32_eq (x : ℕ → BlockQ8) (y : ℕ → R) (nb : ℕ) :
    dotProductQ8Fp32 fp16 x y nb = ∑ k ∈ range (32 * nb), weightQ8 fp16 x k * y k := by
  refine reduce_blocks fun acc i => ?_
  refine (laneSum_accumulate _ _ (fp16 (x i).d) _ acc).trans ?_
  congr 2
  · refine sum_congr rfl fun j _ => congrArg (· * y (i * 32 + j)) ?_
    exact (weightQ8_block fp16 x i ⟨j, by omega⟩).symm
  · refine sum_congr rfl fun j _ => congrArg (· * y (i * 32 + (16 + j))) ?_
    exact (weightQ8_block fp16 x i ⟨16 + j, by omega⟩).symm

theorem dotProductQ4Fp32_eq (x : ℕ → BlockQ4) (y : ℕ → R) (nb : ℕ) :
    dotProductQ4Fp32 fp16 x y nb = ∑ k ∈ range (32 * nb), weightQ4 fp16 x k * y k := by
  refine reduce_blocks fun acc i => ?_
  refine (laneSum_accumulate _ _ (fp16 (x i).d) _ acc).trans ?_
  congr 2
  · refine sum_congr rfl fun j _ => congrArg (· * y (i * 32 + j)) ?_
    rw [weightQ4_low, ← toInt_sub_eight _ (toNat_and_lt _)]
    rfl
  · refine sum_congr rfl fun j _ => congrArg (· * y (i * 32 + (16 + j))) ?_
    rw [weightQ4_high, ← toInt_sub_eight _ (toNat_shift_lt _), and_srliEpi16]
    rfl

/-- Each kernel against the row its scalar counterpart writes, whatever was in the buffer. -/
theorem dot_dequantizeQ8Row (x : ℕ → BlockQ8) (y z : ℕ → R) (nb : ℕ) :
    dotProductQ8Fp32 fp16 x y nb = ∑ k ∈ range (32 * nb), dequantizeQ8Row fp16 x z nb k * y k := by
  rw [dotProductQ8Fp32_eq]
  refine sum_congr rfl fun k hk => ?_
  rw [dequantizeQ8Row_apply, if_pos (mem_range.mp hk)]

theorem dot_dequantizeQ4Row (x : ℕ → BlockQ4) (y z : ℕ → R) (nb : ℕ) :
    dotProductQ4Fp32 fp16 x y nb = ∑ k ∈ range (32 * nb), dequantizeQ4Row fp16 x z nb k * y k := by
  rw [dotProductQ4Fp32_eq]
  refine sum_congr rfl fun k hk => ?_
  rw [dequantizeQ4Row_apply, if_pos (mem_range.mp hk)]

/-- **Row by row**: `matvec` writes the product of every dequantised row. -/
theorem matvec_apply (w : Tensor) (x out z : ℕ → R) {inFeatures outFeatures i : ℕ} (hi : i < outFeatures) :
    matvec fp16 w x out inFeatures outFeatures i =
      ∑ k ∈ range (32 * (inFeatures / 32)), dequantizedRow fp16 w (inFeatures / 32) i z k * x k := by
  unfold matvec dequantizedRow
  by_cases hq4 : w.type = .Q4_0
  · simp only [if_pos hq4]
    rw [foldl_update_range out _ hi, dot_dequantizeQ4Row fp16 _ x z]
  · simp only [if_neg hq4]
    rw [foldl_update_range out _ hi, dot_dequantizeQ8Row fp16 _ x z]

end Kernels

/-- **The kernels have their scalar meaning**: a dot product is the sum over the dequantised row, and
`matvec` the product with the dequantised matrix. -/
theorem kernels_eq_scalar {R : Type*} [CommRing R] (fp16 : BitVec 16 → R) (y z : ℕ → R) :
    (∀ (x : ℕ → BlockQ8) (nb : ℕ), dotProductQ8Fp32 fp16 x y nb =
      ∑ i ∈ range (32 * nb), dequantizeQ8Row fp16 x z nb i * y i) ∧
    (∀ (x : ℕ → BlockQ4) (nb : ℕ), dotProductQ4Fp32 fp16 x y nb =
      ∑ i ∈ range (32 * nb), dequantizeQ4Row fp16 x z nb i * y i) ∧
    ∀ (w : Tensor) (out : ℕ → R) (inFeatures outFeatures : ℕ) (row : Fin outFeatures),
      matvec fp16 w y out inFeatures outFeatures row =
        ∑ k ∈ range (32 * (inFeatures / 32)), dequantizedRow fp16 w (inFeatures / 32) row z k * y k :=
  ⟨fun x nb => dot_dequantizeQ8Row fp16 x y z nb, fun x nb => dot_dequantizeQ4Row fp16 x y z nb,
    fun w out _ _ row => matvec_apply fp16 w y out z row.isLt⟩

end DenseLite.Infer.Kernels
