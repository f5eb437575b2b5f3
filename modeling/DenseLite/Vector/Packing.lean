import DenseLite.Lib.ByteStream
import DenseLite.Lib.Simd
import Mathlib.Algebra.Order.Field.Basic

/-! # Scoring packed vectors

`quantize_rotated` packs two codes of four bits into a byte, and `search` scores a vector from its bytes:
sixteen coordinates at a time in two accumulators, then the rest one by one. Over any ordered field, with
a square root as a parameter, the dot product it computes is that of the codes (`codeDot_packed`). -/

namespace DenseLite.Vector.Packing

open Finset
open DenseLite.Lib.ByteStream DenseLite.Lib.Simd

section Scoring

variable {K : Type} [Field K]

/-- `LLOYD_MAX_16`. -/
def lloydMax16 : List K :=
  [-2.7326, -2.0690, -1.6181, -1.2562, -0.9424, -0.6568, -0.3881, -0.1284,
    0.1284, 0.3881, 0.6568, 0.9424, 1.2562, 1.6181, 2.0690, 2.7326]

/-- `BOUNDARIES_16`. -/
def boundaries16 : List K :=
  [-2.4008, -1.8435, -1.4371, -1.0993, -0.7996, -0.5224, -0.2582, 0.0000,
    0.2582, 0.5224, 0.7996, 1.0993, 1.4371, 1.8435, 2.4008]

/-- The value of a code; the table has one for each code of four bits. -/
def lloyd (bin : UInt8) : K := lloydMax16.getD bin.toNat 0

/-! ### Packing -/

section Quantize

variable [LinearOrder K]

/-- The loop of `quantize_scalar`, over the boundaries that are left. -/
def countBins (v : K) : UInt8 → List K → UInt8
  | bin, [] => bin
  | bin, b :: bs => if b < v then countBins v (bin + 1) bs else bin

/-- `quantize_scalar`. -/
def quantizeScalar (v : K) : UInt8 := countBins v 0 boundaries16

/-- `QuantizedVector`, as `quantize_rotated` fills it. -/
structure QuantizedVector (K : Type) where
  scale : K
  offset : K
  packed : Bytes

/-- The byte of the codes of two coordinates. -/
def packByte (bin0 bin1 : UInt8) : UInt8 := (bin0 &&& (0x0f : UInt8)) ||| ((bin1 &&& (0x0f : UInt8)) <<< 4)

/-- `quantize_rotated`. -/
def quantizeRotated (sqrt : K → K) (dim : ℕ) (rotated : ℕ → K) : QuantizedVector K :=
  let mean := (List.range dim).foldl (fun mean i => mean + rotated i) 0 / dim
  let var := (List.range dim).foldl (fun var i =>
    let diff := rotated i - mean
    var + diff * diff) 0
  let stdDev := sqrt (var / dim)
  let stdDev := if stdDev < 1e-7 then 1e-7 else stdDev
  let packed := (List.range ((dim + 1) / 2)).foldl (fun packed half =>
    let i := 2 * half
    let bin0 := quantizeScalar ((rotated i - mean) / stdDev)
    let bin1 := if i + 1 < dim then quantizeScalar ((rotated (i + 1) - mean) / stdDev) else 0
    packed.set (i / 2) (packByte bin0 bin1)) (List.replicate ((dim + 1) / 2) 0)
  { scale := stdDev, offset := mean, packed := packed }

end Quantize

/-! ### Scoring -/

/-- The values of a block of sixteen coordinates, from the eight bytes from `p[i / 2]` on. -/
def blockValues (p : Bytes) (i : ℕ) : Option (ℕ → K) :=
  (List.range 8).foldlM (fun cVals k => do
    let byte ← p[i / 2 + k]?
    return Function.update (Function.update cVals (2 * k) (lloyd (byte &&& 0x0f)))
      (2 * k + 1) (lloyd ((byte >>> 4) &&& 0x0f))) fun _ => 0

/-- One round of the blocked loop, on its two accumulators. -/
def blockStep (p : Bytes) (qRot : ℕ → K) (sums : M256 K × M256 K) (block : ℕ) :
    Option (M256 K × M256 K) := do
  let i := block * 16
  let cVals ← blockValues p i
  let q0 := loaduPs fun k => qRot (i + k)
  let c0 := loaduPs fun k => cVals (0 + k)
  let q1 := loaduPs fun k => qRot (i + (8 + k))
  let c1 := loaduPs fun k => cVals (8 + k)
  return (fmaddPs q0 c0 sums.1, fmaddPs q1 c1 sums.2)

/-- One round of the loop over the residual elements. -/
def residualStep (p : Bytes) (qRot : ℕ → K) (codeDot : K) (i : ℕ) : Option K := do
  let byte ← p[i / 2]?
  let bin := if i % 2 = 0 then byte &&& 0x0f else (byte >>> 4) &&& 0x0f
  return codeDot + qRot i * lloyd bin

/-- The `code_dot` that `search` computes from the bytes of a vector; nothing if it reads one that is not
there. -/
def codeDot (dim : ℕ) (p : Bytes) (qRot : ℕ → K) : Option K := do
  let sums ← (List.range (dim / 16)).foldlM (blockStep p qRot) (setzeroPs, setzeroPs)
  let hsum := addPs sums.1 sums.2
  let dot := hsum 0 + hsum 1 + hsum 2 + hsum 3 + hsum 4 + hsum 5 + hsum 6 + hsum 7
  (List.range (dim % 16)).foldlM (fun dot r => residualStep p qRot dot (dim / 16 * 16 + r)) dot

/-! ### Codes -/

section Codes

variable [LinearOrder K]

omit [Field K] in
theorem countBins_le (v : K) : ∀ (bs : List K) (bin : UInt8), bin.toNat + bs.length < 256 →
    (countBins v bin bs).toNat ≤ bin.toNat + bs.length
  | [], bin, _ => le_rfl
  | b :: bs, bin, h => by
    rw [List.length_cons] at h ⊢
    have hnext : (bin + 1).toNat = bin.toNat + 1 := by
      rw [UInt8.toNat_add]
      exact Nat.mod_eq_of_lt (by simpa using (by omega : bin.toNat + 1 < 256))
    rw [countBins]
    split_ifs
    · have ih := countBins_le v bs (bin + 1) (by omega)
      omega
    · omega

/-- A code has four bits. -/
theorem quantizeScalar_lt (v : K) : (quantizeScalar v).toNat < 16 :=
  Nat.lt_succ_of_le (countBins_le v boundaries16 0 (by simp [boundaries16]))

theorem unpack_fin : ∀ a b : Fin 16,
    packByte (UInt8.ofNat a) (UInt8.ofNat b) &&& 0x0f = UInt8.ofNat a ∧
      (packByte (UInt8.ofNat a) (UInt8.ofNat b) >>> 4) &&& 0x0f = UInt8.ofNat b := by
  decide +kernel

/-- The low nibble of a byte is the first code, the high one the second. -/
theorem unpack_packByte {a b : UInt8} (ha : a.toNat < 16) (hb : b.toNat < 16) :
    packByte a b &&& 0x0f = a ∧ (packByte a b >>> 4) &&& 0x0f = b := by
  have h := unpack_fin ⟨a.toNat, ha⟩ ⟨b.toNat, hb⟩
  simpa using h

theorem getElem?_foldl_set (f : ℕ → UInt8) (p : Bytes) (n k : ℕ) :
    ((List.range n).foldl (fun p half => p.set (2 * half / 2) (f half)) p)[k]? =
      if k < n then p[k]?.map fun _ => f k else p[k]? := by
  induction n with
  | zero => simp
  | succ n ih =>
    have hset : 2 * n / 2 = n := by omega
    rw [List.range_succ, List.foldl_append, List.foldl_cons, List.foldl_nil, hset, List.getElem?_set', ih]
    by_cases hk : n = k
    · subst hk
      rw [if_pos rfl, if_neg (by omega), if_pos (by omega)]
      rfl
    · rw [if_neg hk]
      exact if_congr (by omega) rfl rfl

variable (sqrt : K → K) (dim : ℕ) (rotated : ℕ → K)

/-- The bytes of a vector are as many as a slot of the index has. -/
theorem length_packed : (quantizeRotated sqrt dim rotated).packed.length = (dim + 1) / 2 := by
  have hset : ∀ (f : ℕ → UInt8) (halves : List ℕ) (p : Bytes),
      (halves.foldl (fun p half => p.set (2 * half / 2) (f half)) p).length = p.length := by
    intro f halves
    induction halves with
    | nil => exact fun p => rfl
    | cons half halves ih =>
      intro p
      rw [List.foldl_cons, ih, List.length_set]
  exact (hset _ _ _).trans List.length_replicate

/-- The mean of the coordinates. -/
def mean : K := (∑ i ∈ range dim, rotated i) / dim

/-- Their standard deviation, which is not taken below `1e-7`. -/
def stdDev : K := max (sqrt ((∑ i ∈ range dim, (rotated i - mean dim rotated) ^ 2) / dim)) 1e-7

/-- The code of a coordinate, as `quantize_scalar` gives it for the normalised value. -/
def code (i : ℕ) : UInt8 := quantizeScalar ((rotated i - mean dim rotated) / stdDev sqrt dim rotated)

theorem offset_quantizeRotated : (quantizeRotated sqrt dim rotated).offset = mean dim rotated := by
  have hsum : (List.range dim).foldl (fun mean i => mean + rotated i) 0 = 0 + ∑ i ∈ range dim, rotated i :=
    foldl_measure (μ := id) (fun _ _ => rfl) 0 dim
  rw [mean, ← zero_add (∑ i ∈ range dim, rotated i), ← hsum]
  rfl

theorem scale_quantizeRotated : (quantizeRotated sqrt dim rotated).scale = stdDev sqrt dim rotated := by
  have hvar : (List.range dim).foldl (fun var i => var + (rotated i - mean dim rotated) *
      (rotated i - mean dim rotated)) 0 = 0 + ∑ i ∈ range dim, (rotated i - mean dim rotated) ^ 2 :=
    foldl_measure (μ := id) (fun _ i => by rw [sq]; rfl) 0 dim
  rw [stdDev, max_def_lt, ← zero_add (∑ i ∈ range dim, (rotated i - mean dim rotated) ^ 2), ← hvar,
    ← offset_quantizeRotated sqrt]
  rfl

theorem code_eq (i : ℕ) : code sqrt dim rotated i = quantizeScalar
    ((rotated i - (quantizeRotated sqrt dim rotated).offset) / (quantizeRotated sqrt dim rotated).scale) := by
  rw [offset_quantizeRotated, scale_quantizeRotated, code]

/-- **What is packed**: the byte of coordinates `2 k` and `2 k + 1` is there, and has their codes. -/
theorem packed_byte {k : ℕ} (hk : 2 * k < dim) : ∃ byte, (quantizeRotated sqrt dim rotated).packed[k]? = some byte ∧
    byte &&& 0x0f = code sqrt dim rotated (2 * k) ∧
    (2 * k + 1 < dim → (byte >>> 4) &&& 0x0f = code sqrt dim rotated (2 * k + 1)) := by
  have hget : (quantizeRotated sqrt dim rotated).packed[k]? = some (packByte (code sqrt dim rotated (2 * k))
      (if 2 * k + 1 < dim then code sqrt dim rotated (2 * k + 1) else 0)) := by
    rw [code_eq, code_eq]
    refine (getElem?_foldl_set (fun half => packByte
      (quantizeScalar ((rotated (2 * half) - (quantizeRotated sqrt dim rotated).offset) /
        (quantizeRotated sqrt dim rotated).scale))
      (if 2 * half + 1 < dim then quantizeScalar ((rotated (2 * half + 1) -
        (quantizeRotated sqrt dim rotated).offset) / (quantizeRotated sqrt dim rotated).scale) else 0)) _ _ k).trans ?_
    have hlt : k < (dim + 1) / 2 := by omega
    rw [if_pos hlt, List.getElem?_replicate, if_pos hlt]
    rfl
  have hlow : (code sqrt dim rotated (2 * k)).toNat < 16 := quantizeScalar_lt _
  refine ⟨_, hget, ?_, fun hnext => ?_⟩
  · refine (unpack_packByte hlow ?_).1
    split_ifs
    · exact quantizeScalar_lt _
    · exact Nat.zero_lt_succ _
  · rw [if_pos hnext]
    exact (unpack_packByte hlow (quantizeScalar_lt _)).2

/-! ### The dot product of the codes -/

/-- What a block reads: the values of its sixteen codes. -/
theorem blockValues_packed {block : ℕ} (hb : block < dim / 16) :
    ∃ cVals : ℕ → K, blockValues (quantizeRotated sqrt dim rotated).packed (block * 16) = some cVals ∧
      ∀ j < 16, cVals j = lloyd (code sqrt dim rotated (block * 16 + j)) := by
  set v : ℕ → K := fun j => lloyd (code sqrt dim rotated (block * 16 + j)) with hv
  have hreads : blockValues (quantizeRotated sqrt dim rotated).packed (block * 16) =
      some ((List.range 8).foldl (fun cVals k => Function.update (Function.update cVals (2 * k) (v (2 * k)))
        (2 * k + 1) (v (2 * k + 1))) fun _ => 0) := by
    refine foldlM_some _ _ fun k hk cVals => ?_
    rw [List.mem_range] at hk
    obtain ⟨byte, hbyte, hlow, hhigh⟩ := packed_byte sqrt dim rotated (k := block * 8 + k) (by omega)
    have hindex : block * 16 / 2 + k = block * 8 + k := by omega
    have h0 : 2 * (block * 8 + k) = block * 16 + 2 * k := by omega
    rw [hindex, hbyte]
    show some (Function.update (Function.update cVals (2 * k) (lloyd (byte &&& 0x0f))) (2 * k + 1)
      (lloyd ((byte >>> 4) &&& 0x0f))) = _
    rw [hlow, hhigh (by omega), h0]
    rfl
  refine ⟨_, hreads, fun j hj => ?_⟩
  refine (foldl_writes (W := fun k j => j = 2 * k ∨ j = 2 * k + 1) (v := v) (P := j < 16) ?_ _ _ ?_).trans
    (if_pos hj)
  · intro y k j
    rw [Function.update_apply, Function.update_apply]
    by_cases h1 : j = 2 * k + 1
    · rw [if_pos h1, if_pos (Or.inr h1), h1]
    · by_cases h0 : j = 2 * k
      · rw [if_neg h1, if_pos h0, if_pos (Or.inl h0), h0]
      · rw [if_neg h1, if_neg h0, if_neg (not_or.mpr ⟨h0, h1⟩)]
  · simp only [List.mem_range]
    constructor
    · exact fun h => ⟨j / 2, by omega, by omega⟩
    · rintro ⟨k, hk, h⟩
      omega

/-- The accumulators after a block of coordinates with the values `v`. -/
def addBlock (qRot v : ℕ → K) (sums : M256 K × M256 K) (block : ℕ) : M256 K × M256 K :=
  (fmaddPs (fun l => qRot (block * 16 + l)) (fun l => v (block * 16 + l)) sums.1,
    fmaddPs (fun l => qRot (block * 16 + (8 + l))) (fun l => v (block * 16 + (8 + l))) sums.2)

omit [LinearOrder K] in
/-- A block adds its sixteen terms to the two accumulators together. -/
theorem laneSum_addBlock (qRot v : ℕ → K) (sums : M256 K × M256 K) (block : ℕ) :
    laneSum (addBlock qRot v sums block).1 + laneSum (addBlock qRot v sums block).2 =
      laneSum sums.1 + laneSum sums.2 + ∑ j ∈ range 16, qRot (block * 16 + j) * v (block * 16 + j) := by
  rw [addBlock, laneSum_fmaddPs, laneSum_fmaddPs,
    sum_range_add (fun j => qRot (block * 16 + j) * v (block * 16 + j)) 8 8, sum_range, sum_range]
  ring

theorem blockStep_packed (qRot : ℕ → K) {block : ℕ} (hb : block < dim / 16) (sums : M256 K × M256 K) :
    blockStep (quantizeRotated sqrt dim rotated).packed qRot sums block =
      some (addBlock qRot (fun i => lloyd (code sqrt dim rotated i)) sums block) := by
  obtain ⟨cVals, hread, hvals⟩ := blockValues_packed sqrt dim rotated hb
  have h0 : (loaduPs fun k => cVals (0 + k)) =
      fun l : Fin 8 => lloyd (code sqrt dim rotated (block * 16 + l)) := by
    funext l
    rw [loaduPs, Nat.zero_add, hvals l (by omega)]
  have h1 : (loaduPs fun k => cVals (8 + k)) =
      fun l : Fin 8 => lloyd (code sqrt dim rotated (block * 16 + (8 + l))) := by
    funext l
    rw [loaduPs, hvals (8 + l) (by omega)]
  unfold blockStep addBlock
  dsimp only
  rw [hread, ← h0, ← h1]
  rfl

/-- A residual element, read by the parity of its index. -/
theorem residualStep_packed (qRot : ℕ → K) {i : ℕ} (hi : i < dim) (dot : K) :
    residualStep (quantizeRotated sqrt dim rotated).packed qRot dot i =
      some (dot + qRot i * lloyd (code sqrt dim rotated i)) := by
  obtain ⟨byte, hbyte, hlow, hhigh⟩ := packed_byte sqrt dim rotated (k := i / 2) (by omega)
  unfold residualStep
  rw [hbyte]
  show some (dot + qRot i * lloyd (if i % 2 = 0 then byte &&& 0x0f else (byte >>> 4) &&& 0x0f)) = _
  split_ifs with hpar
  · rw [hlow, show 2 * (i / 2) = i by omega]
  · rw [hhigh (by omega), show 2 * (i / 2) + 1 = i by omega]

/-- **Packed scoring**: the dot product that `search` computes from the bytes is that of the codes. -/
theorem codeDot_packed (qRot : ℕ → K) : codeDot dim (quantizeRotated sqrt dim rotated).packed qRot =
    some (∑ i ∈ range dim, qRot i * lloyd (code sqrt dim rotated i)) := by
  set term : ℕ → K := fun i => qRot i * lloyd (code sqrt dim rotated i) with hterm
  have hblocks : (List.range (dim / 16)).foldlM (blockStep (quantizeRotated sqrt dim rotated).packed qRot)
      (setzeroPs, setzeroPs) = some ((List.range (dim / 16)).foldl
        (addBlock qRot fun i => lloyd (code sqrt dim rotated i)) (setzeroPs, setzeroPs)) :=
    foldlM_some _ _ fun block hb sums =>
      blockStep_packed sqrt dim rotated qRot (List.mem_range.mp hb) sums
  have hresidual : ∀ dot, (List.range (dim % 16)).foldlM (fun dot r =>
      residualStep (quantizeRotated sqrt dim rotated).packed qRot dot (dim / 16 * 16 + r)) dot =
        some ((List.range (dim % 16)).foldl (fun dot r => dot + term (dim / 16 * 16 + r)) dot) := by
    intro dot
    refine foldlM_some dot _ fun r hr dot => residualStep_packed sqrt dim rotated qRot ?_ dot
    rw [List.mem_range] at hr
    omega
  have hsums := foldl_measure (μ := fun s : M256 K × M256 K => laneSum s.1 + laneSum s.2)
    (laneSum_addBlock qRot fun i => lloyd (code sqrt dim rotated i)) (setzeroPs, setzeroPs) (dim / 16)
  have hrest : ∀ (dot : K) (n : ℕ), (List.range n).foldl (fun dot r => dot + term (dim / 16 * 16 + r)) dot =
      dot + ∑ r ∈ range n, term (dim / 16 * 16 + r) := fun dot n =>
    foldl_measure (μ := id) (fun _ _ => rfl) dot n
  have hhsum : ∀ a : M256 K, a 0 + a 1 + a 2 + a 3 + a 4 + a 5 + a 6 + a 7 = laneSum a := fun a =>
    (Fin.sum_univ_eight a).symm
  have hdim : 16 * (dim / 16) + dim % 16 = dim := Nat.div_add_mod dim 16
  unfold codeDot
  rw [hblocks]
  refine (hresidual _).trans (congrArg some ?_)
  rw [hrest, hhsum, laneSum_addPs, hsums, laneSum_setzeroPs, add_zero, zero_add, ← sum_range_blocks term,
    Nat.mul_comm (dim / 16), ← sum_range_add, hdim]

end Codes

end Scoring

end DenseLite.Vector.Packing
