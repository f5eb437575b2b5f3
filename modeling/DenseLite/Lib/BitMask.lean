import Mathlib.Data.List.Basic
import Mathlib.Tactic.Common

/-! # Masks of 64-bit words

A set of numbers below `64 * n` as `n` words, a bit for each number. -/

namespace DenseLite.Lib.BitMask

/-- A mask. -/
abbrev Mask := List (BitVec 64)

/-- The words that `n` bits need. -/
def wordsFor (n : ℕ) : ℕ := (n + 63) / 64

/-- A mask of `n` words without bits. -/
def zeros (n : ℕ) : Mask := List.replicate n 0#64

/-- Sets the bit `i`. -/
def setBit (m : Mask) (i : ℕ) : Mask := m.modify (i / 64) fun w => w ||| 1#64 <<< (i % 64)

/-- Reads the bit `i`, which is not set where there is no word for it. -/
def bit (m : Mask) (i : ℕ) : Bool := ((m[i / 64]?).getD 0#64 &&& 1#64 <<< (i % 64)) ≠ 0#64

/-- The bits that `a` has as well; it has as many words as `m` or more. -/
def intersect (m a : Mask) : Mask := m.mapIdx fun w x => x &&& a.getD w 0#64

theorem div_lt_wordsFor_of_lt {i n : ℕ} (h : i < n) : i / 64 < wordsFor n := by
  unfold wordsFor
  omega

@[simp] theorem length_zeros (n : ℕ) : (zeros n).length = n := List.length_replicate

@[simp] theorem length_setBit (m : Mask) (i : ℕ) : (setBit m i).length = m.length := List.length_modify _ _ _

@[simp] theorem length_intersect (m a : Mask) : (intersect m a).length = m.length := List.length_mapIdx

/-- The bit `k` alone, in a word of 64 bits. -/
theorem getLsbD_single {k j : ℕ} (hk : k < 64) : (1#64 <<< k).getLsbD j = decide (j = k) := by
  rw [← BitVec.twoPow_eq, BitVec.getLsbD_twoPow]
  simp [hk, eq_comm]

theorem and_single_ne_zero {w : BitVec 64} {k : ℕ} (hk : k < 64) :
    (w &&& 1#64 <<< k) ≠ 0#64 ↔ w.getLsbD k = true := by
  constructor
  · intro hne
    by_contra hbit
    refine hne (BitVec.eq_of_getLsbD_eq fun j _ => ?_)
    rw [BitVec.getLsbD_and, getLsbD_single hk]
    by_cases hj : j = k
    · rw [hj, Bool.eq_false_iff.mpr hbit, Bool.false_and, BitVec.getLsbD_zero]
    · rw [decide_eq_false hj, Bool.and_false, BitVec.getLsbD_zero]
  · intro hbit hzero
    have hk' := congrArg (BitVec.getLsbD · k) hzero
    rw [BitVec.getLsbD_and, hbit, getLsbD_single hk, BitVec.getLsbD_zero] at hk'
    simp at hk'

theorem bit_eq (m : Mask) (i : ℕ) : bit m i = ((m[i / 64]?).getD 0#64).getLsbD (i % 64) := by
  unfold bit
  rw [Bool.eq_iff_iff, decide_eq_true_eq]
  exact and_single_ne_zero (Nat.mod_lt i (by decide))

theorem bit_zeros (n i : ℕ) : bit (zeros n) i = false := by
  rw [bit_eq, zeros, List.getElem?_replicate]
  split_ifs <;> simp

/-- A bit that is set, in a word that is there. -/
theorem bit_setBit {m : Mask} {i : ℕ} (h : i / 64 < m.length) (j : ℕ) :
    bit (setBit m i) j = (bit m j || decide (j = i)) := by
  rw [bit_eq, bit_eq, setBit, List.getElem?_modify]
  by_cases hword : i / 64 = j / 64
  · obtain ⟨w, hw⟩ : ∃ w, m[j / 64]? = some w := ⟨_, List.getElem?_eq_getElem (hword ▸ h)⟩
    have hsame : j % 64 = i % 64 ↔ j = i := by omega
    simp only [hw, hword, if_true, Option.map_eq_map, Option.map_some, Option.getD_some, BitVec.getLsbD_or,
      getLsbD_single (Nat.mod_lt i (by decide)), hsame]
  · have hne : j ≠ i := fun heq => hword (by rw [heq])
    simp [hword, hne]

theorem length_foldl_setBit : ∀ (is : List ℕ) (m : Mask), (is.foldl setBit m).length = m.length
  | [], _ => rfl
  | i :: is, m => by rw [List.foldl_cons, length_foldl_setBit is, length_setBit]

/-- Several bits set one after the other. -/
theorem bit_foldl_setBit : ∀ (is : List ℕ) {m : Mask}, (∀ i ∈ is, i / 64 < m.length) → ∀ j,
    bit (is.foldl setBit m) j = (bit m j || decide (j ∈ is))
  | [], m, _, j => by simp
  | i :: is, m, h, j => by
    have hrest : ∀ k ∈ is, k / 64 < (setBit m i).length := fun k hk => by
      rw [length_setBit]
      exact h k (List.mem_cons_of_mem i hk)
    rw [List.foldl_cons, bit_foldl_setBit is hrest, bit_setBit (h i List.mem_cons_self), Bool.or_assoc]
    simp

/-- Masks of the same length are equal if they have the same bits. -/
theorem eq_of_bit_eq {m a : Mask} (hlen : m.length = a.length) (h : ∀ i, bit m i = bit a i) : m = a := by
  refine List.ext_getElem hlen fun w hw hw' => BitVec.eq_of_getLsbD_eq fun k hk => ?_
  have hbit := h (64 * w + k)
  have hword : (64 * w + k) / 64 = w := by omega
  have hplace : (64 * w + k) % 64 = k := by omega
  rw [bit_eq, bit_eq, hword, hplace, List.getElem?_eq_getElem hw, List.getElem?_eq_getElem hw'] at hbit
  exact hbit

theorem bit_intersect {m a : Mask} (hlen : m.length ≤ a.length) (i : ℕ) :
    bit (intersect m a) i = (bit m i && bit a i) := by
  rw [bit_eq, bit_eq, bit_eq, intersect, List.getElem?_mapIdx]
  by_cases hw : i / 64 < m.length
  · rw [List.getElem?_eq_getElem hw, List.getElem?_eq_getElem (Nat.lt_of_lt_of_le hw hlen)]
    simp [List.getD_eq_getElem?_getD, List.getElem?_eq_getElem (Nat.lt_of_lt_of_le hw hlen)]
  · simp [List.getElem?_eq_none (Nat.le_of_not_lt hw)]

end DenseLite.Lib.BitMask
