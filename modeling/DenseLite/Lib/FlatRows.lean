import Mathlib.Data.List.Basic
import Mathlib.Tactic.Ring
import Mathlib.Tactic.SplitIfs

/-! # Flat vectors cut into rows of one width

A matrix stored as one flat vector: row `p` of width `w` is the slice from `p * w` on. `setRow` is a
copy of one row into the vector, `resize` what growing or shrinking a vector to a length does to
its entries. Rows are compared entry by entry through `getElem?_row`. -/

namespace DenseLite.Lib.FlatRows

variable {α : Type*}

/-- Row `p` of width `w` of the flat vector `v`. -/
def row (w p : ℕ) (v : List α) : List α := (v.drop (p * w)).take w

/-- Copying `r`, a row of width `w`, over row `p`. -/
def setRow (w p : ℕ) (r v : List α) : List α := v.take (p * w) ++ r ++ v.drop (p * w + w)

/-- A vector cut or filled up with `x` to length `n`; the entries it has are kept. -/
def resize (n : ℕ) (x : α) (v : List α) : List α := v.take n ++ List.replicate (n - v.length) x

/-! ### Rows, entry by entry -/

theorem getElem?_row (w p i : ℕ) (v : List α) :
    (row w p v)[i]? = if i < w then v[p * w + i]? else none := by
  unfold row
  rw [List.getElem?_take, List.getElem?_drop]

theorem row_congr {w p : ℕ} {v v' : List α} (h : ∀ i < w, v[p * w + i]? = v'[p * w + i]?) :
    row w p v = row w p v' := by
  refine List.ext_getElem? fun i => ?_
  rw [getElem?_row, getElem?_row]
  split_ifs with hi
  · exact h i hi
  · rfl

theorem length_row {w p : ℕ} {v : List α} (h : p * w + w ≤ v.length) : (row w p v).length = w := by
  unfold row
  rw [List.length_take, List.length_drop]
  omega

/-- A row of full width lies inside the vector. -/
theorem le_of_length_row {w p : ℕ} {v : List α} (h : (row w p v).length = w) (hw : 0 < w) :
    p * w + w ≤ v.length := by
  unfold row at h
  rw [List.length_take, List.length_drop] at h
  omega

/-- Entries of different rows are different. -/
theorem block_ne {w p q i : ℕ} (hi : i < w) (hne : q ≠ p) :
    q * w + i < p * w ∨ p * w + w ≤ q * w + i := by
  rcases Nat.lt_or_gt_of_ne hne with h | h
  · left
    have : (q + 1) * w ≤ p * w := Nat.mul_le_mul_right w h
    rw [Nat.add_mul] at this
    omega
  · right
    have : (p + 1) * w ≤ q * w := Nat.mul_le_mul_right w h
    rw [Nat.add_mul] at this
    omega

/-! ### Writing a row -/

theorem length_setRow {w p : ℕ} {r v : List α} (hr : r.length = w) (hfit : p * w + w ≤ v.length) :
    (setRow w p r v).length = v.length := by
  unfold setRow
  simp only [List.length_append, List.length_take, List.length_drop, hr]
  omega

theorem row_setRow_self {w p : ℕ} {r v : List α} (hr : r.length = w) (hfit : p * w ≤ v.length) :
    row w p (setRow w p r v) = r := by
  unfold row setRow
  rw [List.append_assoc, List.drop_append_of_le_length (by rw [List.length_take]; omega),
    List.drop_of_length_le (by rw [List.length_take]; omega), List.nil_append, ← hr,
    List.take_left]

theorem getElem?_setRow_of_lt {w p j : ℕ} {r v : List α} (hj : j < p * w) (hv : p * w ≤ v.length) :
    (setRow w p r v)[j]? = v[j]? := by
  unfold setRow
  rw [List.append_assoc, List.getElem?_append_left (by rw [List.length_take]; omega),
    List.getElem?_take_of_lt hj]

theorem getElem?_setRow_of_le {w p j : ℕ} {r v : List α} (hr : r.length = w)
    (hv : p * w + w ≤ v.length) (hj : p * w + w ≤ j) : (setRow w p r v)[j]? = v[j]? := by
  have hlen : (v.take (p * w) ++ r).length = p * w + w := by
    rw [List.length_append, List.length_take, hr]; omega
  unfold setRow
  rw [List.getElem?_append_right (by omega), hlen, List.getElem?_drop]
  congr 1
  omega

/-- Writing a row keeps all others. -/
theorem row_setRow_ne {w p q : ℕ} {r v : List α} (hr : r.length = w) (hfit : p * w + w ≤ v.length)
    (hne : q ≠ p) : row w q (setRow w p r v) = row w q v := by
  refine row_congr fun i hi => ?_
  rcases block_ne hi hne with h | h
  · exact getElem?_setRow_of_lt h (by omega)
  · exact getElem?_setRow_of_le hr hfit h

/-! ### Rows of cut and extended vectors -/

theorem row_take {w p n : ℕ} {v : List α} (h : p * w + w ≤ n) : row w p (v.take n) = row w p v := by
  refine row_congr fun i hi => ?_
  rw [List.getElem?_take_of_lt (by omega)]

theorem row_append_left {w p : ℕ} {v u : List α} (h : p * w + w ≤ v.length) :
    row w p (v ++ u) = row w p v := by
  refine row_congr fun i hi => ?_
  rw [List.getElem?_append_left (by omega)]

theorem row_replicate {w p n : ℕ} (x : α) (h : p * w + w ≤ n) :
    row w p (List.replicate n x) = List.replicate w x := by
  unfold row
  rw [List.drop_replicate, List.take_replicate]
  congr 1
  omega

/-- Rows from the end of `v` on, when `v` is filled up with `x`. -/
theorem row_append_replicate {w p k n : ℕ} {v : List α} (x : α) (hv : v.length = k * w)
    (hkp : k ≤ p) (h : p * w + w ≤ k * w + n) :
    row w p (v ++ List.replicate n x) = List.replicate w x := by
  have hkw : k * w ≤ p * w := Nat.mul_le_mul_right w hkp
  refine List.ext_getElem? fun i => ?_
  rw [getElem?_row]
  split_ifs with hi
  · rw [List.getElem?_append_right (by omega), List.getElem?_replicate, List.getElem?_replicate,
      if_pos (by omega), if_pos hi]
  · rw [List.getElem?_replicate, if_neg hi]

/-! ### Resizing -/

@[simp] theorem length_resize (n : ℕ) (x : α) (v : List α) : (resize n x v).length = n := by
  unfold resize
  rw [List.length_append, List.length_take, List.length_replicate]
  omega

/-- Resizing to the length a vector already has does nothing. -/
theorem resize_of_length_eq {n : ℕ} {x : α} {v : List α} (h : v.length = n) : resize n x v = v := by
  unfold resize
  rw [List.take_of_length_le (by omega), h]
  simp

theorem resize_nil (n : ℕ) (x : α) : resize n x [] = List.replicate n x := by
  simp [resize]

/-- A row inside both lengths survives resizing. -/
theorem row_resize {w p n : ℕ} {x : α} {v : List α} (hn : p * w + w ≤ n) (hv : p * w + w ≤ v.length) :
    row w p (resize n x v) = row w p v := by
  unfold resize
  rw [row_append_left (by rw [List.length_take]; omega), row_take hn]

end DenseLite.Lib.FlatRows
