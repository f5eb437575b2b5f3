import DenseLite.Lib.ByteStream
import Mathlib.Algebra.Order.Floor.Ring
import Mathlib.Data.Nat.Log
import Mathlib.Data.Rat.Floor
import Mathlib.Tactic.FieldSimp
import Mathlib.Tactic.NormNum
import Mathlib.Tactic.Ring

/-! # Numbers as decimal texts

The texts that `printf` makes of an integer and of a number with a fixed number of decimals, and the numbers
that are read from texts: what follows the number is not looked at. -/

namespace DenseLite.Lib.Decimal

open DenseLite.Lib.ByteStream

/-! ### Digits -/

/-- The last `k` digits of a number. -/
def digits : ℕ → ℕ → Bytes
  | 0, _ => []
  | k + 1, n => digits k (n / 10) ++ [UInt8.ofNat (48 + n % 10)]

/-- `isdigit`. -/
def isDigit (c : UInt8) : Bool := 48 ≤ c.toNat && c.toNat ≤ 57

/-- `isspace`. -/
def isSpace (c : UInt8) : Bool := c = 32 || (9 ≤ c.toNat && c.toNat ≤ 13)

/-- The number that digits stand for. -/
def valueOf (s : Bytes) : ℕ := s.foldl (fun n c => 10 * n + (c.toNat - 48)) 0

theorem toNat_digit (n : ℕ) : (UInt8.ofNat (48 + n % 10)).toNat = 48 + n % 10 :=
  UInt8.toNat_ofNat_of_lt' (show 48 + n % 10 < 256 by omega)

theorem length_digits : ∀ k n : ℕ, (digits k n).length = k
  | 0, _ => rfl
  | k + 1, n => by
    rw [digits, List.length_append, length_digits k, List.length_singleton]

theorem isDigit_of_mem_digits : ∀ {k n : ℕ} {c : UInt8}, c ∈ digits k n → isDigit c = true
  | k + 1, n, c, h => by
    rcases List.mem_append.mp h with h | h
    · exact isDigit_of_mem_digits h
    · rw [List.mem_singleton.mp h]
      unfold isDigit
      rw [toNat_digit, Bool.and_eq_true, decide_eq_true_eq, decide_eq_true_eq]
      omega

theorem valueOf_digits : ∀ k n : ℕ, valueOf (digits k n) = n % 10 ^ k
  | 0, n => by simp [digits, valueOf, Nat.mod_one]
  | k + 1, n => by
    have ih := valueOf_digits k (n / 10)
    unfold valueOf at ih ⊢
    rw [digits, List.foldl_append, ih, List.foldl_cons, List.foldl_nil, toNat_digit, Nat.add_sub_cancel_left,
      pow_succ', Nat.mod_mul]
    ring

/-- The digits of a number, without leading zeros. -/
def natText (n : ℕ) : Bytes := digits (Nat.log 10 n + 1) n

theorem valueOf_natText (n : ℕ) : valueOf (natText n) = n := by
  unfold natText
  rw [valueOf_digits, Nat.mod_eq_of_lt (Nat.lt_pow_succ_log_self (by decide) n)]

theorem isDigit_natText {n : ℕ} : ∀ c ∈ natText n, isDigit c = true := fun _ hc => isDigit_of_mem_digits hc

theorem natText_ne_nil (n : ℕ) : natText n ≠ [] := by
  intro h
  have hlen := congrArg List.length h
  unfold natText at hlen
  rw [length_digits] at hlen
  exact absurd hlen (Nat.succ_ne_zero _)

/-- A text with its sign. -/
def signed (neg : Bool) (s : Bytes) : Bytes := if neg then 45 :: s else s

/-- The sign of a text, and the text behind it. -/
def unsign : Bytes → Bool × Bytes
  | [] => (false, [])
  | c :: s => if c = 45 then (true, s) else if c = 43 then (false, s) else (false, c :: s)

/-- A text that begins with a digit has the sign it was given. -/
theorem unsign_signed {neg : Bool} {s t : Bytes} (hne : s ≠ []) (hs : ∀ c ∈ s, isDigit c = true) :
    unsign ((signed neg (s ++ t)).dropWhile isSpace) = (neg, s ++ t) := by
  obtain ⟨c, s, rfl⟩ := List.exists_cons_of_ne_nil hne
  have hc := hs c List.mem_cons_self
  unfold isDigit at hc
  rw [Bool.and_eq_true, decide_eq_true_eq, decide_eq_true_eq] at hc
  unfold signed
  cases neg with
  | true => rfl
  | false =>
    have hspace : isSpace c = false := by
      unfold isSpace
      have h32 : c ≠ 32 := by
        rintro rfl
        exact absurd hc.1 (by decide)
      simp only [h32, decide_false, Bool.false_or, Bool.and_eq_false_iff, decide_eq_false_iff_not]
      omega
    have h45 : c ≠ 45 := by
      rintro rfl
      exact absurd hc.1 (by decide)
    have h43 : c ≠ 43 := by
      rintro rfl
      exact absurd hc.1 (by decide)
    rw [if_neg (by decide), List.cons_append, List.dropWhile_cons, hspace, if_neg (by decide), unsign, if_neg h45,
      if_neg h43]

/-! ### Integers -/

/-- `%d`. -/
def intText (i : ℤ) : Bytes := signed (i < 0) (natText i.natAbs)

/-- `strtol`, in base 10. -/
def parseInt (s : Bytes) : Option ℤ :=
  let (neg, s) := unsign (s.dropWhile isSpace)
  let ds := s.takeWhile isDigit
  if ds = [] then none else some (if neg then -(valueOf ds : ℤ) else valueOf ds)

theorem takeWhile_natText (n : ℕ) : (natText n).takeWhile isDigit = natText n :=
  List.takeWhile_eq_self_iff.mpr isDigit_natText

theorem parseInt_intText (i : ℤ) : parseInt (intText i) = some i := by
  have hsign : unsign ((signed (i < 0) (natText i.natAbs ++ [])).dropWhile isSpace) =
      (decide (i < 0), natText i.natAbs ++ []) := unsign_signed (natText_ne_nil i.natAbs) isDigit_natText
  rw [List.append_nil] at hsign
  unfold parseInt intText
  rw [hsign]
  dsimp only
  rw [takeWhile_natText, if_neg (natText_ne_nil _), valueOf_natText]
  by_cases hneg : i < 0
  · rw [if_pos (decide_eq_true hneg)]
    exact congrArg some (by omega)
  · rw [if_neg (by simpa using hneg)]
    exact congrArg some (by omega)

/-! ### Decimals -/

/-- `%.kf` of a number of `n` parts of `10 ^ k`. -/
def fixedText (k : ℕ) (neg : Bool) (n : ℕ) : Bytes :=
  signed neg (natText (n / 10 ^ k) ++ 46 :: digits k n)

/-- The digits behind a point. -/
def decimals : Bytes → Bytes
  | [] => []
  | c :: s => if c = 46 then s.takeWhile isDigit else []

/-- `strtod` on a decimal number without exponent. -/
def parseDecimal (s : Bytes) : Option ℚ :=
  let (neg, s) := unsign (s.dropWhile isSpace)
  let whole := s.takeWhile isDigit
  let frac := decimals (s.dropWhile isDigit)
  if whole = [] ∧ frac = [] then none
  else
    let x : ℚ := valueOf whole + valueOf frac / 10 ^ frac.length
    some (if neg then -x else x)

theorem parseDecimal_fixedText (k : ℕ) (neg : Bool) (n : ℕ) :
    parseDecimal (fixedText k neg n) = some (if neg then -(n / 10 ^ k : ℚ) else n / 10 ^ k) := by
  have hsign : unsign ((signed neg (natText (n / 10 ^ k) ++ 46 :: digits k n)).dropWhile isSpace) =
      (neg, natText (n / 10 ^ k) ++ 46 :: digits k n) :=
    unsign_signed (natText_ne_nil (n / 10 ^ k)) isDigit_natText
  have hwhole : (natText (n / 10 ^ k) ++ 46 :: digits k n).takeWhile isDigit = natText (n / 10 ^ k) := by
    rw [List.takeWhile_append_of_pos isDigit_natText, List.takeWhile_cons,
      if_neg (by decide), List.append_nil]
  have hrest : (natText (n / 10 ^ k) ++ 46 :: digits k n).dropWhile isDigit = 46 :: digits k n := by
    rw [List.dropWhile_append_of_pos isDigit_natText, List.dropWhile_cons, if_neg (by decide)]
  have hfrac : (digits k n).takeWhile isDigit = digits k n :=
    List.takeWhile_eq_self_iff.mpr fun _ hc => isDigit_of_mem_digits hc
  have hvalue : ((n / 10 ^ k : ℕ) : ℚ) + ((n % 10 ^ k : ℕ) : ℚ) / 10 ^ k = n / 10 ^ k := by
    have hdiv : (10 ^ k * (n / 10 ^ k : ℕ) + (n % 10 ^ k : ℕ) : ℚ) = n := by
      exact_mod_cast Nat.div_add_mod n (10 ^ k)
    rw [← hdiv]
    field_simp
  unfold parseDecimal fixedText
  rw [hsign]
  dsimp only
  rw [hwhole, hrest, decimals, if_pos rfl, hfrac, if_neg fun h => natText_ne_nil _ h.1, valueOf_natText,
    valueOf_digits, length_digits, hvalue]

end DenseLite.Lib.Decimal
