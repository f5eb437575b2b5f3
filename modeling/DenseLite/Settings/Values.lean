import DenseLite.Infer.State
import DenseLite.Lib.Decimal

/-! # Settings and their texts

A setting is stored as a text; `set_int`, `set_float` and `set_bool` make it, and `get_*` read it with a
default. A float is written with six decimals, and is read as what was written. -/

namespace DenseLite.Settings.Values

open DenseLite.Lib.ByteStream DenseLite.Lib.Decimal DenseLite.Infer.State

/-- `SettingRecord`. -/
structure SettingRecord where
  module : Bytes
  key : Bytes
  value : Bytes
  valType : Bytes := ascii "string"
  updatedAt : Int64 := 0
deriving DecidableEq, Repr

/-- Module and key. -/
abbrev Id := Bytes × Bytes

/-- The primary key. -/
def SettingRecord.id (r : SettingRecord) : Id := (r.module, r.key)

/-- The value of a setting; `φ` are the floats. -/
inductive Value (φ : Type)
  | string (s : Bytes)
  | int (i : Int32)
  | float (x : φ)
  | bool (b : Bool)
deriving DecidableEq

/-- `get_string`, `get_int`, `get_float`, `get_bool` of a text, with a default; `stoi` and `stof` throw where
there is nothing. -/
def Value.read {φ : Type} (stoi : Bytes → Option Int32) (stof : Bytes → Option φ) (text : Option Bytes) :
    Value φ → Value φ
  | .string fallback => .string (text.getD fallback)
  | .int fallback => .int ((text.bind stoi).getD fallback)
  | .float fallback => .float ((text.bind stof).getD fallback)
  | .bool fallback => .bool ((text.map fun v => v == ascii "true" || v == ascii "1").getD fallback)

/-! ### The conversions -/

/-- `std::stoi`. -/
def stoi (s : Bytes) : Option Int32 :=
  (parseInt s).bind fun i => if -2 ^ 31 ≤ i ∧ i < 2 ^ 31 then some (Int32.ofInt i) else none

/-- The nearest integer, the even one of two. -/
def nearest (y : ℚ) : ℕ :=
  if y - ⌊y⌋₊ < 1 / 2 ∨ (y - ⌊y⌋₊ = 1 / 2 ∧ ⌊y⌋₊ % 2 = 0) then ⌊y⌋₊ else ⌊y⌋₊ + 1

/-- The millionths of a float. -/
def millionths (x : ℚ) : ℕ := nearest (|x| * 10 ^ 6)

/-- A float with six decimals. -/
def rounded (x : ℚ) : ℚ := if x < 0 then -(millionths x / 10 ^ 6 : ℚ) else millionths x / 10 ^ 6

/-- `std::stof`, as far as it reads what `std::to_string` writes. -/
structure Stof where
  parse : Bytes → Option ℚ
  parse_fixedText : ∀ neg n, parse (fixedText 6 neg n) = some (if neg then -(n / 10 ^ 6 : ℚ) else n / 10 ^ 6)

/-- `std::stof` on decimal numbers without exponent. -/
def decimalStof : Stof where
  parse := parseDecimal
  parse_fixedText := parseDecimal_fixedText 6

/-- The text that is stored: `std::to_string` of a number. -/
def Value.text : Value ℚ → Bytes
  | .string s => s
  | .int i => intText i.toInt
  | .float x => fixedText 6 (x < 0) (millionths x)
  | .bool b => if b then ascii "true" else ascii "false"

/-- `val_type`. -/
def Value.valType : Value ℚ → Bytes
  | .string _ => ascii "string"
  | .int _ => ascii "int"
  | .float _ => ascii "float"
  | .bool _ => ascii "bool"

/-- What is stored of a value. -/
def Value.stored : Value ℚ → Value ℚ
  | .float x => .float (rounded x)
  | v => v

/-- The two values are of one type. -/
def SameKind : Value ℚ → Value ℚ → Prop
  | .string _, .string _ => True
  | .int _, .int _ => True
  | .float _, .float _ => True
  | .bool _, .bool _ => True
  | _, _ => False

theorem SameKind.refl : ∀ v : Value ℚ, SameKind v v
  | .string _ => trivial
  | .int _ => trivial
  | .float _ => trivial
  | .bool _ => trivial

theorem SameKind.stored {v w : Value ℚ} (h : SameKind v w) : SameKind v.stored w := by
  cases v <;> cases w <;> exact h

/-- An unset setting has its default. -/
@[simp] theorem read_none (stof : Bytes → Option ℚ) (fallback : Value ℚ) :
    fallback.read stoi stof none = fallback := by
  cases fallback <;> rfl

theorem stoi_intText (i : Int32) : stoi (intText i.toInt) = some i := by
  unfold stoi
  rw [parseInt_intText, Option.bind_some, if_pos ⟨i.le_toInt, i.toInt_lt⟩, Int32.ofInt_toInt]

theorem parse_text_float (stof : Stof) (x : ℚ) : stof.parse (Value.float x).text = some (rounded x) := by
  unfold Value.text rounded
  rw [stof.parse_fixedText]
  simp only [decide_eq_true_eq]

/-- What is read of a stored value. -/
theorem read_text (stof : Stof) {v fallback : Value ℚ} (h : SameKind v fallback) :
    fallback.read stoi stof.parse (some v.text) = v.stored := by
  cases v <;> cases fallback <;> try exact h.elim
  case string.string s d => rfl
  case int.int i d =>
    change Value.int ((stoi (intText i.toInt)).getD d) = _
    rw [stoi_intText]
    rfl
  case float.float x d =>
    change Value.float ((stof.parse (Value.float x).text).getD d) = _
    rw [parse_text_float]
    rfl
  case bool.bool b d => cases b <;> rfl

/-! ### Floats with six decimals -/

theorem nearest_natCast (n : ℕ) : nearest n = n := by
  unfold nearest
  rw [Nat.floor_natCast, sub_self, if_pos (Or.inl (by norm_num))]

/-- A number of millionths is kept. -/
theorem rounded_of_natCast {n : ℕ} {x : ℚ} (h : |x| * 10 ^ 6 = n) : rounded x = x := by
  have hn : (n : ℚ) / 10 ^ 6 = |x| := by
    rw [← h]
    field_simp
  unfold rounded millionths
  rw [h, nearest_natCast, hn]
  split_ifs with hneg
  · rw [abs_of_neg hneg, neg_neg]
  · rw [abs_of_nonneg (not_lt.mp hneg)]

theorem rounded_rounded (x : ℚ) : rounded (rounded x) = rounded x := by
  refine rounded_of_natCast (n := millionths x) ?_
  have hnonneg : (0 : ℚ) ≤ millionths x / 10 ^ 6 := by positivity
  have habs : |rounded x| = millionths x / 10 ^ 6 := by
    unfold rounded
    split_ifs
    · rw [abs_neg, abs_of_nonneg hnonneg]
    · rw [abs_of_nonneg hnonneg]
  rw [habs]
  field_simp

@[simp] theorem stored_stored (v : Value ℚ) : v.stored.stored = v.stored := by
  cases v with
  | float x => exact congrArg Value.float (rounded_rounded x)
  | _ => rfl

end DenseLite.Settings.Values
