import DenseLite.Engine.Analyzer
import DenseLite.Lib.JsonText

/-! # Writing JSON

What `json::dump` writes: the compact text of a value, with nothing where it throws because a string is not UTF-8.
Only ASCII bytes are escaped. -/

namespace DenseLite.Engine.Dump

open DenseLite.Lib DenseLite.Lib.ByteStream DenseLite.Lib.JsonText DenseLite.Engine.Analyzer
open DenseLite.Infer.State (ascii)

/-! ### Strings -/

/-- A hexadecimal digit, as `%x` writes it. -/
def hexLower (n : ℕ) : UInt8 := if n < 10 then .ofNat (0x30 + n) else .ofNat (0x61 + (n - 10))

/-- A byte in `dump_escaped`, without `ensure_ascii`. -/
def escapeByte (c : UInt8) : Bytes :=
  if c = 0x08 then ascii "\\b"
  else if c = 0x09 then ascii "\\t"
  else if c = 0x0a then ascii "\\n"
  else if c = 0x0c then ascii "\\f"
  else if c = 0x0d then ascii "\\r"
  else if c = 0x22 then ascii "\\\""
  else if c = 0x5c then ascii "\\\\"
  else if c < 0x20 then ascii "\\u00" ++ [hexLower (c.toNat / 16), hexLower (c.toNat % 16)]
  else [c]

/-- `Formatter::json_escape`: what `dump` writes between the quotes of a string. -/
def jsonEscape (s : Bytes) : Option Bytes := if Utf8.valid s then some (s.flatMap escapeByte) else none

/-- A string with its quotes. -/
def dumpString (s : Bytes) : Option Bytes := (jsonEscape s).map fun body => 0x22 :: body ++ [0x22]

/-! ### Values -/

mutual

/-- `dump`. -/
def dump : Json → Option Bytes
  | .null => some (ascii "null")
  | .bool b => some (if b then ascii "true" else ascii "false")
  | .number text => some text
  | .string s => dumpString s
  | .array items => (dumpItems items).map fun text => ascii "[" ++ text ++ ascii "]"
  | .object members => (dumpMembers members).map fun text => ascii "\x7b" ++ text ++ ascii "\x7d"

/-- The elements of an array, with commas between them. -/
def dumpItems : List Json → Option Bytes
  | [] => some []
  | [x] => dump x
  | x :: y :: rest => do
    let text ← dump x
    let more ← dumpItems (y :: rest)
    some (text ++ ascii "," ++ more)

/-- The members of an object, with commas between them. -/
def dumpMembers : List (Bytes × Json) → Option Bytes
  | [] => some []
  | [(key, x)] => do
    let name ← dumpString key
    let text ← dump x
    some (name ++ ascii ":" ++ text)
  | (key, x) :: y :: rest => do
    let name ← dumpString key
    let text ← dump x
    let more ← dumpMembers (y :: rest)
    some (name ++ ascii ":" ++ text ++ ascii "," ++ more)

end

/-! ### Escapes -/

/-- The control characters in hexadecimal. -/
theorem decodes_control {c : UInt8} (hc : c < 0x20) {body s : Bytes} (h : Decodes body s) :
    Decodes (ascii "\\u00" ++ [hexLower (c.toNat / 16), hexLower (c.toNat % 16)] ++ body) (c :: s) := by
  have hhex : ∀ n < 32, hex4 0x30 0x30 (hexLower (n / 16)) (hexLower (n % 16)) = some n ∧
      encode n = [UInt8.ofNat n] := by decide +kernel
  obtain ⟨hnumber, hencode⟩ := hhex c.toNat (UInt8.lt_iff_toNat_lt.mp hc)
  have hdecodes := Decodes.unicode hnumber (by have := UInt8.lt_iff_toNat_lt.mp hc; simp at this; omega) h
  rw [hencode, UInt8.ofNat_toNat] at hdecodes
  exact hdecodes

theorem decodes_escapeByte (c : UInt8) {body s : Bytes} (h : Decodes body s) :
    Decodes (escapeByte c ++ body) (c :: s) := by
  unfold escapeByte
  by_cases h1 : c = 0x08
  · rw [if_pos h1, h1]
    exact .short (by decide) h
  rw [if_neg h1]
  by_cases h2 : c = 0x09
  · rw [if_pos h2, h2]
    exact .short (by decide) h
  rw [if_neg h2]
  by_cases h3 : c = 0x0a
  · rw [if_pos h3, h3]
    exact .short (by decide) h
  rw [if_neg h3]
  by_cases h4 : c = 0x0c
  · rw [if_pos h4, h4]
    exact .short (by decide) h
  rw [if_neg h4]
  by_cases h5 : c = 0x0d
  · rw [if_pos h5, h5]
    exact .short (by decide) h
  rw [if_neg h5]
  by_cases h6 : c = 0x22
  · rw [if_pos h6, h6]
    exact .short (by decide) h
  rw [if_neg h6]
  by_cases h7 : c = 0x5c
  · rw [if_pos h7, h7]
    exact .short (by decide) h
  rw [if_neg h7]
  by_cases h8 : c < 0x20
  · rw [if_pos h8]
    exact decodes_control h8 h
  · rw [if_neg h8]
    exact .plain (UInt8.not_lt.mp h8) h6 h7 h

/-- **What is escaped stands for the string.** -/
theorem decodes_flatMap_escapeByte : ∀ s : Bytes, Decodes (s.flatMap escapeByte) s
  | [] => .nil
  | c :: s => decodes_escapeByte c (decodes_flatMap_escapeByte s)

/-- Only ASCII bytes are escaped, and with ASCII bytes. -/
theorem keepsCharacters_escapeByte : Utf8.KeepsCharacters escapeByte := by
  have hbytes : ∀ n < 256, escapeByte (.ofNat n) = [.ofNat n] ∨ UInt8.ofNat n < 0x80 ∧
      escapeByte (.ofNat n) ≠ [] ∧ ∀ b ∈ escapeByte (.ofNat n), b < 0x80 := by decide +kernel
  intro c
  rw [← UInt8.ofNat_toNat (x := c)]
  exact hbytes c.toNat c.toNat_lt

theorem jsonEscape_eq_some_iff {s body : Bytes} :
    jsonEscape s = some body ↔ Utf8.valid s = true ∧ s.flatMap escapeByte = body := by
  unfold jsonEscape
  split_ifs with h <;> simp [h]

/-- `json_escape` throws exactly on what is not UTF-8. -/
theorem jsonEscape_isSome (s : Bytes) : (jsonEscape s).isSome = Utf8.valid s := by
  unfold jsonEscape
  split_ifs with h <;> simp [h]

end DenseLite.Engine.Dump
