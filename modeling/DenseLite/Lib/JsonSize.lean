import DenseLite.Lib.JsonWriting
import Mathlib.Algebra.GroupWithZero.Nat

/-! # How short a document can be

A document has at least the bytes that its value needs without spaces and escapes. One that has no more is written
without them, so its strings are plain (`Document.plain`). A writer that copies strings as they are makes texts of just
this length: they are documents of the value only if the strings need no escape. -/

namespace DenseLite.Lib.JsonText

/-! ### Sizes -/

/-- The bytes of a token. -/
def Token.size : Token → ℕ
  | .punct _ => 1
  | .string body => body.length + 2
  | .word w => w.length

/-- The bytes of tokens. -/
def sizeOf (ts : List Token) : ℕ := (ts.map Token.size).sum

/-- The bytes of a token that is not complete. -/
def State.pending : State → ℕ
  | .out => 0
  | .word w => w.length
  | .str body | .esc body => body.length + 1

mutual

/-- The bytes that a value needs. -/
def Value.size : Value → ℕ
  | .null => nullWord.length
  | .bool b => (boolWord b).length
  | .number w => w.length
  | .string s => s.length + 2
  | .array items => max 2 (1 + sizeItems items)
  | .object members => max 2 (1 + sizeMembers members)

/-- The bytes of the elements, each with a comma or a bracket behind it. -/
def sizeItems : List Value → ℕ
  | [] => 0
  | v :: items => v.size + 1 + sizeItems items

def sizeMembers : List (List UInt8 × Value) → ℕ
  | [] => 0
  | (key, v) :: members => key.length + 3 + v.size + 1 + sizeMembers members

end

mutual

/-- The strings and the keys need no escape. -/
def Value.plain : Value → Bool
  | .null | .bool _ | .number _ => true
  | .string s => Plain s
  | .array items => plainItems items
  | .object members => plainMembers members

def plainItems : List Value → Bool
  | [] => true
  | v :: items => v.plain && plainItems items

def plainMembers : List (List UInt8 × Value) → Bool
  | [] => true
  | (key, v) :: members => decide (Plain key) && (v.plain && plainMembers members)

end

/-! ### The scanner -/

@[simp] theorem sizeOf_nil : sizeOf [] = 0 := rfl

@[simp] theorem sizeOf_cons (t : Token) (ts : List Token) : sizeOf (t :: ts) = t.size + sizeOf ts := by
  simp [sizeOf]

@[simp] theorem sizeOf_append (ts us : List Token) : sizeOf (ts ++ us) = sizeOf ts + sizeOf us := by
  simp [sizeOf]

theorem pending_begin (c : UInt8) : (begin c).1.pending + sizeOf (begin c).2 ≤ 1 := by
  unfold begin
  split_ifs <;> simp [State.pending, Token.size]

/-- A byte adds at most one byte to the tokens. -/
theorem pending_step (q : State) (c : UInt8) : (step q c).1.pending + sizeOf (step q c).2 ≤ q.pending + 1 := by
  cases q with
  | out => exact (pending_begin c).trans (by simp)
  | word w =>
    have hbegin := pending_begin c
    rw [step]
    rcases hc : begin c with ⟨q, ts⟩
    rw [hc] at hbegin
    cases q with
    | word => simp [State.pending]
    | out | str | esc =>
      simp only [State.pending, sizeOf_cons, Token.size] at hbegin ⊢
      omega
  | str body =>
    rw [step]
    split_ifs <;> simp [State.pending, Token.size]
  | esc body => simp [step, State.pending]

theorem pending_scan (q : State) (text : List UInt8) :
    (scan q text).1.pending + sizeOf (scan q text).2 ≤ q.pending + text.length := by
  induction text generalizing q with
  | nil => simp [scan]
  | cons c text ih =>
    have hstep := pending_step q c
    have hrest := ih (step q c).1
    simp only [scan, sizeOf_append, List.length_cons]
    omega

theorem sizeOf_tokens {text : List UInt8} {ts : List Token} (h : tokens text = some ts) : sizeOf ts ≤ text.length := by
  have hscan := pending_scan .out text
  unfold tokens at h
  split at h
  · rename_i heq
    obtain rfl := Option.some.inj h
    simpa [heq, State.pending] using hscan
  · rename_i heq
    obtain rfl := Option.some.inj h
    simp only [heq, State.pending] at hscan
    simp only [sizeOf_append, sizeOf_cons, sizeOf_nil, Token.size]
    omega
  · cases h

/-! ### Documents -/

/-- What a value needs, against what it has; `n` bytes are not counted. -/
def Fits (size n : ℕ) (ts : List Token) (plain : Bool) : Prop :=
  1 ≤ sizeOf ts ∧ size ≤ sizeOf ts + n ∧ (size = sizeOf ts + n → plain = true)

theorem Decodes.fits {body s : List UInt8} (h : Decodes body s) : Fits (s.length + 2) 0 [.string body] (Plain s) := by
  have hlen := h.length_le
  simp only [Fits, sizeOf_cons, sizeOf_nil, Token.size, decide_eq_true_eq]
  refine ⟨by omega, by omega, fun heq => ?_⟩
  obtain ⟨rfl, hplain⟩ := hlen.2 (by omega)
  exact hplain

mutual

theorem Denotes.fits : ∀ {ts : List Token} {v : Value}, Denotes ts v → Fits v.size 0 ts v.plain
  | _, _, .null => by simp [Fits, Value.size, Value.plain, Token.size, nullWord]
  | _, _, .bool b => by cases b <;> simp [Fits, Value.size, Value.plain, Token.size, boolWord]
  | _, _, @Denotes.number w h => by
    have hne : w ≠ [] := by
      rintro rfl
      cases h
    have hpos := List.length_pos_iff.mpr hne
    simp only [Fits, Value.size, Value.plain, sizeOf_cons, sizeOf_nil, Token.size]
    exact ⟨by omega, by omega, fun _ => trivial⟩
  | _, _, .string h => h.fits
  | _, _, .emptyArray => by simp [Fits, Value.size, sizeItems, Value.plain, plainItems, Token.size]
  | _, _, .emptyObject => by simp [Fits, Value.size, sizeMembers, Value.plain, plainMembers, Token.size]
  | _, _, .array h => by
    obtain ⟨hpos, hle, hplain⟩ := h.fits
    simp only [Fits, Value.size, Value.plain, List.cons_append, sizeOf_cons, sizeOf_append, sizeOf_nil, Token.size]
    exact ⟨by omega, by omega, fun heq => hplain (by omega)⟩
  | _, _, .object h => by
    obtain ⟨hpos, hle, hplain⟩ := h.fits
    simp only [Fits, Value.size, Value.plain, List.cons_append, sizeOf_cons, sizeOf_append, sizeOf_nil, Token.size]
    exact ⟨by omega, by omega, fun heq => hplain (by omega)⟩

theorem Elements.fits : ∀ {ts : List Token} {items : List Value}, Elements ts items →
    Fits (sizeItems items) 1 ts (plainItems items)
  | _, _, .last h => by
    obtain ⟨hpos, hle, hplain⟩ := h.fits
    simp only [Fits, sizeItems, plainItems, Bool.and_true]
    exact ⟨hpos, by omega, fun heq => hplain (by omega)⟩
  | _, _, .more h hrest => by
    obtain ⟨hpos, hle, hplain⟩ := h.fits
    obtain ⟨-, hle', hplain'⟩ := hrest.fits
    simp only [Fits, sizeItems, plainItems, sizeOf_append, sizeOf_cons, Token.size, Bool.and_eq_true]
    exact ⟨by omega, by omega, fun heq => ⟨hplain (by omega), hplain' (by omega)⟩⟩

theorem Members.fits : ∀ {ts : List Token} {members : List (List UInt8 × Value)}, Members ts members →
    Fits (sizeMembers members) 1 ts (plainMembers members)
  | _, _, .last hkey h => by
    obtain ⟨-, hle, hplain⟩ := hkey.fits
    obtain ⟨hpos', hle', hplain'⟩ := h.fits
    simp only [sizeOf_cons, sizeOf_nil] at hle hplain
    simp only [Fits, sizeMembers, plainMembers, sizeOf_cons, Token.size, Bool.and_eq_true, Bool.and_true] at *
    exact ⟨by omega, by omega, fun heq => ⟨hplain (by omega), hplain' (by omega)⟩⟩
  | _, _, .more hkey h hrest => by
    obtain ⟨-, hle, hplain⟩ := hkey.fits
    obtain ⟨hpos', hle', hplain'⟩ := h.fits
    obtain ⟨-, hle'', hplain''⟩ := hrest.fits
    simp only [sizeOf_cons, sizeOf_nil] at hle hplain
    simp only [Fits, sizeMembers, plainMembers, List.cons_append, sizeOf_cons, sizeOf_append, Token.size,
      Bool.and_eq_true] at *
    exact ⟨by omega, by omega, fun heq => ⟨hplain (by omega), hplain' (by omega), hplain'' (by omega)⟩⟩

end

/-- **A document without a byte too many** has no escapes. -/
theorem Document.plain {text : List UInt8} {v : Value} (h : Document text v) (hlen : text.length ≤ v.size) :
    v.plain = true := by
  obtain ⟨-, ts, hts, hv⟩ := h
  obtain ⟨-, hle, hplain⟩ := hv.fits
  have hsize := sizeOf_tokens hts
  exact hplain (by omega)

end DenseLite.Lib.JsonText
