import Mathlib.Data.List.Basic
import Mathlib.Data.List.TakeWhile
import Mathlib.Tactic.Ring
import Mathlib.Tactic.SplitIfs

/-! # Little-endian numbers, and reading them from a file

Numbers are written as their little-endian bytes (`leBytes`, `leVal`), signed 32-bit ones in two's
complement (`u32OfInt`, `int32OfU32`). `IStream` is an input stream as the C++ library has it: a read
takes what is left, up to the number of bytes asked for, and once it gets fewer the stream has
failed and every later read gets nothing.

A read into a zero-filled variable that comes up short leaves zeros, so reading a file field by
field is reading the file followed by zeros; `streamAt f k` is the stream after `k` bytes of `f` were
asked for, whether or not they were there (`read_streamAt`). -/

namespace DenseLite.Lib.ByteStream

/-- The bytes of a file, or of a string. -/
abbrev Bytes := List UInt8

/-- The bytes of a string that `c_str()` shows to a reader that stops at a zero byte. -/
def cstr (s : Bytes) : Bytes := s.takeWhile (· ≠ 0)

theorem cstr_of_not_mem {s : Bytes} (h : 0 ∉ s) : cstr s = s := by
  unfold cstr
  rw [List.takeWhile_eq_self_iff]
  intro c hc
  have hne : c ≠ 0 := fun h0 => h (h0 ▸ hc)
  simpa using hne

theorem not_mem_cstr (s : Bytes) : 0 ∉ cstr s := fun h => absurd (List.mem_takeWhile_imp h) (by simp)

/-! ### Little-endian numbers -/

/-- The `k` low bytes of `n`, the lowest first. -/
def leBytes : ℕ → ℕ → Bytes
  | 0, _ => []
  | k + 1, n => UInt8.ofNat n :: leBytes k (n / 256)

/-- The number whose bytes are `bs`, the lowest first. -/
def leVal : Bytes → ℕ
  | [] => 0
  | b :: bs => b.toNat + 256 * leVal bs

@[simp] theorem length_leBytes : ∀ k n, (leBytes k n).length = k
  | 0, _ => rfl
  | k + 1, n => by rw [leBytes, List.length_cons, length_leBytes k]

theorem leVal_leBytes : ∀ k n, leVal (leBytes k n) = n % 256 ^ k
  | 0, n => by simp [leBytes, leVal, Nat.mod_one]
  | k + 1, n => by
    have hb : (UInt8.ofNat n).toNat = n % 256 := by simp
    rw [leBytes, leVal, leVal_leBytes k, hb, pow_succ', Nat.mod_mul]

theorem leVal_lt : ∀ bs : Bytes, leVal bs < 256 ^ bs.length
  | [] => by simp [leVal]
  | b :: bs => by
    have hb := b.toNat_lt
    have := leVal_lt bs
    rw [leVal, List.length_cons, pow_succ']
    omega

theorem leBytes_leVal : ∀ bs : Bytes, leBytes bs.length (leVal bs) = bs
  | [] => rfl
  | b :: bs => by
    have hb := b.toNat_lt
    have hlow : UInt8.ofNat (leVal (b :: bs)) = b := by
      rw [leVal, ← UInt8.toNat_inj, UInt8.toNat_ofNat']
      omega
    have hhigh : leVal (b :: bs) / 256 = leVal bs := by
      rw [leVal]
      omega
    rw [List.length_cons, leBytes, hlow, hhigh, leBytes_leVal bs]

theorem leVal_append : ∀ as bs : Bytes, leVal (as ++ bs) = leVal as + 256 ^ as.length * leVal bs
  | [], bs => by simp [leVal]
  | a :: as, bs => by
    rw [List.cons_append, leVal, leVal, leVal_append as bs, List.length_cons]
    ring

theorem take_leBytes : ∀ k l n, (leBytes (k + l) n).take k = leBytes k n
  | 0, _, _ => rfl
  | k + 1, l, n => by
    rw [Nat.add_right_comm, leBytes, List.take_succ_cons, take_leBytes k l, leBytes]

/-- The four bytes of a 32-bit word. -/
def encodeU32 (u : UInt32) : Bytes := leBytes 4 u.toNat

/-- The word of at most four bytes, missing high bytes being zero. -/
def decodeU32 (bs : Bytes) : UInt32 := UInt32.ofNat (leVal bs)

@[simp] theorem length_encodeU32 (u : UInt32) : (encodeU32 u).length = 4 := length_leBytes 4 _

@[simp] theorem decodeU32_encodeU32 (u : UInt32) : decodeU32 (encodeU32 u) = u := by
  have hu : u.toNat < 2 ^ 32 := u.toNat_lt
  rw [decodeU32, encodeU32, leVal_leBytes, Nat.mod_eq_of_lt (by omega), UInt32.ofNat_toNat]

theorem encodeU32_decodeU32 {bs : Bytes} (h : bs.length = 4) : encodeU32 (decodeU32 bs) = bs := by
  have hlt := leVal_lt bs
  have hback := leBytes_leVal bs
  rw [h] at hlt hback
  rw [encodeU32, decodeU32, UInt32.toNat_ofNat', Nat.mod_eq_of_lt (by omega), hback]

theorem decodeU32_nil : decodeU32 [] = 0 := rfl

/-! ### Lists of words -/

/-- The bytes of a vector of 32-bit words. -/
def encodeWords (xs : List UInt32) : Bytes := xs.flatMap encodeU32

/-- The first `n` words of `bs`, zeros from where `bs` ends. -/
def decodeWords : ℕ → Bytes → List UInt32
  | 0, _ => []
  | n + 1, bs => decodeU32 (bs.take 4) :: decodeWords n (bs.drop 4)

@[simp] theorem length_encodeWords (xs : List UInt32) : (encodeWords xs).length = 4 * xs.length := by
  induction xs with
  | nil => rfl
  | cons x xs ih =>
    rw [encodeWords, List.flatMap_cons, List.length_append, length_encodeU32, List.length_cons]
    rw [encodeWords] at ih
    omega

theorem decodeWords_nil : ∀ n, decodeWords n [] = List.replicate n 0
  | 0 => rfl
  | n + 1 => by
    rw [decodeWords, List.take_nil, List.drop_nil, decodeWords_nil n, List.replicate_succ,
      decodeU32_nil]

/-- Words read back, into a vector longer than what was written. -/
theorem decodeWords_encodeWords : ∀ (xs : List UInt32) (m : ℕ),
    decodeWords (xs.length + m) (encodeWords xs) = xs ++ List.replicate m 0
  | [], m => by
    rw [List.length_nil, Nat.zero_add]
    exact decodeWords_nil m
  | x :: xs, m => by
    have hcons : encodeWords (x :: xs) = encodeU32 x ++ encodeWords xs := List.flatMap_cons
    rw [show (x :: xs).length + m = (xs.length + m) + 1 by rw [List.length_cons]; omega,
      decodeWords, hcons, List.take_left' (length_encodeU32 x), List.drop_left' (length_encodeU32 x),
      decodeU32_encodeU32, decodeWords_encodeWords xs m, List.cons_append]

/-! ### Signed 32-bit numbers -/

/-- The two's complement pattern of a number. -/
def u32OfInt (i : ℤ) : UInt32 := UInt32.ofNat (i % 2 ^ 32).toNat

/-- The number a 32-bit pattern stands for. -/
def int32OfU32 (u : UInt32) : ℤ := if u.toNat < 2 ^ 31 then u.toNat else u.toNat - 2 ^ 32

/-- The numbers an `int` holds. -/
def IsInt32 (i : ℤ) : Prop := -2 ^ 31 ≤ i ∧ i < 2 ^ 31

instance (i : ℤ) : Decidable (IsInt32 i) := inferInstanceAs (Decidable (_ ∧ _))

theorem int32OfU32_u32OfInt {i : ℤ} (h : IsInt32 i) : int32OfU32 (u32OfInt i) = i := by
  obtain ⟨h1, h2⟩ := h
  have hm0 : 0 ≤ i % 2 ^ 32 := Int.emod_nonneg i (by decide)
  have hm1 : i % 2 ^ 32 < 2 ^ 32 := Int.emod_lt_of_pos i (by decide)
  have hval : (u32OfInt i).toNat = (i % 2 ^ 32).toNat := by
    rw [u32OfInt, UInt32.toNat_ofNat', Nat.mod_eq_of_lt (by omega)]
  unfold int32OfU32
  rw [hval]
  split_ifs with h <;> omega

theorem isInt32_int32OfU32 (u : UInt32) : IsInt32 (int32OfU32 u) := by
  have hu : u.toNat < 2 ^ 32 := u.toNat_lt
  unfold IsInt32 int32OfU32
  split_ifs <;> omega

theorem int32OfU32_of_lt {u : UInt32} (h : u.toNat < 2 ^ 31) : int32OfU32 u = u.toNat := by
  unfold int32OfU32
  rw [if_pos h]

theorem int32OfU32_nonneg_iff (u : UInt32) : 0 ≤ int32OfU32 u ↔ u.toNat < 2 ^ 31 := by
  have hu : u.toNat < 2 ^ 32 := u.toNat_lt
  unfold int32OfU32
  split_ifs with h <;> omega

/-! ### The input stream -/

/-- An input stream: the bytes not yet read, and whether no read has come up short. -/
structure IStream where
  rest : Bytes
  good : Bool
deriving DecidableEq, Repr

namespace IStream

/-- A read of `n` bytes: what was there, and the stream after it. -/
def read (n : ℕ) (s : IStream) : Bytes × IStream :=
  if s.good then (s.rest.take n, ⟨s.rest.drop n, decide (n ≤ s.rest.length)⟩) else ([], s)

/-- A read whose size is a signed `streamsize`; a negative size reads nothing and fails. -/
def readSigned (n : ℤ) (s : IStream) : Bytes × IStream :=
  if n < 0 then ([], { s with good := false }) else s.read n.toNat

/-- A word read into a variable that holds zero. -/
def readU32 (s : IStream) : UInt32 × IStream := (decodeU32 (s.read 4).1, (s.read 4).2)

/-- A string read into `n` zero bytes. -/
def readString (n : ℕ) (s : IStream) : Bytes × IStream :=
  let (got, s') := s.read n
  (got ++ List.replicate (n - got.length) 0, s')

end IStream

/-! ### Reading back what was written -/

/-- A read of exactly the bytes in front. -/
theorem read_append (a b : Bytes) : (IStream.mk (a ++ b) true).read a.length = (a, ⟨b, true⟩) := by
  simp [IStream.read]

theorem readU32_append (u : UInt32) (b : Bytes) :
    (IStream.mk (encodeU32 u ++ b) true).readU32 = (u, ⟨b, true⟩) := by
  have h := read_append (encodeU32 u) b
  rw [length_encodeU32] at h
  rw [IStream.readU32, h, decodeU32_encodeU32]

theorem readString_append (a b : Bytes) :
    (IStream.mk (a ++ b) true).readString a.length = (a, ⟨b, true⟩) := by
  rw [IStream.readString, read_append]
  simp

theorem length_readString (n : ℕ) (i : IStream) : (i.readString n).1.length = n := by
  unfold IStream.readString IStream.read
  split_ifs
  · simp
  · simp

/-! ### What a read that got everything says of the file -/

section Whole

variable {n : ℕ} {i : IStream}

theorem eq_of_read_good (h : (i.read n).2.good = true) :
    i = ⟨(i.read n).1 ++ (i.read n).2.rest, true⟩ ∧ (i.read n).1.length = n := by
  obtain ⟨rest, good⟩ := i
  unfold IStream.read at h ⊢
  cases good with
  | false => cases h
  | true =>
    rw [if_pos rfl] at h
    have hle : n ≤ rest.length := by simpa using h
    simp [hle]

theorem eq_of_readU32_good (h : i.readU32.2.good = true) :
    i = ⟨encodeU32 i.readU32.1 ++ i.readU32.2.rest, true⟩ := by
  obtain ⟨heq, hlen⟩ := eq_of_read_good h
  rw [IStream.readU32, encodeU32_decodeU32 hlen]
  exact heq

theorem eq_of_readString_good (h : (i.readString n).2.good = true) :
    i = ⟨(i.readString n).1 ++ (i.readString n).2.rest, true⟩ := by
  obtain ⟨heq, hlen⟩ := eq_of_read_good h
  have hstring : (i.readString n).1 = (i.read n).1 := by
    rw [IStream.readString]
    dsimp only
    rw [hlen, Nat.sub_self, List.replicate_zero, List.append_nil]
  rw [hstring]
  exact heq

end Whole

/-- The stream of the file `f` after `k` bytes of it were asked for. -/
def streamAt (f : Bytes) (k : ℕ) : IStream :=
  if k ≤ f.length then ⟨f.drop k, true⟩ else ⟨[], false⟩

theorem streamAt_zero (f : Bytes) : IStream.mk f true = streamAt f 0 := by
  unfold streamAt
  simp

@[simp] theorem streamAt_good (f : Bytes) (k : ℕ) : (streamAt f k).good = decide (k ≤ f.length) := by
  unfold streamAt
  split_ifs with h <;> simp [h]

/-- **Reading a file.** A read gets the bytes of the file that are there. -/
theorem read_streamAt (f : Bytes) (k n : ℕ) :
    (streamAt f k).read n = ((f.drop k).take n, streamAt f (k + n)) := by
  unfold streamAt IStream.read
  by_cases hk : k ≤ f.length
  · rw [if_pos hk]
    simp only [if_true, List.drop_drop, List.length_drop]
    by_cases hn : k + n ≤ f.length
    · rw [if_pos hn]
      simp only [Prod.mk.injEq, true_and, IStream.mk.injEq, decide_eq_true_eq]
      omega
    · rw [if_neg hn, List.drop_of_length_le (by omega : f.length ≤ k + n)]
      simp only [Prod.mk.injEq, true_and, IStream.mk.injEq, decide_eq_false_iff_not]
      omega
  · have hkn : ¬ k + n ≤ f.length := by omega
    rw [if_neg hk, if_neg hkn, List.drop_of_length_le (by omega : f.length ≤ k)]
    simp

/-- The word at byte `k` of a file, missing bytes being zero. -/
def u32At (f : Bytes) (k : ℕ) : UInt32 := decodeU32 ((f.drop k).take 4)

theorem u32At_append {a : Bytes} {k : ℕ} (h : k + 4 ≤ a.length) (b : Bytes) :
    u32At (a ++ b) k = u32At a k := by
  unfold u32At
  rw [List.drop_append_of_le_length (by omega), List.take_append_of_le_length]
  rw [List.length_drop]
  omega

/-- The `n` bytes at `k` of a file, missing ones being zero. -/
def stringAt (f : Bytes) (k n : ℕ) : Bytes :=
  (f.drop k).take n ++ List.replicate (n - ((f.drop k).take n).length) 0

theorem readU32_streamAt (f : Bytes) (k : ℕ) :
    (streamAt f k).readU32 = (u32At f k, streamAt f (k + 4)) := by
  rw [IStream.readU32, read_streamAt]
  rfl

theorem readString_streamAt (f : Bytes) (k n : ℕ) :
    (streamAt f k).readString n = (stringAt f k n, streamAt f (k + n)) := by
  rw [IStream.readString, read_streamAt]
  rfl

end DenseLite.Lib.ByteStream
