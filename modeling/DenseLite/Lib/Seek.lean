import DenseLite.Lib.Cursor

/-! # Streams that can seek

A file stream with its position. A read that gets fewer bytes than asked for fails the stream, and a
failed stream reads nothing and does not seek; a seek past the end of the file does not fail. A reader
moves the stream and returns a value, or nothing when a recursion has gone deeper than the depth it was
given. -/

namespace DenseLite.Lib.Seek

open DenseLite.Lib.ByteStream DenseLite.Lib.Cursor

/-- The position of a stream, and whether it has not failed. -/
structure FileStream where
  pos : ℕ
  good : Bool := true
deriving DecidableEq, Repr

/-- A reader of a stream. -/
abbrev StreamReader := StateT FileStream Option

section Primitives

variable (f : Bytes)

/-- `file.read` of `n` bytes: what was there. -/
def readBytes (n : ℕ) : StreamReader Bytes := fun s =>
  if s.good then
    let got := (f.drop s.pos).take n
    some (got, ⟨s.pos + got.length, got.length = n⟩)
  else some ([], s)

/-- A 32-bit number read into a variable that holds zero. -/
def readU32 : StreamReader UInt32 := decodeU32 <$> readBytes f 4

/-- A 64-bit number read into a variable that holds zero. -/
def readU64 : StreamReader UInt64 := decodeU64 <$> readBytes f 8

/-- `file.seekg(n, std::ios::cur)`. -/
def seek (n : ℕ) : StreamReader Unit := fun s =>
  some ((), if s.good then { s with pos := s.pos + n } else s)

/-- A loop of up to `left` rounds that goes on while the stream is good. -/
def whileGood {σ : Type} (body : σ → StreamReader σ) : (left : ℕ) → σ → StreamReader σ
  | 0, a => pure a
  | left + 1, a => fun s => if s.good then (body a >>= whileGood body left) s else some (a, s)

/-- A loop of `n` rounds. -/
def rounds {σ : Type} (body : σ → StreamReader σ) : (n : ℕ) → σ → StreamReader σ
  | 0, a => pure a
  | n + 1, a => body a >>= rounds body n

end Primitives

/-! ### Reading what is there -/

section Has

variable {f : Bytes} {k : ℕ} {α β : Type} {x : StreamReader α} {g : α → StreamReader β}

theorem bind_some {a : α} {s s' : FileStream} (h : x s = some (a, s')) : (x >>= g) s = g a s' := by
  show (x s).bind (fun p => g p.1 p.2) = _
  rw [h]
  rfl

theorem map_some {a : α} {s s' : FileStream} (h : x s = some (a, s')) (φ : α → β) :
    (φ <$> x) s = some (φ a, s') := by
  show (x s).bind (fun p => some (φ p.1, p.2)) = _
  rw [h]
  rfl

theorem bind_eq_some {r : β × FileStream} {s : FileStream} :
    (x >>= g) s = some r ↔ ∃ a s', x s = some (a, s') ∧ g a s' = some r := by
  show (x s).bind (fun p => g p.1 p.2) = some r ↔ _
  rw [Option.bind_eq_some_iff]
  constructor
  · rintro ⟨⟨a, s'⟩, h1, h2⟩
    exact ⟨a, s', h1, h2⟩
  · rintro ⟨a, s', h1, h2⟩
    exact ⟨(a, s'), h1, h2⟩

theorem readBytes_has {bs : Bytes} (h : Has f k bs) :
    readBytes f bs.length ⟨k, true⟩ = some (bs, ⟨k + bs.length, true⟩) := by
  rw [readBytes, if_pos rfl]
  dsimp only
  rw [← List.prefix_iff_eq_take.mp h]
  simp

theorem readU32_has {u : UInt32} (h : Has f k (encodeU32 u)) :
    readU32 f ⟨k, true⟩ = some (u, ⟨k + 4, true⟩) := by
  have hread := readBytes_has h
  rw [length_encodeU32] at hread
  rw [readU32, map_some hread, decodeU32_encodeU32]

theorem readU64_has {u : UInt64} (h : Has f k (encodeU64 u)) :
    readU64 f ⟨k, true⟩ = some (u, ⟨k + 8, true⟩) := by
  have hread := readBytes_has h
  rw [length_encodeU64] at hread
  rw [readU64, map_some hread, decodeU64_encodeU64]

/-- **A loop over an encoded list.** If a round that finds the encoding of an item consumes it and
updates the state, a loop that goes on as long as the stream is good consumes the list. -/
theorem run_list {σ ι : Type} {body : σ → StreamReader σ} {run : ℕ → σ → StreamReader σ}
    (hzero : ∀ a k, run 0 a ⟨k, true⟩ = some (a, ⟨k, true⟩))
    (hsucc : ∀ left a k, run (left + 1) a ⟨k, true⟩ = (body a >>= run left) ⟨k, true⟩)
    (enc : ι → Bytes) (upd : σ → ι → σ) : ∀ (xs : List ι) (k : ℕ) (a : σ),
      (∀ x ∈ xs, ∀ a k, Has f k (enc x) →
        body a ⟨k, true⟩ = some (upd a x, ⟨k + (enc x).length, true⟩)) →
      Has f k (xs.flatMap enc) → run xs.length a ⟨k, true⟩ =
        some (xs.foldl upd a, ⟨k + (xs.flatMap enc).length, true⟩)
  | [], k, a, _, _ => hzero a k
  | x :: xs, k, a, hbody, h => by
    rw [List.flatMap_cons, has_append] at h
    have hrest := run_list hzero hsucc enc upd xs (k + (enc x).length) (upd a x)
      (fun y hy => hbody y (by simp [hy])) h.2
    rw [List.length_cons, hsucc, bind_some (hbody x (by simp) a k h.1), hrest, List.foldl_cons,
      List.flatMap_cons, List.length_append, Nat.add_assoc]

/-- A loop that stops when the stream is not good. -/
theorem whileGood_list {σ ι : Type} {body : σ → StreamReader σ} (enc : ι → Bytes) (upd : σ → ι → σ)
    (xs : List ι) (k : ℕ) (a : σ)
    (hbody : ∀ x ∈ xs, ∀ a k, Has f k (enc x) →
      body a ⟨k, true⟩ = some (upd a x, ⟨k + (enc x).length, true⟩))
    (h : Has f k (xs.flatMap enc)) : whileGood body xs.length a ⟨k, true⟩ =
      some (xs.foldl upd a, ⟨k + (xs.flatMap enc).length, true⟩) :=
  run_list (fun _ _ => rfl) (fun _ _ _ => rfl) enc upd xs k a hbody h

/-- A loop that does not look at the stream. -/
theorem rounds_list {σ ι : Type} {body : σ → StreamReader σ} (enc : ι → Bytes) (upd : σ → ι → σ)
    (xs : List ι) (k : ℕ) (a : σ)
    (hbody : ∀ x ∈ xs, ∀ a k, Has f k (enc x) →
      body a ⟨k, true⟩ = some (upd a x, ⟨k + (enc x).length, true⟩))
    (h : Has f k (xs.flatMap enc)) : rounds body xs.length a ⟨k, true⟩ =
      some (xs.foldl upd a, ⟨k + (xs.flatMap enc).length, true⟩) :=
  run_list (fun _ _ => rfl) (fun _ _ _ => rfl) enc upd xs k a hbody h

end Has

/-- What every round of a loop keeps, the loop keeps, wherever the stream stands. -/
theorem whileGood_keeps {σ : Type} {body : σ → StreamReader σ} {P : σ → Prop}
    (hbody : ∀ a s r, P a → body a s = some r → P r.1) : ∀ (left : ℕ) (a : σ) (s : FileStream)
      (r : σ × FileStream), P a → whileGood body left a s = some r → P r.1
  | 0, a, s, r, ha, h => by
    cases h
    exact ha
  | left + 1, a, s, r, ha, h => by
    rw [whileGood] at h
    dsimp only at h
    split_ifs at h with hgood
    · obtain ⟨a', s', hstep, hrest⟩ := bind_eq_some.mp h
      exact whileGood_keeps hbody left a' s' r (hbody a s (a', s') ha hstep) hrest
    · cases h
      exact ha

end DenseLite.Lib.Seek
