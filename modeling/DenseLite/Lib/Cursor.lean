import DenseLite.Lib.ByteStream

/-! # Reading a mapped file through a cursor

A file that is mapped into memory is read through a cursor, here an offset, which moves without any
check. A `Reader` moves the cursor and returns a value, or stops: at a read of bytes that are not in
the file, at a loop that goes on past the size of the file, at a failed allocation, at a division by
zero. `Has f k bs` says that the bytes `bs` stand at offset `k`; with it, what a reader does on an
encoding follows field by field. -/

namespace DenseLite.Lib.Cursor

open DenseLite.Lib.ByteStream

/-! ### 64-bit words -/

/-- The eight bytes of a 64-bit word. -/
def encodeU64 (u : UInt64) : Bytes := leBytes 8 u.toNat

/-- The 64-bit word of eight bytes. -/
def decodeU64 (bs : Bytes) : UInt64 := UInt64.ofNat (leVal bs)

@[simp] theorem length_encodeU64 (u : UInt64) : (encodeU64 u).length = 8 := length_leBytes 8 _

@[simp] theorem decodeU64_encodeU64 (u : UInt64) : decodeU64 (encodeU64 u) = u := by
  have hu : u.toNat < 2 ^ 64 := u.toNat_lt
  rw [decodeU64, encodeU64, leVal_leBytes, Nat.mod_eq_of_lt (by omega), UInt64.ofNat_toNat]

/-! ### Readers -/

/-- How a reader stops without a result. -/
inductive Stop
  | outside | longLoop | threw | divByZero | fuel
deriving DecidableEq, Repr

/-- A reader takes the offset of the cursor and returns a value and the new offset, or stops. -/
abbrev Reader := StateT ℕ (Except Stop)

section Bind

variable {α β : Type} {x : Reader α} {g : α → Reader β} {k k' : ℕ} {a : α} {e : Stop}

theorem bind_ok (h : x k = .ok (a, k')) : (x >>= g) k = g a k' := by
  show (x k).bind (fun p => g p.1 p.2) = _
  rw [h]
  rfl

theorem bind_error (h : x k = .error e) : (x >>= g) k = .error e := by
  show (x k).bind (fun p => g p.1 p.2) = _
  rw [h]
  rfl

/-- A sequence of two readers has a result when both have. -/
theorem bind_eq_ok {r : β × ℕ} : (x >>= g) k = .ok r ↔ ∃ a k', x k = .ok (a, k') ∧ g a k' = .ok r := by
  cases h : x k with
  | error e => simp [bind_error h]
  | ok p =>
    obtain ⟨a, k'⟩ := p
    simp [bind_ok h]

theorem map_ok (h : x k = .ok (a, k')) (f : α → β) : (f <$> x) k = .ok (f a, k') := by
  show (x k).bind (fun p => .ok (f p.1, p.2)) = _
  rw [h]
  rfl

end Bind

section Primitives

variable (f : Bytes)

/-- A copy of `n` bytes out of the file; a copy of no bytes reads nothing. -/
def read (n : ℕ) : Reader Bytes := fun k =>
  if n = 0 ∨ k + n ≤ f.length then .ok ((f.drop k).take n, k + n) else .error .outside

/-- A 32-bit word. -/
def u32 : Reader UInt32 := decodeU32 <$> read f 4

/-- A 64-bit word. -/
def u64 : Reader UInt64 := decodeU64 <$> read f 8

/-- The cursor moves over `n` bytes that are not read. -/
def skip (n : ℕ) : Reader Unit := fun k => .ok ((), k + n)

/-- A word that is read without moving the cursor. -/
def peekU32 : Reader UInt32 := fun k => (u32 f k).map fun r => (r.1, k)

/-- A loop with `left` rounds to go, in its round `j`; it stops when it has made as many rounds as the
file has bytes and still goes on. -/
def loop {σ : Type} (body : ℕ → σ → Reader σ) : (left j : ℕ) → σ → Reader σ
  | 0, _, s => pure s
  | left + 1, j, s => do
    if f.length ≤ j then throw .longLoop
    let s ← body j s
    loop body left (j + 1) s

end Primitives

/-! ### What stands at an offset -/

/-- The bytes `bs` stand in the file at offset `k`. -/
def Has (f : Bytes) (k : ℕ) (bs : Bytes) : Prop := bs <+: f.drop k

section Has

variable {f : Bytes} {k : ℕ}

theorem has_append {a b : Bytes} : Has f k (a ++ b) ↔ Has f k a ∧ Has f (k + a.length) b := by
  unfold Has
  rw [← List.drop_drop]
  constructor
  · rintro ⟨rest, h⟩
    rw [← h, List.append_assoc, List.drop_left]
    exact ⟨List.prefix_append _ _, List.prefix_append _ _⟩
  · rintro ⟨⟨rest, h⟩, h'⟩
    rw [← h, List.drop_left] at h'
    rw [← h]
    exact List.prefix_append_right_inj a |>.mpr h'

theorem Has.length_le {bs : Bytes} (h : Has f k bs) (hne : bs ≠ []) : k + bs.length ≤ f.length := by
  have hlen := List.IsPrefix.length_le h
  have hpos := List.length_pos_iff.mpr hne
  rw [List.length_drop] at hlen
  omega

theorem Has.read {bs : Bytes} (h : Has f k bs) : Cursor.read f bs.length k = .ok (bs, k + bs.length) := by
  unfold Cursor.read
  by_cases hne : bs = []
  · simp [hne]
  · rw [if_pos (Or.inr (h.length_le hne)), ← List.prefix_iff_eq_take.mp h]

theorem Has.u32 {u : UInt32} (h : Has f k (encodeU32 u)) : Cursor.u32 f k = .ok (u, k + 4) := by
  have hread := h.read
  rw [length_encodeU32] at hread
  rw [Cursor.u32, map_ok hread, decodeU32_encodeU32]

theorem Has.u64 {u : UInt64} (h : Has f k (encodeU64 u)) : Cursor.u64 f k = .ok (u, k + 8) := by
  have hread := h.read
  rw [length_encodeU64] at hread
  rw [Cursor.u64, map_ok hread, decodeU64_encodeU64]

end Has

/-! ### Loops -/

section Loop

variable {f : Bytes} {σ : Type} {body : ℕ → σ → Reader σ}

theorem loop_succ {left j k : ℕ} {s : σ} (hj : j < f.length) :
    loop f body (left + 1) j s k = (body j s >>= fun s => loop f body left (j + 1) s) k := by
  rw [loop, if_neg (by omega)]

theorem loop_long {left j k : ℕ} {s : σ} (hj : f.length ≤ j) :
    loop f body (left + 1) j s k = .error .longLoop := by
  rw [loop, if_pos hj]
  rfl

/-- **A loop over an encoded list.** If every item has at least one byte, and a round that finds the
encoding of an item consumes it and updates the state, the loop consumes the list. -/
theorem loop_list {ι : Type} (enc : ι → Bytes) (upd : ℕ → σ → ι → σ) (hpos : ∀ x, enc x ≠ []) :
    ∀ (xs : List ι) (j k : ℕ) (s : σ),
      (∀ x ∈ xs, ∀ j s k, Has f k (enc x) → body j s k = .ok (upd j s x, k + (enc x).length)) →
      Has f k (xs.flatMap enc) → j ≤ k → loop f body xs.length j s k =
        .ok ((xs.zipIdx j).foldl (fun s p => upd p.2 s p.1) s, k + (xs.flatMap enc).length)
  | [], j, k, s, _, _, _ => rfl
  | x :: xs, j, k, s, hbody, hhas, hjk => by
    rw [List.flatMap_cons, has_append] at hhas
    obtain ⟨hx, hxs⟩ := hhas
    have hlen := hx.length_le (hpos x)
    have hlen' := List.length_pos_iff.mpr (hpos x)
    have hloop := loop_list enc upd hpos xs (j + 1) (k + (enc x).length) (upd j s x)
      (fun y hy => hbody y (by simp [hy])) hxs (by omega)
    rw [List.length_cons, loop_succ (by omega), bind_ok (hbody x (by simp) j s k hx), hloop,
      List.zipIdx_cons, List.foldl_cons, List.flatMap_cons, List.length_append, Nat.add_assoc]

/-- A loop over an encoded list whose rounds do not look at their number. -/
theorem loop_foldl {ι : Type} (enc : ι → Bytes) (upd : σ → ι → σ) (hpos : ∀ x, enc x ≠ [])
    (xs : List ι) (j k : ℕ) (s : σ)
    (hbody : ∀ x ∈ xs, ∀ j s k, Has f k (enc x) → body j s k = .ok (upd s x, k + (enc x).length))
    (h : Has f k (xs.flatMap enc)) (hjk : j ≤ k) :
    loop f body xs.length j s k = .ok (xs.foldl upd s, k + (xs.flatMap enc).length) := by
  have hindex : ∀ (xs : List ι) (j : ℕ) (s : σ),
      (xs.zipIdx j).foldl (fun s p => upd s p.1) s = xs.foldl upd s := by
    intro xs
    induction xs with
    | nil => intro j s; rfl
    | cons x xs ih => intro j s; rw [List.zipIdx_cons, List.foldl_cons, List.foldl_cons, ih]
  rw [loop_list enc (fun _ s x => upd s x) hpos xs j k s hbody h hjk, hindex]

/-- A loop in two parts. -/
theorem loop_add : ∀ (a b j : ℕ) (s : σ) (k : ℕ),
    loop f body (a + b) j s k = (loop f body a j s >>= fun s => loop f body b (j + a) s) k
  | 0, b, j, s, k => by
    rw [Nat.zero_add, Nat.add_zero]
    rfl
  | a + 1, b, j, s, k => by
    rw [Nat.add_right_comm]
    by_cases hj : j < f.length
    · rw [loop_succ hj]
      cases h : body j s k with
      | error e =>
        rw [bind_error h, bind_error]
        rw [loop_succ hj, bind_error h]
      | ok p =>
        obtain ⟨s', k'⟩ := p
        rw [bind_ok h, loop_add a b (j + 1) s' k']
        have hstep : loop f body (a + 1) j s k = loop f body a (j + 1) s' k' := by
          rw [loop_succ hj, bind_ok h]
        rw [show j + (a + 1) = j + 1 + a by omega]
        cases hloop : loop f body a (j + 1) s' k' with
        | error e => rw [bind_error hloop, bind_error (hstep.trans hloop)]
        | ok p => rw [bind_ok hloop, bind_ok (hstep.trans hloop)]
    · rw [loop_long (by omega), bind_error (loop_long (by omega))]

end Loop

/-- A list of items with at least one byte each is no longer than its encoding. -/
theorem length_le_flatMap {ι : Type} {enc : ι → Bytes} (hpos : ∀ x, enc x ≠ []) : ∀ xs : List ι,
    xs.length ≤ (xs.flatMap enc).length
  | [] => Nat.zero_le _
  | x :: xs => by
    have := List.length_pos_iff.mpr (hpos x)
    have := length_le_flatMap hpos xs
    rw [List.flatMap_cons, List.length_append, List.length_cons]
    omega

end DenseLite.Lib.Cursor
