import Mathlib.Data.List.Range
import DenseLite.Lib.Cursor

/-! # Where a reader ends

Two tools for readers that check nothing. `Unless x y`: the reader `x` is stopped by a failed
allocation or does what `y` does; so that it is enough to look at an allocator that never fails. And for
such readers, an exact account of success: a primitive succeeds when its bytes are in the file, a
sequence when both parts do (`bind_eq_ok`), a loop when its rounds follow on one another and are no more
than the file has bytes (`chain_of_loop`, `loop_of_chain`). -/

namespace DenseLite.Lib.Extent

open DenseLite.Lib.ByteStream DenseLite.Lib.Cursor

/-! ### Up to failed allocations -/

/-- The reader `x` is stopped by a failed allocation, or does what `y` does. -/
def Unless {α : Type} (x y : Reader α) : Prop := ∀ k, x k = .error .threw ∨ x k = y k

section Unless

variable {α β σ : Type}

theorem Unless.refl (x : Reader α) : Unless x x := fun _ => Or.inr rfl

theorem Unless.bind {x y : Reader α} {g h : α → Reader β} (hxy : Unless x y) (hgh : ∀ a, Unless (g a) (h a)) :
    Unless (x >>= g) (y >>= h) := by
  intro k
  rcases hxy k with hx | hx
  · exact Or.inl (bind_error hx)
  · cases hy : y k with
    | error e => exact Or.inr (by rw [bind_error (hx.trans hy), bind_error hy])
    | ok p =>
      obtain ⟨a, k'⟩ := p
      rw [bind_ok (hx.trans hy), bind_ok hy]
      exact hgh a k'

theorem Unless.map {x y : Reader α} (φ : α → β) (h : Unless x y) : Unless (φ <$> x) (φ <$> y) := by
  intro k
  rcases h k with hx | hx
  · refine Or.inl ?_
    show (x k).bind (fun p => .ok (φ p.1, p.2)) = _
    rw [hx]
    rfl
  · refine Or.inr ?_
    show (x k).bind (fun p => .ok (φ p.1, p.2)) = (y k).bind (fun p => .ok (φ p.1, p.2))
    rw [hx]

theorem Unless.loop {f : Bytes} {b c : ℕ → σ → Reader σ} (h : ∀ j s, Unless (b j s) (c j s)) :
    ∀ (left j : ℕ) (s : σ), Unless (loop f b left j s) (loop f c left j s)
  | 0, _, s => Unless.refl (pure s)
  | left + 1, j, s => by
    intro k
    by_cases hj : j < f.length
    · rw [loop_succ hj, loop_succ hj]
      exact (h j s).bind (fun s => Unless.loop h left (j + 1) s) k
    · rw [loop_long (by omega), loop_long (by omega)]
      exact Or.inr rfl

end Unless

/-! ### Primitives -/

/-- The 64-bit word at byte `k` of a file. -/
def u64At (f : Bytes) (k : ℕ) : UInt64 := decodeU64 ((f.drop k).take 8)

section Primitives

variable {f : Bytes} {k k' : ℕ}

theorem pure_eq_ok {α : Type} {a a' : α} : (pure a : Reader α) k = .ok (a', k') ↔ a' = a ∧ k' = k := by
  show Except.ok (a, k) = Except.ok (a', k') ↔ _
  rw [Except.ok.injEq, Prod.mk.injEq, eq_comm, @eq_comm _ k]

theorem read_eq_ok {n : ℕ} {bs : Bytes} : read f n k = .ok (bs, k') ↔
    (n = 0 ∨ k + n ≤ f.length) ∧ bs = (f.drop k).take n ∧ k' = k + n := by
  unfold DenseLite.Lib.Cursor.read
  split_ifs with h
  · rw [Except.ok.injEq, Prod.mk.injEq, eq_comm, @eq_comm _ (k + n)]
    exact ⟨fun heq => ⟨h, heq⟩, fun heq => heq.2⟩
  · simp [h]

theorem map_eq_ok {α β : Type} {x : Reader α} {φ : α → β} {b : β} :
    (φ <$> x) k = .ok (b, k') ↔ ∃ a, x k = .ok (a, k') ∧ b = φ a := by
  show (x k).bind (fun p => .ok (φ p.1, p.2)) = _ ↔ _
  cases hx : x k with
  | error e => simp [Except.bind]
  | ok p =>
    obtain ⟨a, k₁⟩ := p
    simp only [Except.bind, Except.ok.injEq, Prod.mk.injEq]
    constructor
    · rintro ⟨rfl, rfl⟩
      exact ⟨a, ⟨rfl, rfl⟩, rfl⟩
    · rintro ⟨a', ⟨rfl, rfl⟩, rfl⟩
      exact ⟨rfl, rfl⟩

/-- A number of some bytes. -/
theorem map_read_eq_ok {β : Type} {φ : Bytes → β} {n : ℕ} {b : β} (hn : 0 < n) :
    (φ <$> read f n) k = .ok (b, k') ↔
      k + n ≤ f.length ∧ b = φ ((f.drop k).take n) ∧ k' = k + n := by
  rw [map_eq_ok]
  constructor
  · rintro ⟨bs, hread, rfl⟩
    obtain ⟨hlen, rfl, rfl⟩ := read_eq_ok.mp hread
    exact ⟨by omega, rfl, rfl⟩
  · rintro ⟨hlen, rfl, rfl⟩
    exact ⟨_, read_eq_ok.mpr ⟨Or.inr hlen, rfl, rfl⟩, rfl⟩

theorem u32_eq_ok {u : UInt32} :
    u32 f k = .ok (u, k') ↔ k + 4 ≤ f.length ∧ u = u32At f k ∧ k' = k + 4 :=
  map_read_eq_ok (by decide)

theorem u64_eq_ok {u : UInt64} :
    u64 f k = .ok (u, k') ↔ k + 8 ≤ f.length ∧ u = u64At f k ∧ k' = k + 8 :=
  map_read_eq_ok (by decide)

theorem peekU32_eq_ok {u : UInt32} :
    peekU32 f k = .ok (u, k') ↔ k + 4 ≤ f.length ∧ u = u32At f k ∧ k' = k := by
  unfold peekU32
  cases hread : u32 f k with
  | error e =>
    have hshort : ¬ k + 4 ≤ f.length := fun hlen => by
      rw [u32_eq_ok.mpr ⟨hlen, rfl, rfl⟩] at hread
      exact absurd hread (by simp)
    simp [Except.map, hshort]
  | ok p =>
    obtain ⟨u', k₁⟩ := p
    obtain ⟨hlen, rfl, rfl⟩ := u32_eq_ok.mp hread
    simp only [Except.map, Except.ok.injEq, Prod.mk.injEq]
    constructor
    · rintro ⟨rfl, rfl⟩
      exact ⟨hlen, rfl, rfl⟩
    · rintro ⟨-, rfl, rfl⟩
      exact ⟨rfl, rfl⟩

end Primitives

/-! ### Loops -/

/-- Rounds that follow on one another: from `at 0 = k` to `at n = k'`, each from one offset to the
next. -/
structure Chain (R : ℕ → ℕ → Prop) (n : ℕ) (ends : ℕ → ℕ) (k k' : ℕ) : Prop where
  first : ends 0 = k
  last : ends n = k'
  step : ∀ i < n, R (ends i) (ends (i + 1))

/-- What the rounds of a chain make of a value, one after the other. -/
def along {τ : Type} (step : ℕ → τ → τ) (n : ℕ) (ends : ℕ → ℕ) (v : τ) : τ :=
  (List.range n).foldl (fun v i => step (ends i) v) v

section Loop

variable {f : Bytes} {σ τ : Type} {b : ℕ → σ → Reader σ} {R : ℕ → ℕ → Prop}

/-- Rounds that never go back end no earlier than they begin. -/
theorem Chain.le {n k k' : ℕ} {ends : ℕ → ℕ} (h : Chain (· ≤ ·) n ends k k') : ∀ i ≤ n, k ≤ ends i
  | 0, _ => h.first.ge
  | i + 1, hi => (Chain.le h i (by omega)).trans (h.step i (by omega))

theorem along_succ (step : ℕ → τ → τ) (n : ℕ) (ends : ℕ → ℕ) (v : τ) :
    along step (n + 1) ends v = along step n (fun i => ends (i + 1)) (step (ends 0) v) := by
  rw [along, List.range_succ_eq_map, List.foldl_cons, List.foldl_map]
  rfl

/-- **The rounds of a loop** that succeeds follow on one another and are no more than the file has
bytes; what they do to a part of the state is done along the chain. -/
theorem chain_of_loop (view : σ → τ) (step : ℕ → τ → τ)
    (hround : ∀ j s k s' k', b j s k = .ok (s', k') → R k k' ∧ view s' = step k (view s)) :
    ∀ (left j : ℕ) (s : σ) (k : ℕ) (s' : σ) (k' : ℕ), loop f b left j s k = .ok (s', k') →
      (left = 0 ∨ j + left ≤ f.length) ∧
        ∃ ends, Chain R left ends k k' ∧ view s' = along step left ends (view s)
  | 0, j, s, k, s', k', hloop => by
    obtain ⟨rfl, rfl⟩ := pure_eq_ok.mp hloop
    exact ⟨Or.inl rfl, fun _ => k', ⟨rfl, rfl, fun i hi => absurd hi (Nat.not_lt_zero i)⟩, rfl⟩
  | left + 1, j, s, k, s', k', hloop => by
    by_cases hj : j < f.length
    · rw [loop_succ hj] at hloop
      obtain ⟨s₁, k₁, hfirst, hrest⟩ := bind_eq_ok.mp hloop
      obtain ⟨hlen, ends, hchain, hv⟩ := chain_of_loop view step hround left (j + 1) s₁ k₁ s' k' hrest
      obtain ⟨hR, hview⟩ := hround j s k s₁ k₁ hfirst
      refine ⟨Or.inr (by omega), fun i => i.casesOn k ends, ⟨rfl, hchain.last, ?_⟩, ?_⟩
      · intro i hi
        cases i with
        | zero =>
          rw [← hchain.first] at hR
          exact hR
        | succ i => exact hchain.step i (by omega)
      · rw [hv, along_succ, hview]
        rfl
    · rw [loop_long (by omega)] at hloop
      exact absurd hloop (by simp)

/-- **A loop succeeds** if its rounds follow on one another and are no more than the file has bytes. -/
theorem loop_of_chain (view : σ → τ) (step : ℕ → τ → τ) : ∀ (left j : ℕ) (s : σ) (ends : ℕ → ℕ),
    left = 0 ∨ j + left ≤ f.length →
    (∀ i < left, ∀ j s, ∃ s', b j s (ends i) = .ok (s', ends (i + 1)) ∧ view s' = step (ends i) (view s)) →
    ∃ s', loop f b left j s (ends 0) = .ok (s', ends left) ∧ view s' = along step left ends (view s)
  | 0, j, s, ends, _, _ => ⟨s, rfl, rfl⟩
  | left + 1, j, s, ends, hlen, hround => by
    obtain ⟨s₁, hs₁, hview⟩ := hround 0 (Nat.succ_pos left) j s
    obtain ⟨s', hs', hv⟩ := loop_of_chain view step left (j + 1) s₁ (fun i => ends (i + 1)) (by omega)
      fun i hi => hround (i + 1) (by omega)
    refine ⟨s', ?_, ?_⟩
    · rw [loop_succ (by omega), bind_ok hs₁]
      exact hs'
    · rw [hv, along_succ, hview]

end Loop

end DenseLite.Lib.Extent
