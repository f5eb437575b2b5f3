import Mathlib.Data.List.Basic
import Mathlib.Logic.Function.Basic
import Mathlib.Tactic.Common

/-! # Entries with defaults

A store maps keys to values. It is written to entry by entry, entries are taken out of it, and now and then it is
filled: each key that has no value then gets its default, if it has one. What is found under a key is decided by the
last event that does not spare it (`value_iff`), whatever happens to other keys. -/

namespace DenseLite.Lib.Defaults

variable {κ ν : Type*}

/-! ### Events -/

/-- What happens to a store; `remove` takes out the entries of all keys of a kind. -/
inductive Event (κ ν : Type*)
  | write (k : κ) (v : ν)
  | remove (p : κ → Bool)
  | fill

/-- The event takes no value from the key. -/
def Event.Spares (k : κ) : Event κ ν → Prop
  | .write k' _ => k' ≠ k
  | .remove p => p k = false
  | .fill => True

/-- The event takes out the entry of the key. -/
def Event.Removes (k : κ) : Event κ ν → Prop
  | .remove p => p k = true
  | _ => False

variable {k : κ} {v : ν} {e : Event κ ν} {es : List (Event κ ν)}

/-- An event spares a key, or writes it, or removes it. -/
theorem spares_cases (k : κ) : ∀ e : Event κ ν, e.Spares k ∨ (∃ v, e = .write k v) ∨ e.Removes k
  | .write k' v => by
    by_cases hk : k' = k
    · exact .inr (.inl ⟨v, by rw [hk]⟩)
    · exact .inl hk
  | .remove p => by
    cases hp : p k
    · exact .inl hp
    · exact .inr (.inr hp)
  | .fill => .inl trivial

theorem not_spares_write : ¬ (Event.write k v).Spares k := fun h => h rfl

theorem Event.Removes.not_spares (h : e.Removes k) : ¬ e.Spares k := by
  cases e with
  | remove p =>
    intro hs
    exact absurd (hs.symm.trans h) (by simp)
  | write | fill => exact h.elim

/-- The events from the last one on that does not spare the key. -/
theorem exists_last (k : κ) (es : List (Event κ ν)) :
    (∀ e ∈ es, e.Spares k) ∨
      ∃ before e after, es = before ++ e :: after ∧ ¬ e.Spares k ∧ ∀ e ∈ after, e.Spares k := by
  induction es with
  | nil => exact .inl (by simp)
  | cons e es ih =>
    obtain hall | ⟨before, e', after, rfl, hnot, hafter⟩ := ih
    · by_cases he : e.Spares k
      · exact .inl (List.forall_mem_cons.mpr ⟨he, hall⟩)
      · exact .inr ⟨[], e, es, rfl, he, hall⟩
    · exact .inr ⟨e :: before, e', after, rfl, hnot, hafter⟩

/-- There is only one such event. -/
theorem last_unique {e' : Event κ ν} {before before' after after' : List (Event κ ν)}
    (h : before ++ e :: after = before' ++ e' :: after') (he : ¬ e.Spares k) (he' : ¬ e'.Spares k)
    (hafter : ∀ e ∈ after, e.Spares k) (hafter' : ∀ e ∈ after', e.Spares k) :
    e = e' ∧ after = after' := by
  obtain ⟨c, rfl, hc⟩ | ⟨c, rfl, hc⟩ := List.append_eq_append_iff.mp h
  · cases c with
    | nil => exact List.cons.inj hc
    | cons x c =>
      obtain ⟨rfl, rfl⟩ := List.cons.inj hc
      exact absurd (hafter e' (by simp)) he'
  · cases c with
    | nil =>
      obtain ⟨h, h'⟩ := List.cons.inj hc
      exact ⟨h.symm, h'.symm⟩
    | cons x c =>
      obtain ⟨rfl, rfl⟩ := List.cons.inj hc
      exact absurd (hafter' e (by simp)) he

/-! ### The store -/

variable [DecidableEq κ]

/-- One event; `d` are the defaults. -/
def apply (d s : κ → Option ν) : Event κ ν → κ → Option ν
  | .write k v => Function.update s k (some v)
  | .remove p => fun k => if p k then none else s k
  | .fill => fun k => (s k).or (d k)

variable {d s : κ → Option ν}

theorem apply_write : apply d s (.write k v) k = some v := Function.update_self ..

theorem apply_of_removes (h : e.Removes k) : apply d s e k = none := by
  cases e with
  | remove p => exact if_pos h
  | write | fill => exact h.elim

theorem apply_of_spares (h : e.Spares k) (hfill : e ≠ .fill) : apply d s e k = s k := by
  cases e with
  | write k' v => exact Function.update_of_ne (Ne.symm h) ..
  | remove p =>
    change (if p k then none else s k) = s k
    rw [show p k = false from h]
    simp
  | fill => exact absurd rfl hfill

/-- A key that all events spare keeps its value, and has its default after the first filling if it had none. -/
theorem foldl_of_spares (h : ∀ e ∈ es, e.Spares k) :
    es.foldl (apply d) s k = some v ↔ s k = some v ∨ s k = none ∧ .fill ∈ es ∧ d k = some v := by
  induction es generalizing s with
  | nil => simp
  | cons e es ih =>
    obtain ⟨he, hes⟩ := List.forall_mem_cons.mp h
    rw [List.foldl_cons, ih hes]
    by_cases hfill : e = .fill
    · subst hfill
      change (s k).or (d k) = some v ∨ (s k).or (d k) = none ∧ _ ↔ _
      cases hs : s k with
      | none =>
        have hmem : Event.fill ∈ (Event.fill : Event κ ν) :: es := List.mem_cons_self
        simp only [Option.none_or, hmem, true_and]
        constructor
        · rintro (hd | ⟨-, -, hd⟩) <;> exact .inr hd
        · rintro (h | hd)
          · simp at h
          · exact .inl hd
      | some w => simp
    · rw [apply_of_spares he hfill]
      have hmem : Event.fill ∈ e :: es ↔ Event.fill ∈ es := by
        rw [List.mem_cons, or_iff_right fun h => hfill h.symm]
      rw [hmem]

/-- **The value of a key** is the one that was written last; or its default, if the store was filled after the entry
was removed last; or the one from the beginning. -/
theorem value_iff : es.foldl (apply d) s k = some v ↔
    (∃ before after, es = before ++ .write k v :: after ∧ ∀ e ∈ after, e.Spares k) ∨
    (∃ before e after, es = before ++ e :: after ∧ e.Removes k ∧ (∀ e ∈ after, e.Spares k) ∧
      .fill ∈ after ∧ d k = some v) ∨
    (∀ e ∈ es, e.Spares k) ∧ (s k = some v ∨ s k = none ∧ .fill ∈ es ∧ d k = some v) := by
  obtain hall | ⟨before, e, after, rfl, hnot, hafter⟩ := exists_last k es
  · rw [foldl_of_spares hall]
    constructor
    · exact fun h => .inr (.inr ⟨hall, h⟩)
    · rintro (⟨before, after, rfl, -⟩ | ⟨before, e, after, rfl, he, -⟩ | ⟨-, h⟩)
      · exact absurd (hall (.write k v) (by simp)) not_spares_write
      · exact absurd (hall e (by simp)) he.not_spares
      · exact h
  · rw [List.foldl_append, List.foldl_cons, foldl_of_spares hafter]
    obtain he | ⟨w, rfl⟩ | he := spares_cases k e
    · exact absurd he hnot
    · rw [apply_write]
      constructor
      · rintro (h | ⟨h, -⟩)
        · obtain rfl := Option.some.inj h
          exact .inl ⟨before, after, rfl, hafter⟩
        · simp at h
      · rintro (⟨b, a, heq, ha⟩ | ⟨b, e, a, heq, he, ha, -⟩ | ⟨hall, -⟩)
        · obtain ⟨hw, -⟩ := last_unique heq not_spares_write not_spares_write hafter ha
          exact .inl (congrArg some (Event.write.inj hw).2)
        · obtain ⟨rfl, -⟩ := last_unique heq not_spares_write he.not_spares hafter ha
          exact he.elim
        · exact absurd (hall (.write k w) (by simp)) not_spares_write
    · rw [apply_of_removes he]
      constructor
      · rintro (h | ⟨-, hfill, hd⟩)
        · simp at h
        · exact .inr (.inl ⟨before, e, after, rfl, he, hafter, hfill, hd⟩)
      · rintro (⟨b, a, heq, ha⟩ | ⟨b, e', a, heq, he', ha, hfill, hd⟩ | ⟨hall, -⟩)
        · obtain ⟨rfl, -⟩ := last_unique heq he.not_spares not_spares_write hafter ha
          exact he.elim
        · obtain ⟨-, rfl⟩ := last_unique heq he.not_spares he'.not_spares hafter ha
          exact .inr ⟨rfl, hfill, hd⟩
        · exact absurd (hall e (by simp)) he.not_spares

/-! ### Runs of a program -/

section Trace

variable {σ α ε : Type*} (step : σ → α → σ) (emit : σ → α → Option ε)

/-- The events of a run: a step is one event, or none. -/
def trace : σ → List α → List ε
  | _, [] => []
  | s, a :: as => (emit s a).toList ++ trace (step s a) as

variable {step emit} {s : σ} {as bs : List α} {x : ε} {xs ys : List ε}

theorem trace_append : trace step emit s (as ++ bs) = trace step emit s as ++ trace step emit (as.foldl step s) bs := by
  induction as generalizing s with
  | nil => rfl
  | cons a as ih => simp [trace, ih]

/-- An event of a run, and the step that it is. -/
theorem trace_eq_append_cons : trace step emit s as = xs ++ x :: ys ↔
    ∃ before a after, as = before ++ a :: after ∧ trace step emit s before = xs ∧
      emit (before.foldl step s) a = some x ∧ trace step emit (step (before.foldl step s) a) after = ys := by
  constructor
  · intro h
    induction as generalizing s xs with
    | nil => simp [trace] at h
    | cons a as ih =>
      rw [trace] at h
      cases hemit : emit s a with
      | none =>
        rw [hemit] at h
        obtain ⟨before, a', after, rfl, hxs, ha, hys⟩ := ih h
        exact ⟨a :: before, a', after, rfl, by simpa [trace, hemit] using hxs, ha, hys⟩
      | some e =>
        rw [hemit] at h
        cases xs with
        | nil =>
          obtain ⟨rfl, rfl⟩ := List.cons.inj h
          exact ⟨[], a, as, rfl, rfl, hemit, rfl⟩
        | cons y xs =>
          obtain ⟨rfl, htail⟩ := List.cons.inj h
          obtain ⟨before, a', after, rfl, hxs, ha, hys⟩ := ih htail
          exact ⟨a :: before, a', after, rfl, by simp [trace, hemit, hxs], ha, hys⟩
  · rintro ⟨before, a, after, rfl, rfl, ha, rfl⟩
    rw [trace_append, trace, ha]
    rfl

theorem mem_trace : x ∈ trace step emit s as ↔
    ∃ before a after, as = before ++ a :: after ∧ emit (before.foldl step s) a = some x := by
  rw [List.mem_iff_append]
  simp only [trace_eq_append_cons]
  constructor
  · rintro ⟨-, -, before, a, after, has, -, ha, -⟩
    exact ⟨before, a, after, has, ha⟩
  · rintro ⟨before, a, after, has, ha⟩
    exact ⟨_, _, before, a, after, has, rfl, ha, rfl⟩

/-- **A program whose steps are events of a store** leads to the store after the events of its run. -/
theorem foldl_trace {emit : σ → α → Option (Event κ ν)} {view : σ → κ → Option ν} {d : κ → Option ν}
    (h : ∀ s a, view (step s a) = (emit s a).toList.foldl (apply d) (view s)) :
    view (as.foldl step s) = (trace step emit s as).foldl (apply d) (view s) := by
  induction as generalizing s with
  | nil => rfl
  | cons a as ih => rw [List.foldl_cons, ih, h, trace, List.foldl_append]

end Trace

end DenseLite.Lib.Defaults
