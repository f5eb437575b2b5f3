import Mathlib.Data.List.Basic
import Mathlib.Tactic.Common

/-! # Threads and locks that are not recursive

What a thread does, as a function of the locks it holds and of the state it shares. A thread that wants a
lock it holds itself waits for ever: it has no result. `withLock` is a lock guard, which holds its lock to
the end of a block. -/

namespace DenseLite.Lib.Mutex

/-- A thread with locks `κ` on a state `σ`; no result means that it waits for a lock it holds. -/
abbrev Thread (κ σ : Type) := ReaderT (List κ) (StateT σ Option)

variable {κ σ α β : Type}

/-- The result of a thread that holds the locks `held`. -/
def run (p : Thread κ σ α) (held : List κ) (s : σ) : Option (α × σ) := (p held) s

/-- A lock guard on `l` over the block `p`. -/
def withLock [DecidableEq κ] (l : κ) (p : Thread κ σ α) : Thread κ σ α :=
  fun held => if l ∈ held then fun _ => none else p (l :: held)

/-- A block that reads and writes the state and takes no lock. -/
def act (f : σ → α × σ) : Thread κ σ α := fun _ s => some (f s)

section Rules

variable {held : List κ} {s : σ}

@[simp] theorem run_pure (a : α) : run (pure a : Thread κ σ α) held s = some (a, s) := rfl

@[simp] theorem run_act (f : σ → α × σ) : run (act f : Thread κ σ α) held s = some (f s) := rfl

@[simp] theorem run_bind (p : Thread κ σ α) (f : α → Thread κ σ β) :
    run (p >>= f) held s = (run p held s).bind fun r => run (f r.1) held r.2 := rfl

theorem run_ite (c : Prop) [Decidable c] (p q : Thread κ σ α) :
    run (if c then p else q) held s = if c then run p held s else run q held s := by
  split_ifs <;> rfl

/-- A loop whose rounds either wait or leave the state as it is: it waits if one of them does. -/
theorem run_forM_of_still {f : α → Thread κ σ PUnit} (waits : α → Prop) [DecidablePred waits] :
    ∀ as : List α, (∀ a ∈ as, run (f a) held s = if waits a then none else some ((), s)) →
      run (forM as f) held s = if ∃ a ∈ as, waits a then none else some ((), s)
  | [], _ => by simp
  | a :: as, h => by
    have hrest := run_forM_of_still waits as fun b hb => h b (List.mem_cons_of_mem a hb)
    rw [List.forM_cons, run_bind, h a List.mem_cons_self]
    by_cases ha : waits a
    · simp [ha]
    · simp [ha, hrest]

variable [DecidableEq κ] {l : κ}

/-- The lock is held: no result. -/
theorem run_withLock_of_mem (h : l ∈ held) (p : Thread κ σ α) : run (withLock l p) held s = none := by
  unfold run withLock
  rw [if_pos h]

/-- The lock is free: the block runs with it. -/
theorem run_withLock_of_not_mem (h : l ∉ held) (p : Thread κ σ α) :
    run (withLock l p) held s = run p (l :: held) s := by
  unfold run withLock
  rw [if_neg h]

end Rules

end DenseLite.Lib.Mutex
