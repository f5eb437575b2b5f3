import Mathlib.Logic.Function.Basic
import Mathlib.Tactic.Common

/-! # Connections and transactions

Databases of one table each, and connections to them. A connection that has begun a transaction sees its own rows
(`Databases.view`); they are those of the database once it commits. A statement may fail, and a failure may take the
transaction with it, as it does in SQLite when the disk is full or cannot be read. -/

namespace DenseLite.Lib.Transaction

/-- How a statement ends: a failure leaves the transaction of the connection open or rolls it back. -/
inductive Outcome
  | done | failed | rolledBack
deriving DecidableEq

/-- The rows of each database, and of each connection the rows in its transaction. -/
structure Databases (δ γ ρ : Type*) where
  committed : δ → List ρ
  pending : γ → Option (List ρ)

namespace Databases

variable {δ γ ρ : Type*} [DecidableEq δ] [DecidableEq γ] (file : γ → δ)

/-- The rows that a connection sees. -/
def view (dbs : Databases δ γ ρ) (c : γ) : List ρ := (dbs.pending c).getD (dbs.committed (file c))

/-- The connection ends its transaction without a commit. -/
def rollback (dbs : Databases δ γ ρ) (c : γ) : Databases δ γ ρ :=
  { dbs with pending := Function.update dbs.pending c none }

/-- A statement that changes rows. -/
def execute (change : List ρ → List ρ) (c : γ) (outcome : Outcome) (dbs : Databases δ γ ρ) : Databases δ γ ρ :=
  match outcome, dbs.pending c with
  | .done, some rows => { dbs with pending := Function.update dbs.pending c (some (change rows)) }
  | .done, none =>
    { dbs with committed := Function.update dbs.committed (file c) (change (dbs.committed (file c))) }
  | .failed, _ => dbs
  | .rolledBack, _ => dbs.rollback c

/-- `BEGIN`, which is an error within a transaction. -/
def begin (c : γ) (outcome : Outcome) (dbs : Databases δ γ ρ) : Databases δ γ ρ :=
  match outcome, dbs.pending c with
  | .done, none => { dbs with pending := Function.update dbs.pending c (some (dbs.committed (file c))) }
  | .done, some _ => dbs
  | .failed, _ => dbs
  | .rolledBack, _ => dbs.rollback c

/-- `COMMIT`, which is an error without a transaction. -/
def commit (c : γ) (outcome : Outcome) (dbs : Databases δ γ ρ) : Databases δ γ ρ :=
  match outcome, dbs.pending c with
  | .done, some rows => ⟨Function.update dbs.committed (file c) rows, Function.update dbs.pending c none⟩
  | .done, none => dbs
  | .failed, _ => dbs
  | .rolledBack, _ => dbs.rollback c

variable {file} {c : γ} {dbs : Databases δ γ ρ}

@[simp] theorem view_execute_done (change : List ρ → List ρ) :
    (dbs.execute file change c .done).view file c = change (dbs.view file c) := by
  unfold execute view
  cases h : dbs.pending c <;> simp [h]

@[simp] theorem view_execute_failed (change : List ρ → List ρ) :
    (dbs.execute file change c .failed).view file c = dbs.view file c := rfl

omit [DecidableEq δ] in
/-- As long as no failure rolls it back, `BEGIN` changes nothing that the connection sees. -/
theorem view_begin {outcome : Outcome} (h : outcome ≠ .rolledBack) :
    (dbs.begin file c outcome).view file c = dbs.view file c := by
  cases outcome with
  | done =>
    unfold begin view
    cases h : dbs.pending c <;> simp [h]
  | failed => rfl
  | rolledBack => exact absurd rfl h

/-- As long as no failure rolls it back, `COMMIT` changes nothing that the connection sees. -/
theorem view_commit {outcome : Outcome} (h : outcome ≠ .rolledBack) :
    (dbs.commit file c outcome).view file c = dbs.view file c := by
  cases outcome with
  | done =>
    unfold commit view
    cases h : dbs.pending c <;> simp [h]
  | failed => rfl
  | rolledBack => exact absurd rfl h

omit [DecidableEq δ] in
@[simp] theorem view_rollback : (dbs.rollback c).view file c = dbs.committed (file c) := by
  simp [view, rollback]

end Databases

end DenseLite.Lib.Transaction
