import Mathlib.Data.List.Forall2
import Mathlib.Logic.Function.Basic
import Mathlib.Tactic.Common

/-! # Schema statements of SQLite

A database as its tables and indexes, and the statements that shape it: `CREATE TABLE IF NOT EXISTS`,
`CREATE INDEX IF NOT EXISTS` and `ALTER TABLE ... ADD COLUMN`. A statement fails or leads to a new
database; a script stops at its first failing statement and keeps what the statements before it did.
None of these statements takes a column or a row away (`exec_extends`). The names of tables, columns
and indexes and the values are arbitrary types. -/

namespace DenseLite.Lib.Sqlite

/-- The declared type of a column. -/
inductive SqlType
  | text | integer | real | blob
deriving DecidableEq, Repr

/-- The declaration of a column; without a default it is `NULL`. -/
structure ColumnDef (κ V : Type*) where
  name : κ
  type : SqlType
  notNull : Bool := false
  default : Option V := none
  primaryKey : Bool := false
  autoincrement : Bool := false

/-- A table; a row has its values in the order of the columns, and `none` for `NULL`. -/
structure Table (κ V : Type*) where
  columns : List (ColumnDef κ V)
  rows : List (List (Option V)) := []

/-- A database. -/
structure Database (τ κ ι V : Type*) where
  tables : τ → Option (Table κ V) := fun _ => none
  indexes : ι → Option (τ × List κ) := fun _ => none

/-- The statements; both kinds of `CREATE` are `IF NOT EXISTS`. -/
inductive Stmt (τ κ ι V : Type*)
  | createTable (t : τ) (columns : List (ColumnDef κ V))
  | createIndex (i : ι) (t : τ) (columns : List κ)
  | addColumn (t : τ) (column : ColumnDef κ V)

variable {τ κ ι V : Type*}

/-- The table has a column of that name. -/
def Table.has [DecidableEq κ] (tab : Table κ V) (c : κ) : Bool := tab.columns.any fun d => d.name = c

/-- The table with a further column, which has its default in every row. -/
def Table.addColumn (tab : Table κ V) (d : ColumnDef κ V) : Table κ V :=
  ⟨tab.columns ++ [d], tab.rows.map fun r => r ++ [d.default]⟩

section Semantics

variable [DecidableEq τ] [DecidableEq κ] [DecidableEq ι]

/-- One statement: `none` when it fails. -/
def run (db : Database τ κ ι V) : Stmt τ κ ι V → Option (Database τ κ ι V)
  | .createTable t columns =>
    match db.tables t with
    | some _ => some db
    | none => some { db with tables := Function.update db.tables t (some ⟨columns, []⟩) }
  | .createIndex i t columns =>
    match db.tables t with
    | none => none
    | some tab =>
      if (db.indexes i).isSome then some db
      else if columns.all tab.has then
        some { db with indexes := Function.update db.indexes i (some (t, columns)) }
      else none
  | .addColumn t column =>
    match db.tables t with
    | none => none
    | some tab =>
      if tab.has column.name then none
      else some { db with tables := Function.update db.tables t (some (tab.addColumn column)) }

/-- `sqlite3_exec`: whether every statement succeeded, and the database after those that did. -/
def exec : List (Stmt τ κ ι V) → Database τ κ ι V → Bool × Database τ κ ι V
  | [], db => (true, db)
  | s :: ss, db =>
    match run db s with
    | some db' => exec ss db'
    | none => (false, db)

theorem exec_append (ss ss' : List (Stmt τ κ ι V)) : ∀ db : Database τ κ ι V, (exec ss db).1 = true →
    exec (ss ++ ss') db = exec ss' (exec ss db).2 := by
  induction ss with
  | nil => exact fun _ _ => rfl
  | cons s ss ih =>
    intro db h
    rw [List.cons_append, exec, exec]
    rw [exec] at h
    cases hr : run db s with
    | some db' =>
      simp only [hr] at h ⊢
      exact ih db' h
    | none =>
      simp [hr] at h

end Semantics

/-! ### What a script keeps -/

/-- The columns and rows of `tab` are still there; a row may have got further values at its end. -/
structure Table.Extends (tab tab' : Table κ V) : Prop where
  columns : tab.columns <+: tab'.columns
  rows : List.Forall₂ (· <+: ·) tab.rows tab'.rows

/-- Every table of `db` is still there, with its columns and rows. -/
def Extends (db db' : Database τ κ ι V) : Prop :=
  ∀ t tab, db.tables t = some tab → ∃ tab', db'.tables t = some tab' ∧ tab.Extends tab'

theorem Table.Extends.refl (tab : Table κ V) : tab.Extends tab :=
  ⟨List.prefix_refl _, List.forall₂_same.mpr fun r _ => List.prefix_refl r⟩

theorem rows_trans {r1 r2 r3 : List (List (Option V))} (h : List.Forall₂ (· <+: ·) r1 r2) :
    List.Forall₂ (· <+: ·) r2 r3 → List.Forall₂ (· <+: ·) r1 r3 := by
  induction h generalizing r3 with
  | nil => exact fun h' => h'
  | cons hr _ ih =>
    intro h'
    cases h' with
    | cons hr' h' => exact .cons (hr.trans hr') (ih h')

theorem Extends.refl (db : Database τ κ ι V) : Extends db db :=
  fun _ tab h => ⟨tab, h, Table.Extends.refl tab⟩

theorem Extends.trans {db db' db'' : Database τ κ ι V} (h : Extends db db') (h' : Extends db' db'') :
    Extends db db'' := by
  intro t tab ht
  obtain ⟨tab', ht', he⟩ := h t tab ht
  obtain ⟨tab'', ht'', he'⟩ := h' t tab' ht'
  exact ⟨tab'', ht'', he.columns.trans he'.columns, rows_trans he.rows he'.rows⟩

theorem Table.extends_addColumn (tab : Table κ V) (d : ColumnDef κ V) : tab.Extends (tab.addColumn d) where
  columns := List.prefix_append _ _
  rows := by
    unfold Table.addColumn
    rw [List.forall₂_map_right_iff]
    exact List.forall₂_same.mpr fun r _ => List.prefix_append r _

theorem Table.Extends.has [DecidableEq κ] {tab tab' : Table κ V} (h : tab.Extends tab') {c : κ}
    (hc : tab.has c = true) : tab'.has c = true := by
  unfold Table.has at hc ⊢
  rw [List.any_eq_true] at hc ⊢
  obtain ⟨d, hd, heq⟩ := hc
  exact ⟨d, h.columns.subset hd, heq⟩

section Frame

variable [DecidableEq τ]

/-- A new or longer table leaves all others as they are. -/
theorem extends_update {db : Database τ κ ι V} {t : τ} {new : Table κ V}
    (h : ∀ tab, db.tables t = some tab → tab.Extends new) :
    Extends db { db with tables := Function.update db.tables t (some new) } := by
  intro t' tab ht
  by_cases heq : t' = t
  · subst heq
    exact ⟨new, Function.update_self .., h tab ht⟩
  · exact ⟨tab, (Function.update_of_ne heq ..).trans ht, Table.Extends.refl tab⟩

variable [DecidableEq κ] [DecidableEq ι]

/-- **What a statement does** when it does not fail: nothing, or it adds what it names. -/
theorem run_cases {db db' : Database τ κ ι V} {s : Stmt τ κ ι V} (h : run db s = some db') :
    db' = db ∨
    (∃ t columns, s = .createTable t columns ∧ db.tables t = none ∧
      db' = { db with tables := Function.update db.tables t (some ⟨columns, []⟩) }) ∨
    (∃ i t columns, s = .createIndex i t columns ∧
      db' = { db with indexes := Function.update db.indexes i (some (t, columns)) }) ∨
    ∃ t d tab, s = .addColumn t d ∧ db.tables t = some tab ∧
      db' = { db with tables := Function.update db.tables t (some (tab.addColumn d)) } := by
  cases s with
  | createTable t columns =>
    rw [run] at h
    cases ht : db.tables t with
    | some tab =>
      rw [ht] at h
      exact Or.inl (Option.some.inj h).symm
    | none =>
      rw [ht] at h
      exact Or.inr (Or.inl ⟨t, columns, rfl, ht, (Option.some.inj h).symm⟩)
  | createIndex i t columns =>
    rw [run] at h
    cases ht : db.tables t with
    | none =>
      simp [ht] at h
    | some tab =>
      simp only [ht] at h
      split_ifs at h
      · exact Or.inl (Option.some.inj h).symm
      · exact Or.inr (Or.inr (Or.inl ⟨i, t, columns, rfl, (Option.some.inj h).symm⟩))
  | addColumn t d =>
    rw [run] at h
    cases ht : db.tables t with
    | none =>
      simp [ht] at h
    | some tab =>
      simp only [ht] at h
      split_ifs at h
      exact Or.inr (Or.inr (Or.inr ⟨t, d, tab, rfl, ht, (Option.some.inj h).symm⟩))

/-- **A statement takes nothing away.** -/
theorem run_extends {db db' : Database τ κ ι V} {s : Stmt τ κ ι V} (h : run db s = some db') :
    Extends db db' := by
  rcases run_cases h with rfl | ⟨t, columns, -, ht, rfl⟩ | ⟨i, t, columns, -, rfl⟩ | ⟨t, d, tab, -, ht, rfl⟩
  · exact Extends.refl db'
  · refine extends_update fun tab htab => ?_
    simp [ht] at htab
  · exact Extends.refl db
  · refine extends_update fun tab' htab => ?_
    rw [ht, Option.some.injEq] at htab
    rw [← htab]
    exact Table.extends_addColumn tab d

/-- **A script takes nothing away**, whether it fails or not. -/
theorem exec_extends : ∀ (ss : List (Stmt τ κ ι V)) (db : Database τ κ ι V), Extends db (exec ss db).2
  | [], db => Extends.refl db
  | s :: ss, db => by
    rw [exec]
    cases hr : run db s with
    | some db' => exact (run_extends hr).trans (exec_extends ss db')
    | none => exact Extends.refl db

/-- Creating tables never fails. -/
theorem exec_createTables (defs : List (τ × List (ColumnDef κ V))) : ∀ db : Database τ κ ι V,
    (exec (defs.map fun d => .createTable d.1 d.2) db).1 = true := by
  induction defs with
  | nil => exact fun _ => rfl
  | cons d defs ih =>
    intro db
    rw [List.map_cons, exec, run]
    cases db.tables d.1 <;> exact ih _

/-- The statement is `ADD COLUMN` on the table `t`. -/
def Stmt.Alters (t : τ) : Stmt τ κ ι V → Prop
  | .addColumn t' _ => t' = t
  | _ => False

/-- The statement is `CREATE INDEX` for the index `i`. -/
def Stmt.Indexes (i : ι) : Stmt τ κ ι V → Prop
  | .createIndex i' _ _ => i' = i
  | _ => False

/-- A script without `ADD COLUMN` on a table that is there leaves it as it is. -/
theorem exec_tables {t : τ} {tab : Table κ V} : ∀ (ss : List (Stmt τ κ ι V)) (db : Database τ κ ι V),
    db.tables t = some tab → (∀ s ∈ ss, ¬ s.Alters t) → (exec ss db).2.tables t = some tab
  | [], _, h, _ => h
  | s :: ss, db, h, hs => by
    rw [exec]
    cases hr : run db s with
    | none => exact h
    | some db' =>
      refine exec_tables ss db' ?_ fun s' hs' => hs s' (List.mem_cons_of_mem s hs')
      have hno := hs s List.mem_cons_self
      rcases run_cases hr with rfl | ⟨t', columns, -, ht, rfl⟩ | ⟨i, t', columns, -, rfl⟩ |
        ⟨t', d, tab', rfl, -, rfl⟩
      · exact h
      · have hne : t ≠ t' := fun heq => by rw [heq, ht] at h; cases h
        exact (Function.update_of_ne hne ..).trans h
      · exact h
      · have hne : t ≠ t' := fun heq => hno heq.symm
        exact (Function.update_of_ne hne ..).trans h

/-- A script that does not create an index leaves it as it is. -/
theorem exec_indexes {i : ι} : ∀ (ss : List (Stmt τ κ ι V)) (db : Database τ κ ι V),
    (∀ s ∈ ss, ¬ s.Indexes i) → (exec ss db).2.indexes i = db.indexes i
  | [], _, _ => rfl
  | s :: ss, db, hs => by
    rw [exec]
    cases hr : run db s with
    | none => rfl
    | some db' =>
      refine (exec_indexes ss db' fun s' hs' => hs s' (List.mem_cons_of_mem s hs')).trans ?_
      have hno := hs s List.mem_cons_self
      rcases run_cases hr with rfl | ⟨t', columns, -, -, rfl⟩ | ⟨i', t', columns, rfl, rfl⟩ |
        ⟨t', d, tab', -, -, rfl⟩
      · rfl
      · rfl
      · exact Function.update_of_ne (fun heq => hno heq.symm) ..
      · rfl

/-- An index on columns that are all there is created, or is there already. -/
theorem run_createIndex_some {db : Database τ κ ι V} {i : ι} {t : τ} {columns : List κ} {tab : Table κ V}
    (ht : db.tables t = some tab) (hc : ∀ c ∈ columns, tab.has c = true) :
    ∃ db', run db (.createIndex i t columns) = some db' := by
  rw [run, ht]
  simp only [List.all_eq_true.mpr hc, if_true]
  split_ifs
  · exact ⟨_, rfl⟩
  · exact ⟨_, rfl⟩

/-- An index on a column that is not there is not created. -/
theorem run_createIndex_none {db : Database τ κ ι V} {i : ι} {t : τ} {columns : List κ} {tab : Table κ V}
    (ht : db.tables t = some tab) (hi : db.indexes i = none) {c : κ} (hc : c ∈ columns)
    (hno : tab.has c = false) : run db (.createIndex i t columns) = none := by
  have hall : columns.all tab.has = false := List.all_eq_false.mpr ⟨c, hc, by rw [hno]; exact Bool.false_ne_true⟩
  rw [run, ht]
  simp only [hi, hall, Option.isSome_none, Bool.false_eq_true, if_false]

end Frame

end DenseLite.Lib.Sqlite
