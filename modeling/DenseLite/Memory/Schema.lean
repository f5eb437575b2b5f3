import DenseLite.Lib.Sqlite
import DenseLite.Lib.Runs

/-! # The two creators of the memory database

`DatabaseMigrator::bootstrap_memory_db` creates `memories` with six columns, `MemoryStore::create_tables`
with 21. The second ends its script with an index on `workspace_id` and `status` and only then runs
the `ALTER TABLE` statements for tables that lack these columns; so on such a table the script fails
at the index, and the columns are never added. `creators_agree_iff` says which orders work. -/

namespace DenseLite.Memory.Schema

open DenseLite.Lib.Sqlite DenseLite.Lib.Runs

/-! ### Names and values -/

/-- The tables. -/
inductive TableName
  | memories | sessions | sessionTurns | consolidatedArchives
deriving DecidableEq, Repr

/-- The columns of the tables. -/
inductive ColumnName
  | key | id | category | value | confidence | updatedAt | embedding | workspaceId | sessionId
  | actorScope | visibility | sourcePath | sourceType | commitHash | importance | accessCount
  | lastAccessedAt | expiresAt | supersedesId | contradictsId | status
  | turnCount | turnIndex | timestamp | role | content | toolName | toolArgs | toolResult
  | archiveId | summary | extractedFacts | createdAt
deriving DecidableEq, Repr

/-- The indexes. -/
inductive IndexName
  | idxMemoriesWorkspaceStatus | idxSessionTurns | idxMemoriesCategory
deriving DecidableEq, Repr

/-- A value other than `NULL`; a `REAL` as the bits of a double. -/
inductive Value
  | text (s : String)
  | integer (i : Int64)
  | real (bits : UInt64)
  | blob (bytes : List UInt8)
deriving DecidableEq, Repr

/-- The file `memory.db`. -/
abbrev MemoryDb := Database TableName ColumnName IndexName Value

/-- A schema statement on it. -/
abbrev MemoryStmt := Stmt TableName ColumnName IndexName Value

/-! ### The scripts -/

/-- The columns of the older schema, as `bootstrap_memory_db` declares them. -/
def olderColumns : List (ColumnDef ColumnName Value) :=
  [{ name := .key, type := .text, primaryKey := true },
    { name := .id, type := .text },
    { name := .category, type := .integer },
    { name := .value, type := .text },
    { name := .confidence, type := .real },
    { name := .updatedAt, type := .integer }]

/-- The columns that `create_tables` declares after them, and adds to tables that lack them; `0.5` is the
default of `importance`. -/
def newerColumns : List (ColumnDef ColumnName Value) :=
  [{ name := .embedding, type := .blob },
    { name := .workspaceId, type := .text, notNull := true, default := some (.text "default") },
    { name := .sessionId, type := .text, notNull := true, default := some (.text "") },
    { name := .actorScope, type := .text, notNull := true, default := some (.text "public") },
    { name := .visibility, type := .text, notNull := true, default := some (.text "workspace") },
    { name := .sourcePath, type := .text, default := some (.text "") },
    { name := .sourceType, type := .text, default := some (.text "user") },
    { name := .commitHash, type := .text, default := some (.text "") },
    { name := .importance, type := .real, notNull := true, default := some (.real 0x3FE0000000000000) },
    { name := .accessCount, type := .integer, notNull := true, default := some (.integer 0) },
    { name := .lastAccessedAt, type := .integer, notNull := true, default := some (.integer 0) },
    { name := .expiresAt, type := .integer, default := some (.integer 0) },
    { name := .supersedesId, type := .text, default := some (.text "") },
    { name := .contradictsId, type := .text, default := some (.text "") },
    { name := .status, type := .text, notNull := true, default := some (.text "active") }]

/-- The tables that both creators declare alike. -/
def sessionTables : List (TableName × List (ColumnDef ColumnName Value)) :=
  [(.sessions,
      [{ name := .sessionId, type := .text, primaryKey := true },
        { name := .turnCount, type := .integer },
        { name := .updatedAt, type := .integer }]),
    (.sessionTurns,
      [{ name := .id, type := .integer, primaryKey := true, autoincrement := true },
        { name := .sessionId, type := .text },
        { name := .turnIndex, type := .integer },
        { name := .timestamp, type := .integer },
        { name := .role, type := .text },
        { name := .content, type := .text },
        { name := .toolName, type := .text },
        { name := .toolArgs, type := .text },
        { name := .toolResult, type := .text }]),
    (.consolidatedArchives,
      [{ name := .archiveId, type := .text, primaryKey := true },
        { name := .sessionId, type := .text },
        { name := .summary, type := .text },
        { name := .extractedFacts, type := .text },
        { name := .createdAt, type := .integer }])]

/-- `CREATE TABLE IF NOT EXISTS` for each table. -/
def createTables (defs : List (TableName × List (ColumnDef ColumnName Value))) : List MemoryStmt :=
  defs.map fun d => .createTable d.1 d.2

/-- The script of `bootstrap_memory_db`. -/
def bootstrapDdl : List MemoryStmt :=
  createTables ((.memories, olderColumns) :: sessionTables) ++
    [.createIndex .idxSessionTurns .sessionTurns [.sessionId, .turnIndex],
      .createIndex .idxMemoriesCategory .memories [.category]]

/-- The index on the workspace and the status. -/
def workspaceIndex : MemoryStmt :=
  .createIndex .idxMemoriesWorkspaceStatus .memories [.workspaceId, .status]

/-- The script of `create_tables`. -/
def storeSchema : List MemoryStmt :=
  createTables ((.memories, olderColumns ++ newerColumns) :: sessionTables) ++ [workspaceIndex]

/-- The statements after it, each run by itself whatever the one before it did. -/
def migrationHelpers : List MemoryStmt := (newerColumns.map fun d => .addColumn .memories d) ++ [workspaceIndex]

/-! ### The creators -/

/-- The database in a file; opening a file that is not there creates an empty one. -/
def opened (file : Option MemoryDb) : MemoryDb := file.getD {}

/-- `bootstrap_memory_db`: what it returns, and the file after it. -/
def bootstrapMemoryDb (file : Option MemoryDb) : Bool × MemoryDb := exec bootstrapDdl (opened file)

/-- `MemoryStore::init`, with `create_tables`. -/
def storeInit (file : Option MemoryDb) : Bool × MemoryDb :=
  if (exec storeSchema (opened file)).1 then
    (true, migrationHelpers.foldl (fun db s => (exec [s] db).2) (exec storeSchema (opened file)).2)
  else exec storeSchema (opened file)

/-- A run of one of the creators. -/
inductive Creator
  | bootstrap | init
deriving DecidableEq, Repr

/-- The file after a run. -/
def create (file : Option MemoryDb) : Creator → Option MemoryDb
  | .bootstrap => some (bootstrapMemoryDb file).2
  | .init => some (storeInit file).2

/-- The columns that `put_memory` and the queries name. -/
def namedColumns : List ColumnName :=
  [.key, .id, .category, .value, .confidence, .updatedAt, .embedding, .workspaceId, .sessionId,
    .actorScope, .visibility, .sourcePath, .sourceType, .commitHash, .importance, .accessCount,
    .lastAccessedAt, .expiresAt, .supersedesId, .contradictsId, .status]

/-- `memories` has every column that is named. -/
def Complete (db : MemoryDb) : Prop :=
  ∃ tab, db.tables .memories = some tab ∧ ∀ c ∈ namedColumns, tab.has c = true

/-- The next `MemoryStore::init` succeeds, completes `memories`, and keeps every row. -/
def Agrees (file : Option MemoryDb) : Prop :=
  (storeInit file).1 = true ∧ Complete (storeInit file).2 ∧ Extends (opened file) (storeInit file).2

/-- A file of the older schema: six columns, any rows, and so no index on the workspace. -/
structure OlderSchema (db : MemoryDb) : Prop where
  memories : ∃ rows, db.tables .memories = some ⟨olderColumns, rows⟩
  index : db.indexes .idxMemoriesWorkspaceStatus = none

/-! ### Complete files -/

section Creators

variable {db : MemoryDb} {file : Option MemoryDb}

theorem Complete.of_extends {db' : MemoryDb} (h : Complete db) (he : Extends db db') : Complete db' := by
  obtain ⟨tab, ht, hc⟩ := h
  obtain ⟨tab', ht', he'⟩ := he _ tab ht
  exact ⟨tab', ht', fun c hmem => he'.has (hc c hmem)⟩

theorem helpers_extends : ∀ (ss : List MemoryStmt) (db : MemoryDb),
    Extends db (ss.foldl (fun db s => (exec [s] db).2) db)
  | [], db => Extends.refl db
  | s :: ss, db => (exec_extends [s] db).trans (helpers_extends ss _)

/-- `init` takes nothing away, also when it fails. -/
theorem storeInit_extends (file : Option MemoryDb) : Extends (opened file) (storeInit file).2 := by
  unfold storeInit
  split_ifs
  · exact (exec_extends storeSchema _).trans (helpers_extends migrationHelpers _)
  · exact exec_extends storeSchema _

/-- The script of `create_tables` has its tables when it comes to the index. -/
theorem exec_storeSchema (db : MemoryDb) : exec storeSchema db = exec [workspaceIndex]
    (exec (createTables ((.memories, olderColumns ++ newerColumns) :: sessionTables)) db).2 :=
  exec_append _ _ db (exec_createTables _ db)

/-- If the tables are complete before the index, `init` succeeds. -/
theorem storeInit_complete (h : Complete (exec (createTables ((.memories, olderColumns ++ newerColumns) ::
    sessionTables)) (opened file)).2) : Agrees file := by
  obtain ⟨tab, ht, hc⟩ := h
  have hcols : ∀ c ∈ ([.workspaceId, .status] : List ColumnName), tab.has c = true := by
    intro c hmem
    refine hc c ?_
    revert hmem
    cases c <;> decide
  obtain ⟨db', hdb'⟩ := run_createIndex_some (i := IndexName.idxMemoriesWorkspaceStatus) ht hcols
  have hok : exec storeSchema (opened file) = (true, db') := by
    rw [exec_storeSchema, exec, workspaceIndex, hdb']
    rfl
  have hinit : storeInit file = (true, migrationHelpers.foldl (fun db s => (exec [s] db).2) db') := by
    unfold storeInit
    rw [hok]
    rfl
  have hdone : Complete (storeInit file).2 := by
    rw [hinit]
    exact Complete.of_extends ⟨tab, ht, hc⟩ ((run_extends hdb').trans (helpers_extends migrationHelpers db'))
  exact ⟨by rw [hinit], hdone, storeInit_extends file⟩

/-- A complete file stays complete, and agrees. -/
theorem agrees_of_complete (h : Complete (opened file)) : Agrees file :=
  storeInit_complete (h.of_extends (exec_extends _ _))

/-- Without a file, `init` creates a complete one. -/
theorem agrees_none : Agrees none := by
  refine storeInit_complete ⟨⟨olderColumns ++ newerColumns, []⟩, ?_, by decide⟩
  rfl

theorem complete_create (h : Complete (opened file)) (c : Creator) : Complete (opened (create file c)) := by
  cases c with
  | bootstrap => exact h.of_extends (exec_extends bootstrapDdl _)
  | init => exact h.of_extends (storeInit_extends file)

/-! ### Files of the older schema -/

theorem createTables_keep {defs : List (TableName × List (ColumnDef ColumnName Value))} {s : MemoryStmt}
    (hs : s ∈ createTables defs) (t : TableName) (i : IndexName) : ¬ s.Alters t ∧ ¬ s.Indexes i := by
  obtain ⟨d, -, rfl⟩ := List.mem_map.mp hs
  exact ⟨id, id⟩

/-- A script that neither alters `memories` nor creates the index on the workspace. -/
theorem OlderSchema.after {ss : List MemoryStmt} (h : OlderSchema db)
    (hs : ∀ s ∈ ss, ¬ s.Alters .memories ∧ ¬ s.Indexes .idxMemoriesWorkspaceStatus) :
    OlderSchema (exec ss db).2 := by
  obtain ⟨rows, ht⟩ := h.memories
  refine ⟨⟨rows, exec_tables ss db ht fun s hmem => (hs s hmem).1⟩, ?_⟩
  rw [exec_indexes ss db fun s hmem => (hs s hmem).2]
  exact h.index

/-- **The script of `create_tables` fails on an older file**, at the index, and leaves it an older one. -/
theorem older_storeSchema (h : OlderSchema db) :
    (exec storeSchema db).1 = false ∧ OlderSchema (exec storeSchema db).2 := by
  have hpre : OlderSchema (exec (createTables ((.memories, olderColumns ++ newerColumns) :: sessionTables))
      db).2 := h.after fun s hs => createTables_keep hs _ _
  rw [exec_storeSchema]
  obtain ⟨rows, ht⟩ := hpre.memories
  have hmem : ColumnName.workspaceId ∈ [.workspaceId, ColumnName.status] := List.mem_cons_self
  rw [exec, workspaceIndex, run_createIndex_none ht hpre.index hmem rfl]
  exact ⟨rfl, hpre⟩

/-- On an older file `init` is its failing script. -/
theorem older_storeInit (h : OlderSchema (opened file)) : storeInit file = exec storeSchema (opened file) := by
  unfold storeInit
  rw [if_neg (by rw [(older_storeSchema h).1]; exact Bool.false_ne_true)]

theorem OlderSchema.not_agrees (h : OlderSchema (opened file)) : ¬ Agrees file := by
  rintro ⟨hok, -⟩
  simp [older_storeInit h, (older_storeSchema h).1] at hok

/-- Both creators leave an older file an older one. -/
theorem older_create (h : OlderSchema (opened file)) (c : Creator) :
    OlderSchema (opened (create file c)) := by
  cases c with
  | bootstrap =>
    refine h.after fun s hs => ?_
    rcases List.mem_append.mp hs with hs | hs
    · exact createTables_keep hs _ _
    · rcases List.mem_pair.mp hs with rfl | rfl
      · exact ⟨id, fun heq => by cases heq⟩
      · exact ⟨id, fun heq => by cases heq⟩
  | init =>
    show OlderSchema (storeInit file).2
    rw [older_storeInit h]
    exact (older_storeSchema h).2

/-- `bootstrap_memory_db` creates a file of the older schema. -/
theorem older_bootstrap : OlderSchema (opened (create none .bootstrap)) := ⟨⟨[], rfl⟩, rfl⟩

end Creators

/-- **The creators agree** on a file reached by any runs of them exactly when there was no file before
the first of them, and that was not `bootstrap_memory_db`. -/
theorem creators_agree_iff (start : Option MemoryDb) (cs : List Creator)
    (hstart : start = none ∨ ∃ db, start = some db ∧ OlderSchema db) :
    Agrees (cs.foldl create start) ↔ start = none ∧ cs.head? ≠ some .bootstrap := by
  have hold : ∀ (cs : List Creator) (file : Option MemoryDb), OlderSchema (opened file) →
      OlderSchema (opened (cs.foldl create file)) := fun cs file h =>
    foldl_invariant (I := fun f => OlderSchema (opened f)) (C := fun _ => True)
      (fun _ c h' _ => older_create h' c) cs file h fun _ _ => trivial
  have hnew : ∀ (cs : List Creator) (file : Option MemoryDb), Complete (opened file) →
      Complete (opened (cs.foldl create file)) := fun cs file h =>
    foldl_invariant (I := fun f => Complete (opened f)) (C := fun _ => True)
      (fun _ c h' _ => complete_create h' c) cs file h fun _ _ => trivial
  rcases hstart with rfl | ⟨db, rfl, hdb⟩
  · cases cs with
    | nil => exact iff_of_true agrees_none ⟨rfl, by simp⟩
    | cons c cs =>
      rw [List.foldl_cons]
      cases c with
      | bootstrap => exact iff_of_false (hold cs _ older_bootstrap).not_agrees fun h => h.2 rfl
      | init =>
        have hfirst : Complete (opened (create none .init)) := agrees_none.2.1
        exact iff_of_true (agrees_of_complete (hnew cs _ hfirst)) ⟨rfl, by simp⟩
  · exact iff_of_false (hold cs (some db) hdb).not_agrees fun h => by cases h.1

/-- `init` comes first, and `bootstrap_memory_db` after it. -/
theorem creators_agree_iff_initFirst : Agrees ([Creator.init, .bootstrap].foldl create none) ↔
    (none : Option MemoryDb) = none ∧ [Creator.init, .bootstrap].head? ≠ some .bootstrap :=
  creators_agree_iff none [.init, .bootstrap] (Or.inl rfl)

/-- The order of the server: `bootstrap_memory_db` creates the file, and `init` fails on it. -/
theorem creators_disagree : ¬ Agrees ([Creator.bootstrap].foldl create none) := by
  rintro ⟨hok, -⟩
  revert hok
  decide +kernel

end DenseLite.Memory.Schema
