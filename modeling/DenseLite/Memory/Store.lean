import DenseLite.Infer.State

/-! # The memory store

`MemoryEntry` and `MemoryScopeFilter` (`persistent_memory.hpp`), and the table `memories` with the operations of
`MemoryStore` on it (`memory_store.cpp`). The table is the list of its rows; texts are bound as C strings, so
what follows a zero byte is not stored. A `put_memory` on an existing key rewrites some columns and keeps the
others, the scope of the row among them.

What `LIKE` matches, what a spliced query text selects, what the vector index returns and the
arithmetic of the vectors are parameters. -/

namespace DenseLite.Memory.Store

open DenseLite.Lib.ByteStream DenseLite.Infer.State

/-! ### Entries and filters -/

/-- `MemoryCategory`. -/
inductive MemoryCategory
  | rule | convention | discovery | architecturalDecision
deriving DecidableEq, Repr

/-- `MemoryEntry`; the floats `1.0` and `0.5` are the defaults of confidence and importance. -/
structure MemoryEntry where
  id : Bytes := []
  category : MemoryCategory := .discovery
  key : Bytes := []
  value : Bytes := []
  confidence : F32 := 0x3F800000
  updatedAt : Int64 := 0
  workspaceId : Bytes := ascii "default"
  sessionId : Bytes := []
  actorScope : Bytes := ascii "public"
  visibility : Bytes := ascii "workspace"
  sourcePath : Bytes := []
  sourceType : Bytes := ascii "user"
  commitHash : Bytes := []
  importance : F32 := 0x3F000000
  accessCount : Int32 := 0
  lastAccessedAt : Int64 := 0
  expiresAt : Int64 := 0
  supersedesId : Bytes := []
  contradictsId : Bytes := []
  status : Bytes := ascii "active"
deriving DecidableEq, Repr

/-- `MemoryScopeFilter`. -/
structure MemoryScopeFilter where
  workspaceId : Bytes := []
  sessionId : Bytes := []
  allowedVisibilities : List Bytes := [ascii "public", ascii "workspace"]
  activeOnly : Bool := true
deriving DecidableEq, Repr

/-- `MemoryScopeFilter::matches`. -/
def MemoryScopeFilter.matches (filter : MemoryScopeFilter) (entry : MemoryEntry) : Bool :=
  if filter.activeOnly && entry.status ≠ ascii "active" then false
  else if filter.workspaceId ≠ [] ∧ entry.workspaceId ≠ filter.workspaceId ∧
      entry.workspaceId ≠ ascii "default" ∧ entry.visibility ≠ ascii "public" then false
  else if filter.sessionId ≠ [] ∧ entry.visibility = ascii "session" ∧
      entry.sessionId ≠ filter.sessionId then false
  else filter.allowedVisibilities.isEmpty || filter.allowedVisibilities.contains entry.visibility

/-! ### The table -/

/-- A row of `memories`. -/
structure Row where
  entry : MemoryEntry
  embedding : Option (List F32)
deriving DecidableEq, Repr

/-- The entry as its columns are bound. -/
def bound (e : MemoryEntry) : MemoryEntry :=
  { e with
    id := cstr e.id
    key := cstr e.key
    value := cstr e.value
    workspaceId := cstr e.workspaceId
    sessionId := cstr e.sessionId
    actorScope := cstr e.actorScope
    visibility := cstr e.visibility
    sourcePath := cstr e.sourcePath
    sourceType := cstr e.sourceType
    commitHash := cstr e.commitHash
    supersedesId := cstr e.supersedesId
    contradictsId := cstr e.contradictsId
    status := cstr e.status }

/-- `ON CONFLICT(key) DO UPDATE`: the columns that are rewritten. The count of accesses is stored as a 64-bit
number and read as an `int`. -/
def updateRow (old : Row) (new : Row) : Row where
  entry := { old.entry with
    value := new.entry.value
    confidence := new.entry.confidence
    updatedAt := new.entry.updatedAt
    importance := new.entry.importance
    status := new.entry.status
    supersedesId := new.entry.supersedesId
    contradictsId := new.entry.contradictsId
    accessCount := old.entry.accessCount + 1 }
  embedding := new.embedding

/-- `extract_memory_entry`: an empty status reads as active. -/
def extractMemoryEntry (r : Row) : MemoryEntry :=
  { r.entry with status := if r.entry.status = [] then ascii "active" else r.entry.status }

/-- The insert statement of `put_memory`. -/
def upsert (new : Row) (rows : List Row) : List Row :=
  if rows.any fun r => r.entry.key = new.entry.key then
    rows.map fun r => if r.entry.key = new.entry.key then updateRow r new else r
  else rows ++ [new]

/-- The rows after an insert: those of other keys, and the new one or the updated ones. -/
theorem mem_upsert_iff {new r : Row} {rows : List Row} : r ∈ upsert new rows ↔
    (r ∈ rows ∧ r.entry.key ≠ new.entry.key) ∨
      (r = new ∧ ∀ old ∈ rows, old.entry.key ≠ new.entry.key) ∨
      ∃ old ∈ rows, old.entry.key = new.entry.key ∧ r = updateRow old new := by
  unfold upsert
  split_ifs with hany
  · obtain ⟨some, hsome, hkey⟩ := List.any_eq_true.mp hany
    constructor
    · intro h
      obtain ⟨old, hold, rfl⟩ := List.mem_map.mp h
      split_ifs with heq
      · exact Or.inr (Or.inr ⟨old, hold, heq, rfl⟩)
      · exact Or.inl ⟨hold, heq⟩
    · rintro (⟨hr, hne⟩ | ⟨-, hnone⟩ | ⟨old, hold, heq, rfl⟩)
      · exact List.mem_map.mpr ⟨r, hr, if_neg hne⟩
      · exact absurd (of_decide_eq_true hkey) (hnone some hsome)
      · exact List.mem_map.mpr ⟨old, hold, if_pos heq⟩
  · have hnone : ∀ old ∈ rows, old.entry.key ≠ new.entry.key := fun old hold heq =>
      hany (List.any_eq_true.mpr ⟨old, hold, decide_eq_true heq⟩)
    rw [List.mem_append, List.mem_singleton]
    constructor
    · rintro (hr | rfl)
      · exact Or.inl ⟨hr, hnone r hr⟩
      · exact Or.inr (Or.inl ⟨rfl, hnone⟩)
    · rintro (⟨hr, -⟩ | ⟨rfl, -⟩ | ⟨old, hold, heq, -⟩)
      · exact Or.inl hr
      · exact Or.inr rfl
      · exact absurd heq (hnone old hold)

/-- An insert leaves a row of its key, with its embedding. -/
theorem exists_mem_upsert (new : Row) (rows : List Row) :
    ∃ r ∈ upsert new rows, r.entry.key = new.entry.key ∧ r.embedding = new.embedding := by
  by_cases h : ∃ old ∈ rows, old.entry.key = new.entry.key
  · obtain ⟨old, hold, heq⟩ := h
    exact ⟨updateRow old new, mem_upsert_iff.mpr (Or.inr (Or.inr ⟨old, hold, heq, rfl⟩)), heq, rfl⟩
  · push Not at h
    exact ⟨new, mem_upsert_iff.mpr (Or.inr (Or.inl ⟨rfl, h⟩)), rfl, rfl⟩

/-- `put_memory` of an entry whose importance is a number, on an open database (NaN is bound as `NULL`, and the
statement fails): an entry without embedding is embedded by its value. -/
def putMemory (embedText : Bytes → List F32) (e : MemoryEntry) (embedding : List F32) (rows : List Row) :
    List Row :=
  let emb := if embedding = [] then embedText e.value else embedding
  upsert ⟨bound e, if emb = [] then none else some emb⟩ rows

/-- `delete_memory`. -/
def deleteMemory (key : Bytes) (rows : List Row) : List Row := rows.filter fun r => r.entry.key ≠ cstr key

/-- `supersede_memory`. -/
def supersedeMemory (oldKey newKey : Bytes) (rows : List Row) : List Row :=
  if oldKey = [] then rows
  else rows.map fun r => if r.entry.key = cstr oldKey then
    { r with entry := { r.entry with status := ascii "superseded", supersedesId := cstr newKey } } else r

/-! ### The queries -/

section Queries

/-- What SQLite and the vector index compute: `LIKE` on a pattern and a text, the keys that a query text
selects, the hits of a search among allowed ids (each id once), similarity and comparison of scores. -/
structure Backend where
  like : Bytes → Bytes → Bool
  selectKeys : Bytes → List Row → List Bytes
  search : List F32 → ℕ → List Bytes → List (Bytes × F32)
  cosineSimilarity : List F32 → List F32 → F32
  ge : F32 → F32 → Bool
  gt : F32 → F32 → Bool

variable (b : Backend)

/-- The `WHERE` clause of `query_memories_keyword`. -/
def keywordWhere (query : Bytes) (filter : MemoryScopeFilter) (r : Row) : Bool :=
  let pattern := cstr (ascii "%" ++ query ++ ascii "%")
  (b.like pattern r.entry.key || b.like pattern r.entry.value) && r.entry.status = ascii "active" &&
    (filter.workspaceId = [] || r.entry.workspaceId = cstr filter.workspaceId ||
      r.entry.visibility = ascii "global") &&
    (filter.sessionId = [] || r.entry.sessionId = cstr filter.sessionId)

/-- `query_memories_keyword`; the loop stops after the entry that reaches the limit. -/
def queryMemoriesKeyword (query : Bytes) (limit : ℕ) (filter : MemoryScopeFilter) (rows : List Row) :
    List MemoryEntry :=
  (((rows.filter (keywordWhere b query filter)).map extractMemoryEntry).filter filter.matches).take
    (max limit 1)

/-- The text of the scope query of `query_memories_vector`. -/
def scopeSql (filter : MemoryScopeFilter) : Bytes :=
  ascii "SELECT key FROM memories WHERE 1=1" ++
    (if filter.activeOnly then ascii " AND status = 'active'" else []) ++
    (if filter.workspaceId ≠ [] then ascii " AND (workspace_id = '" ++ filter.workspaceId ++
      ascii "' OR workspace_id = 'default' OR visibility = 'public')" else [])

/-- The branch of `query_memories_vector` with an index: the hits among the allowed keys, those with an entry
that matches and a score at the threshold. -/
def queryIndexed (queryVec : List F32) (limit : ℕ) (threshold : F32) (filter : MemoryScopeFilter)
    (rows : List Row) : List (MemoryEntry × F32) :=
  let hits := b.search queryVec limit (b.selectKeys (scopeSql filter) rows)
  let selected := rows.filter fun r => (hits.map fun h => cstr h.1).contains r.entry.key
  let entries := (selected.map extractMemoryEntry).filter filter.matches
  (hits.filterMap fun h => if b.ge h.2 threshold then
    (entries.find? fun e => e.key = h.1).map fun e => (e, h.2) else none).take (max limit 1)

/-- The branch without an index: all embedded entries that match, by similarity. -/
def queryScan (queryVec : List F32) (limit : ℕ) (threshold : F32) (filter : MemoryScopeFilter)
    (rows : List Row) : List (MemoryEntry × F32) :=
  let scored := rows.filterMap fun r =>
    if filter.matches (extractMemoryEntry r) then
      match r.embedding with
      | some vec =>
        let sim := b.cosineSimilarity queryVec vec
        if vec ≠ [] ∧ b.ge sim threshold then some (extractMemoryEntry r, sim) else none
      | none => none
    else none
  (scored.mergeSort fun x y => !b.gt y.2 x.2).take limit

/-- `query_memories_vector`, of a store with an index or without one. -/
def queryMemoriesVector (indexed : Bool) (queryVec : List F32) (limit : ℕ) (threshold : F32)
    (filter : MemoryScopeFilter) (rows : List Row) : List (MemoryEntry × F32) :=
  if queryVec = [] then []
  else if indexed then queryIndexed b queryVec limit threshold filter rows
  else queryScan b queryVec limit threshold filter rows

/-- `load_all_persistent`. -/
def loadAllPersistent (filter : MemoryScopeFilter) (rows : List Row) : List MemoryEntry :=
  (rows.map extractMemoryEntry).filter filter.matches

end Queries

end DenseLite.Memory.Store
