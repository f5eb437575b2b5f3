import DenseLite.Memory.Store

/-! # What is read after a put

`put_memory` binds all columns of an entry, but on a key that exists it rewrites only some of them, so what
`get_memory` reads then is the entry that was put only if the others agree with those of the row. An empty status
reads as `active`, and a NaN is stored as `NULL`. `readsBack_iff` says when the entry is read as it was put. -/

namespace DenseLite.Memory.LastWrite

open DenseLite.Lib.ByteStream DenseLite.Infer.State DenseLite.Memory.Store

/-! ### Floats in the database -/

/-- The bits without the sign. -/
def magnitude (x : F32) : F32 := x &&& 0x7fffffff

def isNaN (x : F32) : Bool := 0x7f800000 < magnitude x

/-- `==` on floats: the zeros are equal, and a NaN is equal to nothing. -/
def floatEq (x y : F32) : Bool :=
  !isNaN x && !isNaN y && (x = y || magnitude x = 0 && magnitude y = 0)

/-- What is read of a float that was bound: a NaN is stored as `NULL`, which reads as zero, and a zero has no sign. -/
def readBack (x : F32) : F32 := if isNaN x ∨ magnitude x = 0 then 0 else x

theorem floatEq_readBack (x : F32) : floatEq x (readBack x) = !isNaN x := by
  unfold floatEq readBack
  by_cases hnan : isNaN x = true
  · rw [hnan]
    rfl
  · have hfalse : isNaN x = false := eq_false_of_ne_true hnan
    by_cases hzero : magnitude x = 0
    · rw [if_pos (Or.inr hzero), hzero, hfalse, show isNaN 0 = false from rfl, show magnitude 0 = 0 from rfl]
      simp
    · rw [if_neg (by simp [hfalse, hzero]), hfalse]
      simp

/-! ### Put and get -/

/-- The entry with its floats as they are read back. -/
def withStoredFloats (e : MemoryEntry) : MemoryEntry :=
  { e with confidence := readBack e.confidence, importance := readBack e.importance }

/-- `put_memory`: the rows, if it returns true. The column of the importance takes no `NULL`. -/
def putReturns (embedText : Bytes → List F32) (e : MemoryEntry) (embedding : List F32) (rows : List Row) :
    Option (List Row) :=
  if isNaN e.importance then none else some (putMemory embedText (withStoredFloats e) embedding rows)

/-- The row of a key. -/
def rowOf (key : Bytes) (rows : List Row) : Option Row := rows.find? fun r => r.entry.key = key

/-- `get_memory`. -/
def getMemory (key : Bytes) (rows : List Row) : Option MemoryEntry := (rowOf (cstr key) rows).map extractMemoryEntry

/-- The texts of the entry have no zero byte. -/
structure NulFree (e : MemoryEntry) : Prop where
  id : 0 ∉ e.id
  key : 0 ∉ e.key
  value : 0 ∉ e.value
  workspaceId : 0 ∉ e.workspaceId
  sessionId : 0 ∉ e.sessionId
  actorScope : 0 ∉ e.actorScope
  visibility : 0 ∉ e.visibility
  sourcePath : 0 ∉ e.sourcePath
  sourceType : 0 ∉ e.sourceType
  commitHash : 0 ∉ e.commitHash
  supersedesId : 0 ∉ e.supersedesId
  contradictsId : 0 ∉ e.contradictsId
  status : 0 ∉ e.status

/-- The columns that an insert on an existing key keeps, apart from those that count accesses. -/
structure SameKept (e e' : MemoryEntry) : Prop where
  id : e.id = e'.id
  category : e.category = e'.category
  workspaceId : e.workspaceId = e'.workspaceId
  sessionId : e.sessionId = e'.sessionId
  actorScope : e.actorScope = e'.actorScope
  visibility : e.visibility = e'.visibility
  sourcePath : e.sourcePath = e'.sourcePath
  sourceType : e.sourceType = e'.sourceType
  commitHash : e.commitHash = e'.commitHash
  expiresAt : e.expiresAt = e'.expiresAt

/-- The entries are equal but for their keys and what counts accesses. -/
structure SameEntry (e e' : MemoryEntry) : Prop extends SameKept e e' where
  value : e.value = e'.value
  confidence : floatEq e.confidence e'.confidence = true
  updatedAt : e.updatedAt = e'.updatedAt
  importance : floatEq e.importance e'.importance = true
  supersedesId : e.supersedesId = e'.supersedesId
  contradictsId : e.contradictsId = e'.contradictsId
  status : e.status = e'.status

section Put

variable {embedText : Bytes → List F32} {e : MemoryEntry} {embedding : List F32} {rows rows' : List Row}

theorem NulFree.bound_eq (h : NulFree e) : bound e = e := by
  simp only [bound, cstr_of_not_mem h.id, cstr_of_not_mem h.key, cstr_of_not_mem h.value,
    cstr_of_not_mem h.workspaceId, cstr_of_not_mem h.sessionId, cstr_of_not_mem h.actorScope,
    cstr_of_not_mem h.visibility, cstr_of_not_mem h.sourcePath, cstr_of_not_mem h.sourceType,
    cstr_of_not_mem h.commitHash, cstr_of_not_mem h.supersedesId, cstr_of_not_mem h.contradictsId,
    cstr_of_not_mem h.status]

theorem key_of_rowOf {key : Bytes} {r : Row} (h : rowOf key rows = some r) : r.entry.key = key := by
  simpa using List.find?_some h

theorem rowOf_eq_none {key : Bytes} (h : ¬ (rows.any fun r => r.entry.key = key) = true) : rowOf key rows = none := by
  refine List.find?_eq_none.mpr fun r hr hkey => h ?_
  exact List.any_eq_true.mpr ⟨r, hr, hkey⟩

/-- An update leaves the key of each row. -/
theorem key_comp_updateRow (key : Bytes) (new : Row) : (fun r : Row => decide (r.entry.key = key)) ∘
    (fun r => if r.entry.key = new.entry.key then updateRow r new else r) = fun r => decide (r.entry.key = key) := by
  funext r
  dsimp only [Function.comp]
  split_ifs
  · rfl
  · rfl

/-- The row of the key after an insert: the new one, or the old one with some columns of the new one. -/
theorem rowOf_upsert (new : Row) (rows : List Row) : rowOf new.entry.key (upsert new rows) =
    some (((rowOf new.entry.key rows).map fun old => updateRow old new).getD new) := by
  unfold upsert
  split_ifs with hany
  · -- the key of a row stays, so the row that is found is the one that was found before
    obtain ⟨old, hold⟩ := Option.isSome_iff_exists.mp (List.find?_isSome.mpr (List.any_eq_true.mp hany))
    have hrow : rowOf new.entry.key rows = some old := hold
    rw [rowOf, List.find?_map, key_comp_updateRow, hold, hrow, Option.map_some, if_pos (key_of_rowOf hrow)]
    rfl
  · have hnone := rowOf_eq_none hany
    rw [hnone, rowOf, List.find?_append, show rows.find? _ = none from hnone, Option.none_or]
    simp

/-- The row of another key stays. -/
theorem rowOf_upsert_of_ne {key : Bytes} {new : Row} (h : key ≠ new.entry.key) (rows : List Row) :
    rowOf key (upsert new rows) = rowOf key rows := by
  unfold upsert
  split_ifs with hany
  · rw [rowOf, List.find?_map, key_comp_updateRow, ← rowOf]
    cases hrow : rowOf key rows with
    | none => rfl
    | some r => rw [Option.map_some, if_neg fun heq => h ((key_of_rowOf hrow).symm.trans heq)]
  · rw [rowOf, List.find?_append, ← rowOf]
    simp [h.symm]

theorem NulFree.withStoredFloats (h : NulFree e) : NulFree (withStoredFloats e) :=
  ⟨h.id, h.key, h.value, h.workspaceId, h.sessionId, h.actorScope, h.visibility, h.sourcePath, h.sourceType,
    h.commitHash, h.supersedesId, h.contradictsId, h.status⟩

theorem putReturns_eq_some_iff : putReturns embedText e embedding rows = some rows' ↔
    isNaN e.importance = false ∧ putMemory embedText (LastWrite.withStoredFloats e) embedding rows = rows' := by
  unfold putReturns
  by_cases h : isNaN e.importance = true
  · rw [if_pos h]
    simp [h]
  · rw [if_neg h, Option.some_inj]
    exact (and_iff_right (eq_false_of_ne_true h)).symm

/-- What is read after a put: the entry that was put, or the row with some of its columns. -/
theorem getMemory_put (hnul : NulFree e) (hput : putReturns embedText e embedding rows = some rows') :
    ∃ new : Row, new.entry = LastWrite.withStoredFloats e ∧
      getMemory e.key rows' = some (extractMemoryEntry
        (((rowOf e.key rows).map fun old => updateRow old new).getD new)) := by
  obtain ⟨-, rfl⟩ := putReturns_eq_some_iff.mp hput
  unfold putMemory
  rw [hnul.withStoredFloats.bound_eq, getMemory, cstr_of_not_mem hnul.key]
  exact ⟨_, rfl, congrArg (Option.map extractMemoryEntry) (rowOf_upsert ⟨LastWrite.withStoredFloats e, _⟩ rows)⟩

theorem sameKept_updateRow (old new : Row) : SameKept e (updateRow old new).entry ↔ SameKept e old.entry :=
  ⟨fun h => ⟨h.id, h.category, h.workspaceId, h.sessionId, h.actorScope, h.visibility, h.sourcePath, h.sourceType,
      h.commitHash, h.expiresAt⟩,
    fun h => ⟨h.id, h.category, h.workspaceId, h.sessionId, h.actorScope, h.visibility, h.sourcePath, h.sourceType,
      h.commitHash, h.expiresAt⟩⟩

/-- A row with the columns of the entry that an insert always writes is read as the entry when the others agree. -/
theorem sameEntry_extract_iff {r : Row} (himportance : isNaN e.importance = false) (hvalue : r.entry.value = e.value)
    (hconfidence : r.entry.confidence = readBack e.confidence) (hupdatedAt : r.entry.updatedAt = e.updatedAt)
    (himp : r.entry.importance = readBack e.importance) (hsupersedes : r.entry.supersedesId = e.supersedesId)
    (hcontradicts : r.entry.contradictsId = e.contradictsId) (hstatus : r.entry.status = e.status) :
    SameEntry e (extractMemoryEntry r) ↔ e.status ≠ [] ∧ isNaN e.confidence = false ∧ SameKept e r.entry := by
  have hfloat : floatEq e.confidence r.entry.confidence = !isNaN e.confidence := by rw [hconfidence, floatEq_readBack]
  have hread : (extractMemoryEntry r).status = e.status ↔ e.status ≠ [] := by
    show (if r.entry.status = [] then ascii "active" else r.entry.status) = e.status ↔ _
    rw [hstatus]
    split_ifs with hempty
    · rw [hempty]
      decide
    · exact iff_of_true rfl hempty
  constructor
  · intro h
    refine ⟨hread.mp h.status.symm, ?_, h.id, h.category, h.workspaceId, h.sessionId, h.actorScope, h.visibility,
      h.sourcePath, h.sourceType, h.commitHash, h.expiresAt⟩
    have hconf := h.confidence
    rw [show (extractMemoryEntry r).confidence = r.entry.confidence from rfl, hfloat, Bool.not_eq_true'] at hconf
    exact hconf
  · rintro ⟨hne, hnan, hkept⟩
    refine ⟨⟨hkept.id, hkept.category, hkept.workspaceId, hkept.sessionId, hkept.actorScope, hkept.visibility,
      hkept.sourcePath, hkept.sourceType, hkept.commitHash, hkept.expiresAt⟩, hvalue.symm, ?_, hupdatedAt.symm, ?_,
      hsupersedes.symm, hcontradicts.symm, (hread.mpr hne).symm⟩
    · exact hfloat.trans (by rw [hnan, Bool.not_false])
    · show floatEq e.importance r.entry.importance = true
      rw [himp, floatEq_readBack, himportance, Bool.not_false]

end Put

/-- **The entry is read as it was put** when its status is not empty, its confidence is a number, and a row that the
key had agrees with it in the columns that are kept; and only then. -/
theorem readsBack_iff (embedText : Bytes → List F32) (e : MemoryEntry) (embedding : List F32) (rows rows' : List Row)
    (hnul : NulFree e) (hput : putReturns embedText e embedding rows = some rows') :
    (∃ e', getMemory e.key rows' = some e' ∧ SameEntry e e') ↔
      e.status ≠ [] ∧ isNaN e.confidence = false ∧ ∀ old, rowOf e.key rows = some old → SameKept e old.entry := by
  obtain ⟨himportance, -⟩ := putReturns_eq_some_iff.mp hput
  obtain ⟨⟨_, emb⟩, rfl, hget⟩ := getMemory_put hnul hput
  simp only [hget, Option.some_inj, exists_eq_left']
  cases hold : rowOf e.key rows with
  | none =>
    rw [Option.map_none, Option.getD_none, sameEntry_extract_iff himportance rfl rfl rfl rfl rfl rfl rfl]
    refine and_congr_right fun _ => and_congr_right fun _ => ?_
    exact iff_of_true ⟨rfl, rfl, rfl, rfl, rfl, rfl, rfl, rfl, rfl, rfl⟩ (by simp)
  | some old =>
    have hread := sameEntry_extract_iff (r := updateRow old ⟨withStoredFloats e, emb⟩) himportance rfl rfl rfl rfl rfl
      rfl rfl
    rw [Option.map_some, Option.getD_some, hread]
    simp only [Option.some_inj, forall_eq', sameKept_updateRow]

/-- A fact about `alpha`, and the same key put again for `beta`. -/
def alphaFact : MemoryEntry := { key := ascii "db", value := ascii "postgres", workspaceId := ascii "alpha" }

def betaFact : MemoryEntry := { key := ascii "db", value := ascii "mysql", workspaceId := ascii "beta" }

theorem nulFree_alphaFact : NulFree alphaFact := by
  constructor <;> decide +kernel

theorem nulFree_betaFact : NulFree betaFact := by
  constructor <;> decide +kernel

/-- The table where the key has had another value, with an embedding. -/
def sqliteRows : List Row := [⟨{ alphaFact with value := ascii "sqlite", accessCount := 3 }, some [0x3F800000]⟩]

/-- The new value is read, and what else was put. -/
theorem readsBack_alphaFact :
    ∃ e', getMemory alphaFact.key (putMemory (fun _ => []) (withStoredFloats alphaFact) [] sqliteRows) = some e' ∧
      SameEntry alphaFact e' := by
  refine (readsBack_iff (fun _ => []) alphaFact [] sqliteRows _ nulFree_alphaFact (by decide +kernel)).mpr
    ⟨by decide +kernel, by decide +kernel, fun old hold => ?_⟩
  have hrow : rowOf alphaFact.key sqliteRows = sqliteRows.head? := by decide +kernel
  rw [hrow] at hold
  obtain rfl := Option.some.inj hold
  constructor <;> rfl

/-- The second put returns true, and the workspace that is read is still the first one. -/
theorem not_readsBack_betaFact :
    let rows := putMemory (fun _ => []) (withStoredFloats alphaFact) [] []
    NulFree betaFact ∧ ∃ rows', putReturns (fun _ => []) betaFact [] rows = some rows' ∧
      ¬ ∃ e', getMemory betaFact.key rows' = some e' ∧ SameEntry betaFact e' := by
  refine ⟨nulFree_betaFact, _, rfl, ?_⟩
  rintro ⟨e', hget, hsame⟩
  have hread : (getMemory betaFact.key (putMemory (fun _ => []) (withStoredFloats betaFact) []
      (putMemory (fun _ => []) (withStoredFloats alphaFact) [] []))).map (·.workspaceId) = some (ascii "alpha") := by
    decide +kernel
  rw [hget, Option.map_some, Option.some_inj, ← hsame.workspaceId] at hread
  exact absurd hread (by decide +kernel)

end DenseLite.Memory.LastWrite
