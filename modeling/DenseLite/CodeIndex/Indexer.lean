import DenseLite.CodeIndex.Chunker
import DenseLite.Lib.Transaction
import Mathlib.Data.Set.Function

/-! # Incremental indexing

`CodeIndexer` keeps two states: the change tracker has the hash of the content that each path was last indexed with,
and a table of the database in use has the chunks. `index_file` records the hash whatever became of the statements,
and neither `init` nor `set_shared_db` forgets a hash. `index_faithful` says what has to hold of the calls so that a
file which is skipped is in the table as it is. -/

namespace DenseLite.CodeIndex.Indexer

open DenseLite.Lib.ByteStream DenseLite.Lib.KeyMap DenseLite.Lib.Live DenseLite.Lib.Runs DenseLite.Lib.Transaction
open DenseLite.CodeIndex.Chunker
open DenseLite.Infer.State (ascii)

/-! ### The indexer -/

/-- `compute_hash`, FNV-1a of 64 bits. -/
def computeHash (content : Bytes) : UInt64 :=
  content.foldl (fun hash c => (hash ^^^ c.toUInt64) * 1099511628211) 14695981039346656037

/-- A chunk as it is stored: a text ends at its first zero byte. -/
def stored (c : StructuralChunk) : StructuralChunk :=
  { c with
    filePath := cstr c.filePath
    symbol := cstr c.symbol
    parentSymbol := cstr c.parentSymbol
    language := cstr c.language
    content := cstr c.content }

/-- How the statements of an `index_file` end. -/
structure Statements where
  delete : Outcome := .done
  prepared : Bool := true
  begin : Outcome := .done
  insert : ℕ → Outcome := fun _ => .done
  commit : Outcome := .done

/-- An indexer and the databases: `file_hashes_`, `db_` and `owns_db_`. -/
structure CodeIndexer (δ γ : Type*) where
  fileHashes : List (Bytes × UInt64)
  db : Option γ
  ownsDb : Bool
  dbs : Databases δ γ StructuralChunk

/-- `IndexResult`. -/
structure IndexResult where
  filePath : Bytes
  wasSkipped : Bool := false
  chunkCount : ℕ := 0

/-- A call. A connection that `init` opens is a new one. -/
inductive Call (γ : Type*)
  | init (c : γ) (opened : Bool)
  | setSharedDb (c : Option γ)
  | indexFile (filePath content : Bytes) (force : Bool) (φ : Statements)

section Model

variable {δ γ : Type*} [DecidableEq δ] [DecidableEq γ] (file : γ → δ)
variable (parse : Bytes → Bytes → Option Node) (stdHash : Bytes → UInt64)

/-- The indexer that `CodeIndexer()` makes. -/
def fresh (dbs : Databases δ γ StructuralChunk) : CodeIndexer δ γ := ⟨[], none, false, dbs⟩

/-- `has_changed`. -/
def hasChanged (filePath content : Bytes) (s : CodeIndexer δ γ) : Bool :=
  (find filePath s.fileHashes).elim true fun hash => hash ≠ computeHash content

/-- The databases after `sqlite3_close` of an own connection. -/
def closed (s : CodeIndexer δ γ) : Databases δ γ StructuralChunk :=
  match s.ownsDb, s.db with
  | true, some c => s.dbs.rollback c
  | _, _ => s.dbs

/-- `SymbolIndex::init`. -/
def init (c : γ) (opened : Bool) (s : CodeIndexer δ γ) : CodeIndexer δ γ :=
  if opened then { s with db := some c, ownsDb := true, dbs := (closed s).rollback c }
  else { s with db := none, dbs := closed s }

/-- `SymbolIndex::set_shared_db`. -/
def setSharedDb (c : Option γ) (s : CodeIndexer δ γ) : CodeIndexer δ γ :=
  { s with db := c, ownsDb := false, dbs := closed s }

/-- `remove_file_symbols`. -/
def removeFileSymbols (filePath : Bytes) (outcome : Outcome) (c : γ) (dbs : Databases δ γ StructuralChunk) :
    Databases δ γ StructuralChunk :=
  dbs.execute file (List.filter fun r => r.filePath ≠ cstr filePath) c outcome

/-- The loop of `insert_chunks`. -/
def insertFrom (outcome : ℕ → Outcome) (c : γ) : ℕ → List StructuralChunk → Databases δ γ StructuralChunk →
    Databases δ γ StructuralChunk
  | _, [], dbs => dbs
  | k, r :: rs, dbs => insertFrom outcome c (k + 1) rs (dbs.execute file (· ++ [stored r]) c (outcome k))

/-- `insert_chunks`. -/
def insertChunks (chunks : List StructuralChunk) (φ : Statements) (c : γ) (dbs : Databases δ γ StructuralChunk) :
    Databases δ γ StructuralChunk :=
  if φ.prepared then (insertFrom file φ.insert c 0 chunks (dbs.begin file c φ.begin)).commit file c φ.commit else dbs

/-- `CodeIndexer::index_file`. -/
def indexFile (filePath content : Bytes) (force : Bool) (φ : Statements) (s : CodeIndexer δ γ) :
    CodeIndexer δ γ × IndexResult :=
  if force = false ∧ hasChanged filePath content s = false then
    (s, { filePath := filePath, wasSkipped := true })
  else
    let chunks := chunk parse stdHash filePath content
    let dbs := s.db.elim s.dbs fun c => removeFileSymbols file filePath φ.delete c s.dbs
    let dbs := if chunks = [] then dbs else s.db.elim dbs fun c => insertChunks file chunks φ c dbs
    ({ s with fileHashes := set filePath (computeHash content) s.fileHashes, dbs := dbs },
      { filePath := filePath, chunkCount := chunks.length })

/-- One call. -/
def step (s : CodeIndexer δ γ) : Call γ → CodeIndexer δ γ
  | .init c opened => init c opened s
  | .setSharedDb c => setSharedDb c s
  | .indexFile filePath content force φ => (indexFile file parse stdHash filePath content force φ s).1

/-! ### Faithful indexing -/

/-- The rows of a path. -/
def ofPath (filePath : Bytes) (rows : List StructuralChunk) : List StructuralChunk :=
  rows.filter fun r => r.filePath = filePath

/-- The table in use. -/
def table (s : CodeIndexer δ γ) : List StructuralChunk := s.db.elim [] fun c => s.dbs.view file c

/-- The rows have for the path exactly the chunks of the content. -/
def Holds (rows : List StructuralChunk) (filePath content : Bytes) : Prop :=
  (ofPath filePath rows).Perm (chunk parse stdHash filePath content)

/-- If the call is skipped, the table in use has exactly the chunks of the content. -/
def SkipsRightly (s : CodeIndexer δ γ) : Call γ → Prop
  | .indexFile filePath content force φ =>
    (indexFile file parse stdHash filePath content force φ s).2.wasSkipped = true →
      Holds parse stdHash (table file s) filePath content
  | _ => True

/-- The rows have, for each path, the chunks of the content that it would be skipped with. -/
def HoldsRecorded (contents : Set Bytes) (s : CodeIndexer δ γ) (rows : List StructuralChunk) : Prop :=
  ∀ filePath, ∀ content ∈ contents, hasChanged filePath content s = false → Holds parse stdHash rows filePath content

/-- Whatever call to `index_file` comes next, it is not skipped wrongly. -/
def Faithful (contents : Set Bytes) (s : CodeIndexer δ γ) : Prop :=
  HoldsRecorded parse stdHash contents s (table file s)

/-- No failure takes a transaction with it. -/
def Statements.NoRollback (φ : Statements) : Prop :=
  φ.delete ≠ .rolledBack ∧ φ.begin ≠ .rolledBack ∧ (∀ k, φ.insert k ≠ .rolledBack) ∧ φ.commit ≠ .rolledBack

/-- The rows that are left of a path. -/
def left (filePath : Bytes) (φ : Statements) (s : CodeIndexer δ γ) : List StructuralChunk :=
  if φ.delete = .done then [] else ofPath filePath (table file s)

/-- The chunks whose statement is done. -/
def insertedFrom (outcome : ℕ → Outcome) : ℕ → List StructuralChunk → List StructuralChunk
  | _, [] => []
  | k, r :: rs =>
    if outcome k = .done then stored r :: insertedFrom outcome (k + 1) rs else insertedFrom outcome (k + 1) rs

/-- The rows that are inserted for a file. -/
def inserted (chunks : List StructuralChunk) (φ : Statements) (s : CodeIndexer δ γ) : List StructuralChunk :=
  if s.db.isSome = true ∧ φ.prepared = true then insertedFrom φ.insert 0 chunks else []

/-- The database that is switched to has the chunks of what was recorded. A file that is indexed has a path without
zero byte, no failure takes a transaction with it, and what is left of its rows and what is inserted are together its
chunks. -/
def Harmless (contents : Set Bytes) (s : CodeIndexer δ γ) : Call γ → Prop
  | .init c opened => HoldsRecorded parse stdHash contents s (if opened then (closed s).committed (file c) else [])
  | .setSharedDb c => HoldsRecorded parse stdHash contents s (c.elim [] fun c => (closed s).view file c)
  | .indexFile filePath content force φ =>
    force = false ∧ hasChanged filePath content s = false ∨
      0 ∉ filePath ∧ φ.NoRollback ∧
        (left file filePath φ s ++ inserted (chunk parse stdHash filePath content) φ s).Perm
          (chunk parse stdHash filePath content)

end Model

/-! ### What a call does -/

section Proofs

variable {δ γ : Type*} [DecidableEq δ] [DecidableEq γ] {file : γ → δ}
variable {parse : Bytes → Bytes → Option Node} {stdHash : Bytes → UInt64}
variable {contents : Set Bytes} {s : CodeIndexer δ γ} {φ : Statements} {filePath content : Bytes} {force : Bool}

theorem view_insertFrom {outcome : ℕ → Outcome} (h : ∀ k, outcome k ≠ .rolledBack) {c : γ} :
    ∀ (rs : List StructuralChunk) (k : ℕ) (dbs : Databases δ γ StructuralChunk),
      (insertFrom file outcome c k rs dbs).view file c = dbs.view file c ++ insertedFrom outcome k rs
  | [], _, _ => (List.append_nil _).symm
  | r :: rs, k, dbs => by
    rw [insertFrom, view_insertFrom h rs (k + 1), insertedFrom]
    cases hk : outcome k with
    | done => rw [Databases.view_execute_done, if_pos rfl, List.append_assoc, List.singleton_append]
    | failed => rw [Databases.view_execute_failed, if_neg (by decide)]
    | rolledBack => exact absurd hk (h k)

theorem view_insertChunks (h : φ.NoRollback) {c : γ} {chunks : List StructuralChunk}
    {dbs : Databases δ γ StructuralChunk} : (insertChunks file chunks φ c dbs).view file c =
      dbs.view file c ++ if φ.prepared = true then insertedFrom φ.insert 0 chunks else [] := by
  obtain ⟨-, hbegin, hinsert, hcommit⟩ := h
  unfold insertChunks
  split_ifs
  · rw [Databases.view_commit hcommit, view_insertFrom hinsert, Databases.view_begin hbegin]
  · rw [List.append_nil]

theorem view_removeFileSymbols (h : φ.NoRollback) {c : γ} {dbs : Databases δ γ StructuralChunk} :
    (removeFileSymbols file filePath φ.delete c dbs).view file c =
      if φ.delete = .done then (dbs.view file c).filter fun r => r.filePath ≠ cstr filePath else dbs.view file c := by
  unfold removeFileSymbols
  cases hdelete : φ.delete with
  | done => rw [Databases.view_execute_done, if_pos rfl]
  | failed => rw [Databases.view_execute_failed, if_neg (by decide)]
  | rolledBack => exact absurd hdelete h.1

/-- The table in use after a file was indexed. -/
theorem table_indexFile (h : φ.NoRollback) (hchanged : ¬ (force = false ∧ hasChanged filePath content s = false)) :
    table file (indexFile file parse stdHash filePath content force φ s).1 =
      (if φ.delete = .done then (table file s).filter fun r => r.filePath ≠ cstr filePath else table file s) ++
        inserted (chunk parse stdHash filePath content) φ s := by
  unfold indexFile
  rw [if_neg hchanged]
  unfold table inserted
  cases hdb : s.db with
  | none => simp
  | some c =>
    simp only [Option.elim_some, Option.isSome_some, true_and]
    rw [← view_removeFileSymbols h]
    split_ifs with hnil hprepared
    · rw [hnil, insertedFrom, List.append_nil]
    · rw [List.append_nil]
    · rw [view_insertChunks h, if_pos ‹_›]
    · rw [view_insertChunks h, if_neg ‹_›]

omit [DecidableEq δ] [DecidableEq γ] in
theorem filePath_of_mem_inserted {chunks : List StructuralChunk} {r : StructuralChunk}
    (hchunks : ∀ c ∈ chunks, c.filePath = filePath) (h : r ∈ inserted chunks φ s) : r.filePath = cstr filePath := by
  have hmem : ∀ (chunks : List StructuralChunk) k, (∀ c ∈ chunks, c.filePath = filePath) →
      r ∈ insertedFrom φ.insert k chunks → r.filePath = cstr filePath := by
    intro chunks
    induction chunks with
    | nil => exact fun _ _ h => by simp [insertedFrom] at h
    | cons d ds ih =>
      intro k hds h
      rw [insertedFrom] at h
      have hrest := fun c hc => hds c (List.mem_cons_of_mem d hc)
      split_ifs at h
      · rcases List.mem_cons.mp h with rfl | h
        · exact congrArg cstr (hds d List.mem_cons_self)
        · exact ih (k + 1) hrest h
      · exact ih (k + 1) hrest h
  unfold inserted at h
  split_ifs at h
  · exact hmem chunks 0 hchunks h
  · cases h

variable (file parse stdHash) in
/-- The rows of the file that was indexed. -/
theorem ofPath_indexFile (h : φ.NoRollback) (hpath : 0 ∉ filePath)
    (hchanged : ¬ (force = false ∧ hasChanged filePath content s = false)) :
    ofPath filePath (table file (indexFile file parse stdHash filePath content force φ s).1) =
      left file filePath φ s ++ inserted (chunk parse stdHash filePath content) φ s := by
  rw [table_indexFile h hchanged, cstr_of_not_mem hpath]
  unfold ofPath left
  rw [List.filter_append]
  congr 1
  · split_ifs
    · rw [List.filter_filter, List.filter_eq_nil_iff]
      simp
    · rfl
  · refine List.filter_eq_self.mpr fun r hr => decide_eq_true ?_
    rw [filePath_of_mem_inserted (fun c hc => filePath_of_mem_chunk hc) hr, cstr_of_not_mem hpath]

/-- The rows of another file. -/
theorem ofPath_indexFile_of_ne (h : φ.NoRollback) (hpath : 0 ∉ filePath)
    (hchanged : ¬ (force = false ∧ hasChanged filePath content s = false)) {other : Bytes} (hne : other ≠ filePath) :
    ofPath other (table file (indexFile file parse stdHash filePath content force φ s).1) =
      ofPath other (table file s) := by
  rw [table_indexFile h hchanged, cstr_of_not_mem hpath]
  unfold ofPath
  rw [List.filter_append, (List.filter_eq_nil_iff (l := inserted _ φ s)).mpr, List.append_nil]
  · split_ifs
    · rw [List.filter_filter]
      refine List.filter_congr fun r _ => ?_
      by_cases heq : r.filePath = other
      · simp [heq, hne]
      · simp [heq]
    · rfl
  · intro r hr
    rw [filePath_of_mem_inserted (fun c hc => filePath_of_mem_chunk hc) hr, cstr_of_not_mem hpath]
    simp [hne.symm]

/-- What is recorded after a file was indexed. -/
theorem hasChanged_indexFile (hchanged : ¬ (force = false ∧ hasChanged filePath content s = false))
    (other content' : Bytes) :
    hasChanged other content' (indexFile file parse stdHash filePath content force φ s).1 = false ↔
      if other = filePath then computeHash content = computeHash content'
      else hasChanged other content' s = false := by
  unfold indexFile
  rw [if_neg hchanged]
  unfold hasChanged
  split_ifs with heq
  · rw [heq, find_set_self]
    simp
  · rw [find_set_of_ne heq]

/-- The calls are about contents that have different hashes. -/
def Call.Within (contents : Set Bytes) : Call γ → Prop
  | .indexFile _ content _ _ => content ∈ contents
  | _ => True

/-- A path has no zero byte, and no failure takes a transaction with it. -/
def Call.Plain : Call γ → Prop
  | .indexFile filePath _ _ φ => 0 ∉ filePath ∧ φ.NoRollback
  | _ => True

/-- After a call all that would be skipped is there if and only if the call is harmless. -/
theorem faithful_step_iff (hinj : contents.InjOn computeHash) (h : Faithful file parse stdHash contents s)
    {a : Call γ} (hwithin : a.Within contents) (hplain : a.Plain) :
    Faithful file parse stdHash contents (step file parse stdHash s a) ↔
      Harmless file parse stdHash contents s a := by
  cases a with
  | init c opened =>
    have htable : table file (init c opened s) = if opened then (closed s).committed (file c) else [] := by
      cases opened with
      | true => exact Databases.view_rollback
      | false => rfl
    have hrecorded : ∀ path content', hasChanged path content' (init c opened s) = hasChanged path content' s := by
      cases opened <;> exact fun _ _ => rfl
    unfold Faithful HoldsRecorded
    simp only [step, hrecorded, htable]
    rfl
  | setSharedDb c => rfl
  | indexFile filePath content force φ =>
    obtain ⟨hpath, hrollback⟩ := hplain
    by_cases hchanged : force = false ∧ hasChanged filePath content s = false
    · have hskip : step file parse stdHash s (.indexFile filePath content force φ) = s := by
        simp only [step, indexFile, if_pos hchanged]
      rw [hskip]
      exact iff_of_true h (Or.inl hchanged)
    · have hrows := ofPath_indexFile file parse stdHash hrollback hpath hchanged
      constructor
      · intro hfaithful
        have hholds := hfaithful filePath content hwithin
          ((hasChanged_indexFile hchanged filePath content).mpr (by rw [if_pos rfl]))
        unfold Holds at hholds
        rw [step, hrows] at hholds
        exact Or.inr ⟨hpath, hrollback, hholds⟩
      · rintro hharmless other content' hcontent' hrecorded
        obtain ⟨-, -, hperm⟩ := hharmless.resolve_left hchanged
        rw [step, hasChanged_indexFile hchanged] at hrecorded
        unfold Holds
        split_ifs at hrecorded with heq
        · obtain rfl := hinj hwithin hcontent' hrecorded
          rw [heq, step, hrows]
          exact hperm
        · rw [step, ofPath_indexFile_of_ne hrollback hpath hchanged heq]
          exact h other content' hcontent' hrecorded

omit [DecidableEq δ] [DecidableEq γ] in
theorem faithful_fresh (dbs : Databases δ γ StructuralChunk) :
    Faithful file parse stdHash contents (fresh dbs) := by
  intro filePath content _ hrecorded
  cases hrecorded

/-- A harmless call is of the kind that `faithful_step_iff` is about, or is skipped. -/
theorem faithful_of_harmless (hinj : contents.InjOn computeHash) (h : Faithful file parse stdHash contents s)
    {a : Call γ} (hwithin : a.Within contents) (hharmless : Harmless file parse stdHash contents s a) :
    SkipsRightly file parse stdHash s a ∧ Faithful file parse stdHash contents (step file parse stdHash s a) := by
  constructor
  · cases a with
    | indexFile filePath content force φ =>
      intro hskipped
      by_cases hchanged : force = false ∧ hasChanged filePath content s = false
      · exact h filePath content hwithin hchanged.2
      · rw [indexFile, if_neg hchanged] at hskipped
        cases hskipped
    | init | setSharedDb => trivial
  · cases a with
    | indexFile filePath content force φ =>
      rcases id hharmless with hchanged | ⟨hpath, hrollback, -⟩
      · rw [step, indexFile, if_pos hchanged]
        exact h
      · exact (faithful_step_iff hinj h hwithin ⟨hpath, hrollback⟩).mpr hharmless
    | init c opened => exact (faithful_step_iff (a := .init c opened) hinj h trivial trivial).mpr hharmless
    | setSharedDb c => exact (faithful_step_iff (a := .setSharedDb c) hinj h trivial trivial).mpr hharmless

end Proofs

/-- **A file that is skipped is in the table as it is**, in every run of harmless calls. If no path has a zero byte
and no failure takes a transaction with it, a run has only states in which no call would be skipped wrongly exactly
when its calls are harmless. -/
theorem index_faithful {δ γ : Type*} [DecidableEq δ] [DecidableEq γ] (file : γ → δ)
    (parse : Bytes → Bytes → Option Node) (stdHash : Bytes → UInt64) (contents : Set Bytes)
    (hinj : contents.InjOn computeHash) (dbs : Databases δ γ StructuralChunk) (calls : List (Call γ))
    (hwithin : ∀ a ∈ calls, a.Within contents) :
    (EveryStep (step file parse stdHash) (Harmless file parse stdHash contents) (fresh dbs) calls →
      EveryStep (step file parse stdHash) (SkipsRightly file parse stdHash) (fresh dbs) calls) ∧
    ((∀ a ∈ calls, a.Plain) →
      (EveryStep (step file parse stdHash)
          (fun s a => Faithful file parse stdHash contents (step file parse stdHash s a)) (fresh dbs) calls ↔
        EveryStep (step file parse stdHash) (Harmless file parse stdHash contents) (fresh dbs) calls)) := by
  constructor
  · intro hharmless
    refine (everyStep_of_invariant_mem (I := Faithful file parse stdHash contents) (Q := Call.Within contents)
      (fun s a h hw ha => ?_) calls (fresh dbs) (faithful_fresh dbs) hwithin hharmless).1
    exact faithful_of_harmless hinj h hw ha
  · intro hplain
    refine everyStep_iff_of_invariant (I := Faithful file parse stdHash contents)
      (Q := fun a => a.Within contents ∧ a.Plain) (fun s a h hQ => faithful_step_iff hinj h hQ.1 hQ.2)
      (fun s a h hQ ha => (faithful_step_iff hinj h hQ.1 hQ.2).mpr ha) calls (fresh dbs) (faithful_fresh dbs)
      fun a ha => ⟨hwithin a ha, hplain a ha⟩

/-! ### Two databases -/

/-- Two empty databases, each with its connection. -/
def emptyDbs : Databases Bool Bool StructuralChunk := ⟨fun _ => [], fun _ => none⟩

/-- A script, indexed with all statements done. -/
def indexScript : Call Bool := .indexFile (ascii "a.py") (ascii "x") false {}

theorem injOn_script : Set.InjOn computeHash {ascii "x"} := Set.injOn_singleton _ _

/-- The second database is empty, and the script is skipped. -/
theorem not_skipsRightly_secondDb : Set.InjOn computeHash {ascii "x"} ∧
    ¬ EveryStep (step id (fun _ _ => none) fun _ => 0) (SkipsRightly id (fun _ _ => none) fun _ => 0) (fresh emptyDbs)
      [.init false true, indexScript, .init true true, indexScript] := by
  refine ⟨injOn_script, ?_⟩
  rintro ⟨-, -, -, hskip, -⟩
  have hholds := hskip (by decide)
  unfold Holds at hholds
  exact absurd hholds (by decide)

/-- The script with another content. -/
def indexRevised : Call Bool := .indexFile (ascii "a.py") (ascii "y") false {}

theorem injOn_scripts : Set.InjOn computeHash {ascii "x", ascii "y"} :=
  Set.injOn_pair.mpr fun h => absurd h (by decide +kernel)

/-- In one database the script is skipped when it is the same, and indexed again when it is not. -/
theorem index_faithful_oneDb :
    EveryStep (step id (fun _ _ => none) fun _ => 0) (SkipsRightly id (fun _ _ => none) fun _ => 0) (fresh emptyDbs)
      [.init false true, indexScript, indexScript, indexRevised] := by
  refine (index_faithful id (fun _ _ => none) (fun _ => 0) {ascii "x", ascii "y"} injOn_scripts emptyDbs _ ?_).1
    ⟨?_, ?_, ?_, ?_, trivial⟩
  · simp [indexScript, indexRevised, Call.Within]
  · intro filePath content _ hrecorded
    cases hrecorded
  · exact Or.inr ⟨by decide, ⟨by decide, by decide, fun _ => Outcome.noConfusion, by decide⟩, by decide⟩
  · exact Or.inl ⟨rfl, by decide⟩
  · exact Or.inr ⟨by decide, ⟨by decide, by decide, fun _ => Outcome.noConfusion, by decide⟩, by decide⟩

end DenseLite.CodeIndex.Indexer
