import DenseLite.CodeIndex.Indexer
import Mathlib.Data.List.Perm.Lattice

/-! # What the index answers

Over one database whose statements succeed, the table of symbols is what the last contents of the files are cut into:
after any calls of `index_file`, whatever was skipped, it has exactly the chunks of the content that each path was last
given with (`Answers`), and the queries return these. -/

namespace DenseLite.CodeIndex.Queries

open DenseLite.Lib.ByteStream DenseLite.Lib.KeyMap DenseLite.Lib.Live DenseLite.Lib.Transaction
open DenseLite.CodeIndex.Chunker DenseLite.CodeIndex.Indexer
open DenseLite.Infer.State (ascii)

/-! ### The queries -/

/-- A result of `get_file_symbols`: the rows of the path in the order of their first lines. -/
def IsFileSymbols (rows : List StructuralChunk) (filePath : Bytes) (out : List StructuralChunk) : Prop :=
  out.Perm (ofPath (cstr filePath) rows) ∧ out.Pairwise fun c d => c.startLine ≤ d.startLine

/-- A result of `find_by_symbol`: at most 50 of the rows whose symbol is like the query, in any order. -/
def IsBySymbol (like : Bytes → Bytes → Bool) (rows : List StructuralChunk) (query : Bytes)
    (out : List StructuralChunk) : Prop :=
  ∃ order : List StructuralChunk, out = order.take 50 ∧
    order.Perm (rows.filter fun r => like (cstr (ascii "%" ++ query ++ ascii "%")) r.symbol)

/-- `count`. -/
def count (rows : List StructuralChunk) : ℕ := rows.length

/-! ### The contents -/

/-- The content that each path was last given with. -/
def contentsOf (files : List (Bytes × Bytes × Bool)) : List (Bytes × Bytes) :=
  files.foldl (fun m f => set f.1 f.2.1 m) []

section Rows

variable (parse : Bytes → Bytes → Option Node) (stdHash : Bytes → UInt64)

/-- The chunks of a file as they are stored. -/
def storedChunks (filePath content : Bytes) : List StructuralChunk := (chunk parse stdHash filePath content).map stored

/-- The rows for some contents. -/
def rowsOf (m : List (Bytes × Bytes)) : List StructuralChunk := m.flatMap fun e => storedChunks parse stdHash e.1 e.2

variable {parse stdHash} {filePath content : Bytes}

theorem filePath_of_mem_storedChunks (hpath : 0 ∉ filePath) {r : StructuralChunk}
    (h : r ∈ storedChunks parse stdHash filePath content) : r.filePath = filePath := by
  obtain ⟨c, hc, rfl⟩ := List.mem_map.mp h
  show cstr c.filePath = filePath
  rw [filePath_of_mem_chunk hc, cstr_of_not_mem hpath]

/-- The rows that do not belong to a path. -/
theorem filter_rowsOf_ne : ∀ {m : List (Bytes × Bytes)}, (∀ e ∈ m, 0 ∉ e.1) →
    (rowsOf parse stdHash m).filter (fun r => r.filePath ≠ filePath) = rowsOf parse stdHash (erase filePath m)
  | [], _ => rfl
  | e :: m, h => by
    have he : ∀ r ∈ storedChunks parse stdHash e.1 e.2, r.filePath = e.1 := fun r hr =>
      filePath_of_mem_storedChunks (h e List.mem_cons_self) hr
    have hrest : (rowsOf parse stdHash m).filter (fun r => r.filePath ≠ filePath) =
        rowsOf parse stdHash (erase filePath m) := filter_rowsOf_ne fun x hx => h x (List.mem_cons_of_mem e hx)
    have hcons : rowsOf parse stdHash (e :: m) = storedChunks parse stdHash e.1 e.2 ++ rowsOf parse stdHash m :=
      List.flatMap_cons
    rw [hcons, List.filter_append, hrest]
    by_cases heq : e.1 = filePath
    · have hnone : (storedChunks parse stdHash e.1 e.2).filter (fun r => r.filePath ≠ filePath) = [] :=
        List.filter_eq_nil_iff.mpr fun r hr => by simp [he r hr, heq]
      have herase : erase filePath (e :: m) = erase filePath m := List.filter_cons_of_neg (by simp [heq])
      rw [hnone, herase, List.nil_append]
    · have hall : (storedChunks parse stdHash e.1 e.2).filter (fun r => r.filePath ≠ filePath) =
          storedChunks parse stdHash e.1 e.2 := List.filter_eq_self.mpr fun r hr => by simp [he r hr, heq]
      have herase : erase filePath (e :: m) = e :: erase filePath m := List.filter_cons_of_pos (by simp [heq])
      rw [hall, herase]
      rfl

/-- The rows of a path. -/
theorem ofPath_rowsOf : ∀ {m : List (Bytes × Bytes)}, (keys m).Nodup → (∀ e ∈ m, 0 ∉ e.1) →
    ofPath filePath (rowsOf parse stdHash m) = (find filePath m).elim [] (storedChunks parse stdHash filePath)
  | [], _, _ => rfl
  | e :: m, hnodup, h => by
    have he : ∀ r ∈ storedChunks parse stdHash e.1 e.2, r.filePath = e.1 := fun r hr =>
      filePath_of_mem_storedChunks (h e List.mem_cons_self) hr
    obtain ⟨hnot, hnodup⟩ := List.nodup_cons.mp hnodup
    have hrest : ofPath filePath (rowsOf parse stdHash m) = (find filePath m).elim [] (storedChunks parse stdHash filePath) :=
      ofPath_rowsOf hnodup fun x hx => h x (List.mem_cons_of_mem e hx)
    have hcons : rowsOf parse stdHash (e :: m) = storedChunks parse stdHash e.1 e.2 ++ rowsOf parse stdHash m :=
      List.flatMap_cons
    unfold ofPath at hrest ⊢
    rw [hcons, List.filter_append, hrest]
    obtain ⟨k, a⟩ := e
    by_cases heq : k = filePath
    · subst heq
      have hall : (storedChunks parse stdHash k a).filter (fun r => r.filePath = k) = storedChunks parse stdHash k a :=
        List.filter_eq_self.mpr fun r hr => by simp [he r hr]
      have hnone : find k m = none := find_eq_none_iff.mpr hnot
      simp [hall, hnone, find]
    · have hnone : (storedChunks parse stdHash k a).filter (fun r => r.filePath = filePath) = [] :=
        List.filter_eq_nil_iff.mpr fun r hr => by simp [he r hr, heq]
      rw [hnone, List.nil_append, find, if_neg heq]

end Rows

/-! ### Calls of `index_file` -/

section Runs

variable {δ γ : Type*} [DecidableEq δ] [DecidableEq γ] {file : γ → δ}
variable {parse : Bytes → Bytes → Option Node} {stdHash : Bytes → UInt64}

/-- A call of `index_file` whose statements are done. -/
def callOf (f : Bytes × Bytes × Bool) : Call γ := .indexFile f.1 f.2.1 f.2.2 {}

/-- The table has the rows for the contents, and the hashes are those of the contents. -/
structure Indexed (file : γ → δ) (parse : Bytes → Bytes → Option Node) (stdHash : Bytes → UInt64) (contents : Set Bytes)
    (s : CodeIndexer δ γ) (m : List (Bytes × Bytes)) : Prop where
  db : s.db.isSome = true
  rows : (table file s).Perm (rowsOf parse stdHash m)
  hashes : ∀ filePath, find filePath s.fileHashes = (find filePath m).map computeHash
  nodup : (keys m).Nodup
  plain : ∀ e ∈ m, 0 ∉ e.1
  within : ∀ e ∈ m, e.2 ∈ contents

theorem insertedFrom_done : ∀ (chunks : List StructuralChunk) (k : ℕ),
    insertedFrom (fun _ => .done) k chunks = chunks.map stored
  | [], _ => rfl
  | c :: cs, k => by rw [insertedFrom, if_pos rfl, insertedFrom_done cs, List.map_cons]

theorem noRollback_done : ({} : Statements).NoRollback :=
  ⟨by decide, by decide, fun _ => Outcome.noConfusion, by decide⟩

variable {contents : Set Bytes} {s : CodeIndexer δ γ} {m : List (Bytes × Bytes)}

/-- A file is indexed, or skipped because its content is the last one. -/
theorem Indexed.step (hinj : contents.InjOn computeHash) (h : Indexed file parse stdHash contents s m)
    (f : Bytes × Bytes × Bool) (hpath : 0 ∉ f.1) (hcontent : f.2.1 ∈ contents) :
    Indexed file parse stdHash contents (step file parse stdHash s (callOf f)) (set f.1 f.2.1 m) := by
  obtain ⟨filePath, content, force⟩ := f
  have hplain : ∀ e ∈ set filePath content m, 0 ∉ e.1 ∧ e.2 ∈ contents := fun e he => by
    rcases List.mem_cons.mp he with rfl | he
    · exact ⟨hpath, hcontent⟩
    · exact ⟨h.plain e (mem_erase.mp he).1, h.within e (mem_erase.mp he).1⟩
  by_cases hskip : force = false ∧ hasChanged filePath content s = false
  · -- the recorded hash is that of the content, so the content is the last one
    have hstep : Indexer.step file parse stdHash s (callOf (filePath, content, force)) = s := by
      show (indexFile file parse stdHash filePath content force {} s).1 = s
      rw [indexFile, if_pos hskip]
    have hlast : find filePath m = some content := by
      have hhash := hskip.2
      rw [hasChanged, h.hashes] at hhash
      cases hm : find filePath m with
      | none => simp [hm] at hhash
      | some last =>
        have heq : computeHash last = computeHash content := by simpa [hm] using hhash
        exact congrArg some (hinj (h.within _ (mem_of_find hm)) hcontent heq)
    rw [hstep]
    refine ⟨h.db, h.rows.trans ?_, fun path => ?_, nodup_keys_set h.nodup, fun e he => (hplain e he).1,
      fun e he => (hplain e he).2⟩
    · exact (perm_cons_erase h.nodup hlast).flatMap_right _
    · rw [h.hashes]
      by_cases heq : path = filePath
      · rw [heq, find_set_self, hlast]
      · rw [find_set_of_ne heq]
  · have hdb : (indexFile file parse stdHash filePath content force {} s).1.db = s.db := by
      rw [indexFile, if_neg hskip]
    have hinserted : inserted (chunk parse stdHash filePath content) {} s = storedChunks parse stdHash filePath content := by
      rw [inserted, if_pos ⟨h.db, rfl⟩]
      exact insertedFrom_done _ 0
    refine ⟨(congrArg Option.isSome hdb).trans h.db, ?_, fun path => ?_, nodup_keys_set h.nodup,
      fun e he => (hplain e he).1, fun e he => (hplain e he).2⟩
    · show (table file (indexFile file parse stdHash filePath content force {} s).1).Perm _
      have hold := (h.rows.filter fun r => r.filePath ≠ filePath)
      rw [filter_rowsOf_ne h.plain] at hold
      rw [table_indexFile noRollback_done hskip, if_pos rfl, cstr_of_not_mem hpath, hinserted]
      exact List.perm_append_comm.trans (hold.append_left _)
    · show find path (indexFile file parse stdHash filePath content force {} s).1.fileHashes = _
      rw [indexFile, if_neg hskip]
      by_cases heq : path = filePath
      · rw [heq, find_set_self, find_set_self]
        rfl
      · rw [find_set_of_ne heq, find_set_of_ne heq, h.hashes]

theorem indexed_run (hinj : contents.InjOn computeHash) : ∀ (files : List (Bytes × Bytes × Bool)) {s : CodeIndexer δ γ}
    {m : List (Bytes × Bytes)}, Indexed file parse stdHash contents s m →
    (∀ f ∈ files, 0 ∉ f.1 ∧ f.2.1 ∈ contents) →
    Indexed file parse stdHash contents ((files.map callOf).foldl (step file parse stdHash) s)
      (files.foldl (fun m f => set f.1 f.2.1 m) m)
  | [], _, _, h, _ => h
  | f :: files, _, _, h, hfiles => by
    obtain ⟨hpath, hcontent⟩ := hfiles f List.mem_cons_self
    exact indexed_run hinj files (h.step hinj f hpath hcontent) fun f' hf' => hfiles f' (List.mem_cons_of_mem f hf')

/-- The queries answer as a map from paths to contents would. -/
structure Answers (parse : Bytes → Bytes → Option Node) (stdHash : Bytes → UInt64) (m : List (Bytes × Bytes))
    (rows : List StructuralChunk) : Prop where
  file : ∀ filePath, 0 ∉ filePath → ∀ out, IsFileSymbols rows filePath out →
    out.Perm ((find filePath m).elim [] (storedChunks parse stdHash filePath))
  symbol : ∀ like query out, IsBySymbol like rows query out →
    (∀ r ∈ out, like (cstr (ascii "%" ++ query ++ ascii "%")) r.symbol = true ∧
      ∃ e ∈ m, r ∈ storedChunks parse stdHash e.1 e.2) ∧
    out.length = min 50 ((rowsOf parse stdHash m).countP fun r =>
      like (cstr (ascii "%" ++ query ++ ascii "%")) r.symbol)
  count : count rows = (m.map fun e => (chunk parse stdHash e.1 e.2).length).sum

theorem answers_of_perm (hnodup : (keys m).Nodup) (hplain : ∀ e ∈ m, 0 ∉ e.1) {rows : List StructuralChunk}
    (h : rows.Perm (rowsOf parse stdHash m)) : Answers parse stdHash m rows where
  file filePath hpath out hout := by
    have hfilter : (ofPath filePath rows).Perm (ofPath filePath (rowsOf parse stdHash m)) := h.filter _
    rw [← ofPath_rowsOf hnodup hplain]
    have hperm := hout.1
    rw [cstr_of_not_mem hpath] at hperm
    exact hperm.trans hfilter
  symbol like query out hout := by
    obtain ⟨order, rfl, horder⟩ := hout
    constructor
    · intro r hr
      obtain ⟨hmem, hlike⟩ := List.mem_filter.mp (horder.mem_iff.mp (List.mem_of_mem_take hr))
      obtain ⟨e, he, hr⟩ := List.mem_flatMap.mp (h.mem_iff.mp hmem)
      exact ⟨hlike, e, he, hr⟩
    · rw [List.length_take, horder.length_eq, ← List.countP_eq_length_filter, h.countP_eq]
  count := by
    rw [Queries.count, h.length_eq, rowsOf, List.length_flatMap]
    congr 1
    exact List.map_congr_left fun e _ => List.length_map _

/-- **The index answers for the last contents.** After any calls of `index_file` over an empty database, about contents
with different hashes, the queries return the chunks of the content that each path was last given with. -/
theorem answers_run (file : γ → δ) (parse : Bytes → Bytes → Option Node) (stdHash : Bytes → UInt64)
    (contents : Set Bytes) (hinj : contents.InjOn computeHash) (c : γ) (dbs : Databases δ γ StructuralChunk)
    (hempty : dbs.view file c = []) (files : List (Bytes × Bytes × Bool))
    (hfiles : ∀ f ∈ files, 0 ∉ f.1 ∧ f.2.1 ∈ contents) :
    Answers parse stdHash (contentsOf files)
      (table file ((files.map callOf).foldl (step file parse stdHash) (setSharedDb (some c) (fresh dbs)))) := by
  have hstart : Indexed file parse stdHash contents (setSharedDb (some c) (fresh dbs)) [] := by
    refine ⟨rfl, ?_, fun _ => rfl, by simp [keys], by simp, by simp⟩
    have htable : table file (setSharedDb (some c) (fresh dbs)) = dbs.view file c := rfl
    rw [htable, hempty]
    exact .nil
  have hrun := indexed_run hinj files hstart hfiles
  exact answers_of_perm hrun.nodup hrun.plain hrun.rows

/-- A script that is given again, another file, and the script with another content. -/
def scripts : List (Bytes × Bytes × Bool) :=
  [(ascii "a.py", ascii "x", false), (ascii "a.py", ascii "x", false), (ascii "b", ascii "x", false),
    (ascii "a.py", ascii "y", false)]

/-- The script is there with its last content. -/
theorem answers_run_script : contentsOf scripts = [(ascii "a.py", ascii "y"), (ascii "b", ascii "x")] ∧
    Answers (fun _ _ => none) (fun _ => 0) (contentsOf scripts) (table id ((scripts.map callOf).foldl
      (step id (fun _ _ => none) fun _ => 0) (setSharedDb (some false) (fresh emptyDbs)))) :=
  ⟨by decide +kernel, answers_run id (fun _ _ => none) (fun _ => 0) {ascii "x", ascii "y"} injOn_scripts false emptyDbs
    rfl scripts (by decide +kernel)⟩

end Runs

end DenseLite.CodeIndex.Queries
