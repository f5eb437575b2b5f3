import DenseLite.Memory.Cache
import Mathlib.Data.List.Sort
import Mathlib.Data.List.Lex

/-! # Recall and the memory context

`MemoryRecall::recall` takes what fits a query from the entries in RAM, then from the table, leaving out rows
whose key it has already. `assemble_memory_context` puts the working memory, all rules in RAM and what is
recalled into one text; the rules are taken with the filter that is the default, not with the one of the call.

What `LIKE` matches, the arithmetic of scores and the order of equal ones are parameters. -/

namespace DenseLite.Memory.Recall

open DenseLite.Lib.ByteStream DenseLite.Lib.KeyMap DenseLite.Lib.Live
open DenseLite.Infer.State DenseLite.Memory.Store DenseLite.Memory.Cache

/-! ### The entries in RAM -/

/-- The order of a `std::map`: by the bytes of the keys. -/
def keyLe (a b : Bytes × MemoryEntry) : Bool := a.1.map UInt8.toNat ≤ b.1.map UInt8.toNat

/-- `PersistentMemory::get_all`. -/
def getAll (filter : MemoryScopeFilter) (entries : Entries) : List MemoryEntry :=
  ((entries.mergeSort keyLe).map Prod.snd).filter filter.matches

/-- The name of a category in the context. -/
def catStr : MemoryCategory → Bytes
  | .rule => ascii "Rule"
  | .convention => ascii "Convention"
  | .discovery => ascii "Discovery"
  | .architecturalDecision => ascii "Decision"

/-- The line of a rule. -/
def ruleLine (e : MemoryEntry) : Bytes :=
  ascii "[" ++ catStr e.category ++ ascii "] " ++ e.key ++ ascii ": " ++ e.value ++ ascii "\n"

/-- `PersistentMemory::format_context_rules`. -/
def formatContextRules (filter : MemoryScopeFilter) (entries : Entries) : Bytes :=
  if entries = [] then []
  else
    let rules := getAll filter entries
    if rules = [] then [] else ascii "[Persistent System Knowledge & Rules]\n" ++ rules.flatMap ruleLine

/-! ### Scores -/

/-- `RecalledMemory`. -/
structure RecalledMemory where
  entry : MemoryEntry
  relevanceScore : F32
  matchSource : Bytes

/-- What recall computes with: the backend of the store, the quotient of two counts, the product of two
floats, and `std::sort` by descending score. -/
structure Recaller extends Backend where
  ratio : ℕ → ℕ → F32
  mul : F32 → F32 → F32
  sort : List RecalledMemory → List RecalledMemory
  sort_perm : ∀ results, (sort results).Perm results

/-- `LIKE` finds everything, scores are zero, and equal scores keep their order. -/
def plainRecaller : Recaller where
  like _ _ := true
  selectKeys _ _ := []
  search _ _ _ := []
  cosineSimilarity _ _ := 0
  ge _ _ := false
  gt _ _ := false
  ratio _ _ := 0
  mul _ _ := 0
  sort results := results
  sort_perm := List.Perm.refl

variable (b : Recaller)

/-- `std::isalnum`. -/
def isAlnum (c : UInt8) : Bool :=
  (0x30 ≤ c && c ≤ 0x39) || (0x41 ≤ c && c ≤ 0x5a) || (0x61 ≤ c && c ≤ 0x7a)

/-- The words of a query. -/
def words (query : Bytes) : List Bytes := (query.splitOnP fun c => !isAlnum c).filter (· ≠ [])

/-- `compute_lexical_similarity`. -/
def computeLexicalSimilarity (query target : Bytes) : F32 :=
  if query = [] ∨ target = [] then 0
  else if occursIn (lower query) (lower target) then 0x3F800000
  else
    let tokens := words (lower query)
    if tokens = [] then 0
    else b.ratio (tokens.countP fun tok => 3 ≤ tok.length && occursIn tok (lower target)) tokens.length

/-- The better score of key and value. -/
def scoreOf (query : Bytes) (e : MemoryEntry) : F32 :=
  let byKey := computeLexicalSimilarity b query e.key
  let byValue := computeLexicalSimilarity b query e.value
  if b.gt byValue byKey then byValue else byKey

/-! ### Recall -/

/-- What is recalled from RAM: the entries that score more than a tenth. -/
def recallCached (query : Bytes) (filter : MemoryScopeFilter) (entries : Entries) : List RecalledMemory :=
  ((getAll filter entries).filter fun e => b.gt (scoreOf b query e) 0x3DCCCCCD).map fun e =>
    { entry := e, relevanceScore := b.mul (scoreOf b query e) e.confidence
      matchSource := ascii "persistent_cache" }

/-- A row that is recalled, unless its key is there already; a score of zero counts as a half. -/
def pushStored (query : Bytes) (results : List RecalledMemory) (e : MemoryEntry) : List RecalledMemory :=
  if results.any fun r => r.entry.key = e.key then results
  else
    let score := scoreOf b query e
    results ++ [
      { entry := e, relevanceScore := b.mul (if b.gt score 0 then score else 0x3F000000) e.confidence
        matchSource := ascii "canonical_store" }]

/-- `MemoryRecall::recall`. -/
def memoryRecall (query : Bytes) (limit : ℕ) (filter : MemoryScopeFilter) (st : EngineState) : List RecalledMemory :=
  (b.sort ((queryMemoriesKeyword b.toBackend query limit filter st.rows).foldl (pushStored b query)
    (recallCached b query filter st.entries))).take limit

/-- The line of a recalled memory. -/
def recalledLine (rm : RecalledMemory) : Bytes :=
  ascii " - (" ++ rm.matchSource ++ ascii ") " ++ rm.entry.key ++ ascii ": " ++ rm.entry.value ++ ascii "\n"

/-- `MemoryRecall::format_recalled_context`. -/
def formatRecalledContext (memories : List RecalledMemory) : Bytes :=
  if memories = [] then []
  else ascii "[Recalled Relevant Memory Context]\n" ++ memories.flatMap recalledLine

/-! ### The context -/

/-- The memoryRecall limit of the context. -/
def contextLimit : ℕ := 5

/-- What the context recalls: nothing for an empty query. -/
def recalledFor (query : Bytes) (filter : MemoryScopeFilter) (st : EngineState) : List RecalledMemory :=
  if query = [] then [] else memoryRecall b query contextLimit filter st

/-- The section of the rules, which does not take the filter of the call. -/
def persistentSection (st : EngineState) : Bytes := formatContextRules {} st.entries

/-- The section of what is recalled. -/
def recalledSection (query : Bytes) (filter : MemoryScopeFilter) (st : EngineState) : Bytes :=
  formatRecalledContext (recalledFor b query filter st)

/-- A section with the empty line after it, if there is one. -/
def withNewline (text : Bytes) : Bytes := if text = [] then [] else text ++ ascii "\n"

/-- `assemble_memory_context`; `workingMemory` is the block of the working memory. -/
def assembleMemoryContext (workingMemory query : Bytes) (filter : MemoryScopeFilter) (st : EngineState) : Bytes :=
  withNewline workingMemory ++ withNewline (persistentSection st) ++ withNewline (recalledSection b query filter st)

/-- The entries whose lines the context has. -/
def printed (query : Bytes) (filter : MemoryScopeFilter) (st : EngineState) : List MemoryEntry :=
  getAll {} st.entries ++ (recalledFor b query filter st).map (·.entry)

/-! ### What is in the results -/

section Results

variable {b} {filter : MemoryScopeFilter} {entries : Entries} {e : MemoryEntry} {query : Bytes} {limit : ℕ}
  {st : EngineState} {rm : RecalledMemory}

theorem mem_getAll_iff : e ∈ getAll filter entries ↔ (∃ key, (key, e) ∈ entries) ∧ filter.matches e = true := by
  unfold getAll
  rw [List.mem_filter, List.mem_map]
  refine and_congr_left fun _ => ⟨?_, ?_⟩
  · rintro ⟨⟨key, e'⟩, hmem, rfl⟩
    exact ⟨key, List.mem_mergeSort.mp hmem⟩
  · rintro ⟨key, hmem⟩
    exact ⟨(key, e), List.mem_mergeSort.mpr hmem, rfl⟩

/-- A filter for active entries matches active ones only. -/
theorem status_of_matches (hactive : filter.activeOnly = true) (h : filter.matches e = true) :
    e.status = ascii "active" := by
  by_contra hne
  unfold MemoryScopeFilter.matches at h
  rw [if_pos (by simp [hactive, hne])] at h
  cases h

theorem mem_recallCached (h : rm ∈ recallCached b query filter entries) : rm.entry ∈ getAll filter entries := by
  obtain ⟨e, he, rfl⟩ := List.mem_map.mp h
  exact List.mem_of_mem_filter he

theorem mem_pushStored {results : List RecalledMemory} (h : rm ∈ pushStored b query results e) :
    rm ∈ results ∨ rm.entry = e := by
  unfold pushStored at h
  split_ifs at h
  · exact Or.inl h
  · rcases List.mem_append.mp h with h | h
    · exact Or.inl h
    · rw [List.mem_singleton.mp h]
      exact Or.inr rfl

theorem mem_foldl_pushStored : ∀ {es : List MemoryEntry} {results : List RecalledMemory},
    rm ∈ es.foldl (pushStored b query) results → rm ∈ results ∨ rm.entry ∈ es
  | [], _, h => Or.inl h
  | e :: es, results, h => by
    have hrest : rm ∈ pushStored b query results e ∨ rm.entry ∈ es := mem_foldl_pushStored h
    rcases hrest with h | h
    · rcases mem_pushStored h with h | h
      · exact Or.inl h
      · exact Or.inr (h ▸ List.mem_cons_self)
    · exact Or.inr (List.mem_cons_of_mem e h)

/-- **What is recalled** is in RAM, or a row that the query finds. -/
theorem mem_recall (h : rm ∈ memoryRecall b query limit filter st) :
    rm.entry ∈ getAll filter st.entries ∨ rm.entry ∈ queryMemoriesKeyword b.toBackend query limit filter st.rows := by
  unfold memoryRecall at h
  rcases mem_foldl_pushStored ((b.sort_perm _).mem_iff.mp (List.mem_of_mem_take h)) with h | h
  · exact Or.inl (mem_recallCached h)
  · exact Or.inr h

/-- A row that a query finds is active as it is stored, and matches the filter. -/
theorem mem_queryMemoriesKeyword {b : Backend} {rows : List Row}
    (h : e ∈ queryMemoriesKeyword b query limit filter rows) :
    ∃ r ∈ rows, r.entry.status = ascii "active" ∧ e = extractMemoryEntry r ∧ filter.matches e = true := by
  have hmem := List.mem_of_mem_take h
  simp only [List.mem_filter, List.mem_map] at hmem
  obtain ⟨⟨r, ⟨hr, hwhere⟩, rfl⟩, hm⟩ := hmem
  unfold keywordWhere at hwhere
  simp only [Bool.and_eq_true, decide_eq_true_eq] at hwhere
  exact ⟨r, hr, hwhere.1.1.2, rfl, hm⟩

end Results

end DenseLite.Memory.Recall
