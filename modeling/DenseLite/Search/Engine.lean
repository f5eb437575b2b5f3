import DenseLite.Search.Channels

/-! # The search engine

`SearchEngine::search` collects what the channels find, gives every candidate its relevance to the task, and fuses them;
`search_memory` takes the memories out of a search for twice as many results. -/

namespace DenseLite.Search.Engine

open DenseLite.Lib.ByteStream DenseLite.Lib.Classes DenseLite.Infer.State
open DenseLite.CodeIndex.Chunker (StructuralChunk)
open DenseLite.Memory.Store
open DenseLite.Search.Fusion DenseLite.Search.Channels

/-- The store of the memory engine: its keys are distinct, and its vector index gives every id once. -/
structure MemoryStore where
  backend : Backend
  indexed : Bool
  rows : List Row
  distinct : (rows.map fun r => r.entry.key).Nodup
  hitsDistinct : ∀ queryVec limit ids, ((backend.search queryVec limit ids).map Prod.fst).Nodup

/-- `SearchEngine`, with `embed_text` and the numbers that floats stand for. -/
structure SearchEngine (K : Type) where
  customChunks : List StructuralChunk
  findBySymbol : Option (Bytes → List StructuralChunk)
  memory : Option MemoryStore
  vectorIndex : Option (List F32 → ℕ → List (Bytes × F32))
  workspaceId : Bytes
  embedText : Bytes → List F32
  value : F32 → K

/-- `top_k * 2`, in 64 bits. -/
def twice (topK : ℕ) : ℕ := topK * 2 % 18446744073709551616

section Code

variable {K : Type} [Field K] [LinearOrder K] (eng : SearchEngine K) (query : Bytes)

/-- All available chunks. -/
def codeChunks : List StructuralChunk := eng.customChunks ++ (eng.findBySymbol.elim [] fun find => find query)

def scopeFilter : MemoryScopeFilter := { workspaceId := eng.workspaceId, activeOnly := true }

/-- The memories of the keyword query. -/
def keywordHits : List MemoryEntry :=
  eng.memory.elim [] fun store => queryMemoriesKeyword store.backend query 20 (scopeFilter eng) store.rows

/-- The memories of the vector query, with their similarities. -/
def vectorHits (topK : ℕ) : List (MemoryEntry × F32) :=
  eng.memory.elim [] fun store =>
    queryMemoriesVector store.backend store.indexed (eng.embedText query) (twice topK) 0x3E19999A (scopeFilter eng)
      store.rows

/-- The lexical candidate of a memory. -/
def lexicalMem : List (SearchResult K) :=
  (searchTexts query ((keywordHits eng query).map fun mem => (mem.key, mem.value)) (hundredths 10)).map fun item =>
    { item with source := .memory }

/-- The vector candidate of a memory. -/
def vectorResult (hit : MemoryEntry × F32) : SearchResult K :=
  { SearchResult.blank with
    id := if hit.1.id = [] then hit.1.key else hit.1.id
    source := .memory
    content := hit.1.value
    semanticSimilarity := eng.value hit.2
    timestamp := hit.1.updatedAt }

def vectorMem (topK : ℕ) : List (SearchResult K) := (vectorHits eng query topK).map (vectorResult eng)

/-- The candidate of a hit of the vector index: the first chunk that the indexer finds for its id, or the id itself. -/
def indexResult (hit : Bytes × F32) : SearchResult K :=
  let r := { SearchResult.blank with id := hit.1, source := .code, semanticSimilarity := eng.value hit.2 }
  match eng.findBySymbol.elim [] fun find => find hit.1 with
  | chunk :: _ => { r with content := chunk.content, filePath := chunk.filePath, symbolName := chunk.symbol }
  | [] => { r with content := ascii "Vector Match: " ++ hit.1, symbolName := hit.1 }

def vectorCode (topK : ℕ) : List (SearchResult K) :=
  if eng.embedText query = [] then []
  else eng.vectorIndex.elim [] fun index => (index (eng.embedText query) topK).map (indexResult eng)

/-- `all_candidates`, in their order. -/
def candidates (topK : ℕ) : List (SearchResult K) :=
  searchCode query (codeChunks eng query) ++ searchChunks query (codeChunks eng query) (hundredths 10) ++
    lexicalMem eng query ++ searchAll query (codeChunks eng query) ++ vectorMem eng query topK ++
    vectorCode eng query topK

/-- The candidates with their relevance to the task, if there is one. -/
def assignTask (activeTask : Bytes) (allCandidates : List (SearchResult K)) : List (SearchResult K) :=
  if activeTask = [] then allCandidates
  else allCandidates.map fun c => { c with taskRelevance := scoreContent (tokenize activeTask) c.content }

/-- `SearchEngine::search`. -/
def search (sorter : Sorter K) (activeTask : Bytes) (topK : ℕ) : List (SearchResult K) :=
  fuse sorter (assignTask activeTask (candidates eng query topK)) topK FusionWeights.default

/-- `SearchEngine::search_memory`; the loop stops after the result that reaches `top_k`. -/
def searchMemory (sorter : Sorter K) (topK : ℕ) : List (SearchResult K) :=
  ((search eng query sorter [] (twice topK)).filter fun r => r.source = .memory).take (max topK 1)

/-- The classes of the candidates, with their scores. -/
def classes (activeTask : Bytes) (topK : ℕ) : List (SearchResult K) :=
  scored FusionWeights.default (deduplicate (assignTask activeTask (candidates eng query topK)))

end Code

/-! ### Classes and results -/

section Results

variable {K : Type} [Field K] [LinearOrder K] {eng : SearchEngine K} {query activeTask : Bytes} {topK : ℕ}
  {sorter : Sorter K}

theorem map_identity_assignTask (activeTask : Bytes) (l : List (SearchResult K)) :
    (assignTask activeTask l).map identity = l.map identity := by
  unfold assignTask
  split_ifs
  · rfl
  · rw [List.map_map]
    rfl

/-- The classes have the names of the candidates that begin one. -/
theorem map_identity_classes (activeTask : Bytes) :
    (classes eng query activeTask topK).map identity = leaders sameIdentity ((candidates eng query topK).map identity) := by
  rw [← map_identity_assignTask activeTask (candidates eng query topK), ← map_collect byName, classes,
    scored, List.map_map]
  rfl

theorem search_eq : search eng query sorter activeTask topK = (sorter.run (classes eng query activeTask topK)).take topK :=
  fuse_eq

theorem length_classes_le : (classes eng query activeTask topK).length ≤ (candidates eng query topK).length := by
  have hlen : ((classes eng query activeTask topK).map identity).length =
      (leaders sameIdentity ((candidates eng query topK).map identity)).length :=
    congrArg List.length (map_identity_classes activeTask)
  rw [List.length_map] at hlen
  rw [hlen]
  exact (length_collect_le _ _ _).trans_eq (List.length_map _)

/-- A search that cuts nothing off returns all classes. -/
theorem mem_search_iff (htop : (classes eng query activeTask topK).length ≤ topK) {r : SearchResult K} :
    r ∈ search eng query sorter activeTask topK ↔ r ∈ classes eng query activeTask topK := by
  have hperm := (sorter.ranked (classes eng query activeTask topK)).perm
  rw [search_eq, List.take_of_length_le (hperm.length_eq.trans_le htop), hperm.mem_iff]

end Results

end DenseLite.Search.Engine
