import DenseLite.Search.Engine

/-! # Exact symbols

A chunk whose symbol is the query is found by the exact channel, which goes first. Fusion takes it for a duplicate of an
earlier hit with lines in common, such as a class that mentions the query and stands before its methods, and the merged
result keeps the symbol of the earlier one. `returnsSymbols_iff` says when every such symbol is returned. -/

namespace DenseLite.Search.Symbols

open DenseLite.Lib.ByteStream DenseLite.Lib.Classes DenseLite.Infer.State
open DenseLite.CodeIndex.Chunker (StructuralChunk)
open DenseLite.Search.Fusion DenseLite.Search.Channels DenseLite.Search.Engine

/-- The name that the channels give a chunk. -/
def chunkIdentity (chunk : StructuralChunk) : Identity :=
  ⟨chunk.filePath ++ ascii ":" ++ ascii (toString chunk.startLine.toInt), .code, chunk.filePath, chunk.symbol,
    chunk.startLine.toUInt32, chunk.endLine.toUInt32⟩

/-- A hit for the chunk `a` takes up one for `b`: they begin on one line of a file, or have lines in common. -/
def swallows (a b : StructuralChunk) : Bool := sameIdentity (chunkIdentity a) (chunkIdentity b)

/-! ### Names of candidates -/

section Names

variable {K : Type} {query : Bytes} {chunks : List StructuralChunk}

/-- What a channel finds among chunks has the names of chunks. -/
theorem exists_chunk {p : Prop} [Decidable p] {found : StructuralChunk → Bool} {g : StructuralChunk → SearchResult K}
    (hg : ∀ chunk, identity (g chunk) = chunkIdentity chunk) {r : SearchResult K}
    (hr : r ∈ if p then [] else (chunks.filter found).map g) :
    ∃ chunk ∈ chunks, identity r = chunkIdentity chunk := by
  split_ifs at hr
  · exact absurd hr List.not_mem_nil
  · obtain ⟨chunk, hchunk, rfl⟩ := List.mem_map.mp hr
    exact ⟨chunk, (List.mem_filter.mp hchunk).1, hg chunk⟩

theorem map_identity_searchCode [Field K] (hquery : query ≠ []) (chunks : List StructuralChunk) :
    (searchCode (K := K) query chunks).map identity = (chunks.filter (exactHit query)).map chunkIdentity := by
  rw [searchCode, if_neg hquery, List.map_map]
  rfl

/-- A chunk is a duplicate of itself. -/
theorem sameIdentity_chunkIdentity (chunk : StructuralChunk) :
    sameIdentity (chunkIdentity chunk) (chunkIdentity chunk) = true := by
  refine if_pos ⟨fun hnil => ?_, rfl⟩
  have hcolon := List.append_eq_nil_iff.mp (List.append_eq_nil_iff.mp hnil).1
  exact absurd hcolon.2 (by decide)

theorem map_chunkIdentity_leaders (chunks : List StructuralChunk) :
    (leaders swallows chunks).map chunkIdentity = leaders sameIdentity (chunks.map chunkIdentity) := by
  have hswallows : ∀ a b, swallows a b = sameIdentity (chunkIdentity a) (chunkIdentity b) := fun _ _ => rfl
  exact map_leaders hswallows chunks

theorem map_identity_leaders (l : List (SearchResult K)) :
    (leaders isDuplicate l).map identity = leaders sameIdentity (l.map identity) := by
  have hdup : ∀ a b : SearchResult K, isDuplicate a b = sameIdentity (identity a) (identity b) := fun _ _ => rfl
  exact map_leaders hdup l

end Names

section Candidates

variable {K : Type} [Field K] [LinearOrder K] {eng : SearchEngine K} {query : Bytes} {topK : ℕ}

/-- The candidates in front of those of the vector index. -/
def earlier (eng : SearchEngine K) (query : Bytes) (topK : ℕ) : List (SearchResult K) :=
  searchCode query (codeChunks eng query) ++ searchChunks query (codeChunks eng query) (hundredths 10) ++
    lexicalMem eng query ++ searchAll query (codeChunks eng query) ++ vectorMem eng query topK

/-- A candidate that names a symbol is one of a chunk, if it is not one of the vector index. -/
theorem exists_chunk_of_mem_earlier {r : SearchResult K} (hr : r ∈ earlier eng query topK) (hname : r.symbolName ≠ []) :
    ∃ chunk ∈ codeChunks eng query, identity r = chunkIdentity chunk := by
  simp only [earlier, List.mem_append] at hr
  rcases hr with (((hr | hr) | hr) | hr) | hr
  · exact exists_chunk (fun _ => rfl) hr
  · exact exists_chunk (fun _ => rfl) hr
  · -- a memory names no symbol
    obtain ⟨item, hitem, rfl⟩ := List.mem_map.mp hr
    unfold searchTexts at hitem
    dsimp only at hitem
    split_ifs at hitem
    · exact absurd hitem List.not_mem_nil
    · obtain ⟨text, -, rfl⟩ := List.mem_map.mp hitem
      exact absurd rfl hname
  · exact exists_chunk (fun _ => rfl) hr
  · obtain ⟨hit, -, rfl⟩ := List.mem_map.mp hr
    exact absurd rfl hname

/-- A hit of the vector index that names the symbol begins a class. -/
def IndexNames (eng : SearchEngine K) (query : Bytes) (topK : ℕ) (symbol : Bytes) : Prop :=
  ∃ pre r post, vectorCode eng query topK = pre ++ r :: post ∧ r.symbolName = symbol ∧
    ∀ y ∈ leaders isDuplicate (earlier eng query topK ++ pre), isDuplicate y r = false

/-- A class is named by a symbol that the exact channel finds exactly when a chunk with this symbol is no duplicate of an
earlier hit, or a hit of the vector index names it. -/
theorem exists_leader_iff {chunk : StructuralChunk}
    (hexact : isExactSymbol query chunk.symbol = true) :
    (∃ i ∈ leaders sameIdentity ((candidates eng query topK).map identity), i.symbolName = chunk.symbol) ↔
      (∃ kept ∈ leaders swallows ((codeChunks eng query).filter (exactHit query)), kept.symbol = chunk.symbol) ∨
        IndexNames eng query topK chunk.symbol := by
  have hne : query ≠ [] ∧ chunk.symbol ≠ [] := by
    unfold isExactSymbol at hexact
    simp only [Bool.and_eq_true, decide_eq_true_eq] at hexact
    exact hexact.1
  have hfirst := map_identity_searchCode (K := K) hne.1 (codeChunks eng query)
  obtain ⟨rest, hrest⟩ : ∃ rest, earlier eng query topK = searchCode query (codeChunks eng query) ++ rest :=
    ⟨_, by simp only [earlier, List.append_assoc]; rfl⟩
  have hcandidates : (candidates eng query topK).map identity =
      (earlier eng query topK).map identity ++ (vectorCode eng query topK).map identity := List.map_append
  have hearlier : (earlier eng query topK).map identity =
      ((codeChunks eng query).filter (exactHit query)).map chunkIdentity ++ rest.map identity := by
    rw [hrest, List.map_append, hfirst]
  rw [hcandidates]
  constructor
  · rintro ⟨i, hi, hname⟩
    rcases mem_leaders_append.mp hi with hi | ⟨pre, post, hsplit, hlead⟩
    · -- it is the exact hit for some chunk, since what comes later for the chunk is a duplicate of that
      rw [hearlier] at hi
      rcases mem_leaders_append.mp hi with hi | ⟨pre, post, hsplit, hlead⟩
      · rw [← map_chunkIdentity_leaders] at hi
        obtain ⟨kept, hkept, rfl⟩ := List.mem_map.mp hi
        exact Or.inl ⟨kept, hkept, hname⟩
      · have hin : i ∈ (earlier eng query topK).map identity := by
          rw [hearlier, hsplit]
          exact List.mem_append_right _ (List.mem_append_right _ List.mem_cons_self)
        obtain ⟨r, hr, rfl⟩ := List.mem_map.mp hin
        have hsymbol : r.symbolName ≠ [] := fun hnil => hne.2 (hname.symm.trans hnil)
        obtain ⟨c, hc, hidentity⟩ := exists_chunk_of_mem_earlier hr hsymbol
        have hsame : c.symbol = chunk.symbol := by
          rw [hidentity] at hname
          exact hname
        have hhit : exactHit query c = true := by
          rw [exactHit, symbolHit, hsame, hexact, Bool.true_or, Bool.true_or]
        have hbefore : identity r ∈ ((codeChunks eng query).filter (exactHit query)).map chunkIdentity ++ pre := by
          rw [hidentity]
          exact List.mem_append_left _ (List.mem_map_of_mem (List.mem_filter.mpr ⟨hc, hhit⟩))
        obtain ⟨y, hy, hdup⟩ := exists_leader sameIdentity hbefore
        have hnot := hlead y hy
        rcases hdup with hdup | rfl
        · rw [hdup] at hnot
          cases hnot
        · rw [hidentity, sameIdentity_chunkIdentity] at hnot
          cases hnot
    · obtain ⟨pre, rest, hvector, rfl, hmap⟩ := List.map_eq_append_iff.mp hsplit
      obtain ⟨r, post, rfl, rfl, -⟩ := List.map_eq_cons_iff.mp hmap
      refine Or.inr ⟨pre, r, post, hvector, hname, fun y hy => hlead (identity y) ?_⟩
      rw [← List.map_append, ← map_identity_leaders]
      exact List.mem_map_of_mem hy
  · rintro (⟨kept, hkept, hname⟩ | ⟨pre, r, post, hsplit, hname, hlead⟩)
    · refine ⟨chunkIdentity kept, leaders_subset_append _ _ ?_, hname⟩
      rw [hearlier]
      refine leaders_subset_append _ _ ?_
      rw [← map_chunkIdentity_leaders]
      exact List.mem_map_of_mem hkept
    · refine ⟨identity r, mem_leaders_append.mpr (Or.inr ⟨pre.map identity, post.map identity, ?_, ?_⟩), hname⟩
      · rw [hsplit, List.map_append, List.map_cons]
      · intro i hi
        rw [← List.map_append, ← map_identity_leaders] at hi
        obtain ⟨y, hy, rfl⟩ := List.mem_map.mp hi
        exact hlead y hy

end Candidates

/-- **Every exact symbol is returned**, by a search that cuts nothing off, exactly when for each of them a chunk with the
symbol is no duplicate of an earlier hit, or a hit of the vector index names it. -/
theorem returnsSymbols_iff {K : Type} [Field K] [LinearOrder K] (eng : SearchEngine K) (query activeTask : Bytes)
    (topK : ℕ) (sorter : Sorter K) (htop : (candidates eng query topK).length ≤ topK) :
    (∀ chunk ∈ codeChunks eng query, isExactSymbol query chunk.symbol = true →
        ∃ r ∈ search eng query sorter activeTask topK, r.symbolName = chunk.symbol) ↔
      ∀ chunk ∈ codeChunks eng query, isExactSymbol query chunk.symbol = true →
        (∃ kept ∈ leaders swallows ((codeChunks eng query).filter (exactHit query)), kept.symbol = chunk.symbol) ∨
          IndexNames eng query topK chunk.symbol := by
  refine forall_congr' fun chunk => forall_congr' fun _ => forall_congr' fun hexact => ?_
  rw [← exists_leader_iff hexact, ← map_identity_classes activeTask]
  have hall : (classes eng query activeTask topK).length ≤ topK := length_classes_le.trans htop
  constructor
  · rintro ⟨r, hr, hname⟩
    exact ⟨identity r, List.mem_map_of_mem ((mem_search_iff hall).mp hr), hname⟩
  · rintro ⟨i, hi, hname⟩
    obtain ⟨r, hr, rfl⟩ := List.mem_map.mp hi
    exact ⟨r, (mem_search_iff hall).mpr hr, hname⟩

/-- A class with the symbol of its method in the text, and the method. -/
def classChunk : StructuralChunk where
  filePath := ascii "auth.cpp"
  symbol := ascii "Auth"
  parentSymbol := []
  language := ascii "cpp"
  startLine := 1
  endLine := 9
  sourceHash := 0
  content := ascii "class Auth { void Auth::login(); };"

def methodChunk : StructuralChunk where
  filePath := ascii "auth.cpp"
  symbol := ascii "Auth::login"
  parentSymbol := ascii "Auth"
  language := ascii "cpp"
  startLine := 3
  endLine := 3
  sourceHash := 0
  content := ascii "void Auth::login();"

/-- An engine with some chunks, and nothing else. -/
def chunkEngine (chunks : List StructuralChunk) : SearchEngine ℚ where
  customChunks := chunks
  findBySymbol := none
  memory := none
  vectorIndex := none
  workspaceId := ascii "default"
  embedText _ := []
  value _ := 0

/-- The method before its class: the method keeps its symbol. -/
theorem returnsSymbols_methodFirst :
    ∃ r ∈ search (chunkEngine [methodChunk, classChunk]) (ascii "Auth::login") (mergeSorter ℚ) [] 10,
      r.symbolName = methodChunk.symbol := by
  have hkept : ∀ chunk ∈ [methodChunk, classChunk], isExactSymbol (ascii "Auth::login") chunk.symbol = true →
      ∃ kept ∈ leaders swallows ([methodChunk, classChunk].filter (exactHit (ascii "Auth::login"))),
        kept.symbol = chunk.symbol := by
    decide +kernel
  exact (returnsSymbols_iff (chunkEngine [methodChunk, classChunk]) (ascii "Auth::login") [] 10 (mergeSorter ℚ)
    (by decide +kernel)).mpr (fun chunk hchunk hexact => Or.inl (hkept chunk hchunk hexact)) methodChunk
    List.mem_cons_self (by decide +kernel)

/-- The class before its method: the only result has the symbol of the class. -/
theorem not_returnsSymbols_classFirst :
    let eng := chunkEngine [classChunk, methodChunk]
    (candidates eng (ascii "Auth::login") 10).length ≤ 10 ∧
      methodChunk ∈ codeChunks eng (ascii "Auth::login") ∧
      isExactSymbol (ascii "Auth::login") methodChunk.symbol = true ∧
      ¬ ∃ r ∈ search eng (ascii "Auth::login") (mergeSorter ℚ) [] 10, r.symbolName = methodChunk.symbol := by
  intro eng
  have htop : (candidates eng (ascii "Auth::login") 10).length ≤ 10 := by decide +kernel
  refine ⟨htop, by decide +kernel, by decide +kernel, ?_⟩
  rintro ⟨r, hr, hname⟩
  have hr := List.mem_map_of_mem (f := identity) ((mem_search_iff (length_classes_le.trans htop)).mp hr)
  rw [map_identity_classes] at hr
  have hclass : ∀ i ∈ leaders sameIdentity ((candidates eng (ascii "Auth::login") 10).map identity),
      i.symbolName ≠ methodChunk.symbol := by
    decide +kernel
  exact hclass (identity r) hr hname

end DenseLite.Search.Symbols
