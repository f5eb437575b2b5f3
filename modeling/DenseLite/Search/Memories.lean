import DenseLite.Search.Engine

/-! # Memories among the results

A memory can be found twice: the lexical channel names it by its key, the vector channel by its id, or by its key if it
has none. Fusion goes by the names, so it merges the two only if they are the same and not empty. `onePerMemory_iff` says
when no memory is returned twice, and `notStarved_iff` when `search_memory` returns as many memories as it should. -/

namespace DenseLite.Search.Memories

open DenseLite.Lib.ByteStream DenseLite.Lib.Classes DenseLite.Lib.Ranking DenseLite.Infer.State
open DenseLite.CodeIndex.Chunker (StructuralChunk)
open DenseLite.Memory.Store
open DenseLite.Search.Fusion DenseLite.Search.Channels DenseLite.Search.Engine

/-! ### What the store returns -/

section Store

variable {b : Backend} {rows : List Row} {filter : MemoryScopeFilter} {limit : ℕ}

/-- The keyword query returns every key once. -/
theorem nodup_queryMemoriesKeyword (hrows : (rows.map fun r => r.entry.key).Nodup) (query : Bytes) :
    ((queryMemoriesKeyword b query limit filter rows).map (·.key)).Nodup := by
  refine List.Nodup.sublist (((List.take_sublist _ _).trans List.filter_sublist).map _) ?_
  rw [List.map_map]
  exact hrows.sublist (List.filter_sublist.map _)

theorem key_of_found {entries : List MemoryEntry} {id : Bytes} {x : F32} {p : Prop} [Decidable p]
    {e : MemoryEntry × F32}
    (h : (if p then (entries.find? fun e => e.key = id).map fun e => (e, x) else none) = some e) : e.1.key = id := by
  split_ifs at h
  obtain ⟨found, hfound, rfl⟩ := Option.map_eq_some_iff.mp h
  simpa using List.find?_some hfound

theorem key_of_scanned {queryVec : List F32} {threshold : F32} {r : Row} {e : MemoryEntry × F32}
    (h : (if filter.matches (extractMemoryEntry r) then
      match r.embedding with
      | some vec =>
        let sim := b.cosineSimilarity queryVec vec
        if vec ≠ [] ∧ b.ge sim threshold then some (extractMemoryEntry r, sim) else none
      | none => none
    else none) = some e) : e.1.key = r.entry.key := by
  split_ifs at h
  cases hvec : r.embedding with
  | none =>
    rw [hvec] at h
    cases h
  | some vec =>
    rw [hvec] at h
    dsimp only at h
    split_ifs at h
    cases h
    rfl

/-- The vector query returns every key once. -/
theorem nodup_queryMemoriesVector (hrows : (rows.map fun r => r.entry.key).Nodup)
    (hhits : ∀ queryVec limit ids, ((b.search queryVec limit ids).map Prod.fst).Nodup) (indexed : Bool)
    (queryVec : List F32) (threshold : F32) :
    ((queryMemoriesVector b indexed queryVec limit threshold filter rows).map (·.1.key)).Nodup := by
  unfold queryMemoriesVector
  split_ifs
  · exact .nil
  · refine (List.pairwise_map.mpr (List.pairwise_filterMap.mpr ?_)).sublist ((List.take_sublist _ _).map _)
    refine (List.pairwise_map.mp (hhits queryVec limit _)).imp fun {h h'} hne e he e' he' heq => hne ?_
    rw [← key_of_found he, ← key_of_found he', heq]
  · refine List.Nodup.sublist ((List.take_sublist _ _).map _) ?_
    rw [((List.mergeSort_perm _ _).map _).nodup_iff]
    refine List.pairwise_map.mpr (List.pairwise_filterMap.mpr ?_)
    refine (List.pairwise_map.mp hrows).imp fun {r r'} hne e he e' he' heq => hne ?_
    rw [← key_of_scanned he, ← key_of_scanned he', heq]

end Store

section Code

variable {K : Type} [Field K] [LinearOrder K] (eng : SearchEngine K) (query activeTask : Bytes) (topK : ℕ) (key : Bytes)

/-- The memories of the store. -/
def memoryRows : List Row := eng.memory.elim [] MemoryStore.rows

/-- The candidates of the memory with a key. -/
def candidatesOf : List (SearchResult K) :=
  (lexicalMem eng query).filter (fun c => c.id = key) ++
    ((vectorHits eng query topK).filter fun hit => hit.1.key = key).map (vectorResult eng)

/-- The result is for the memory with the key: it is a duplicate of a candidate of it, or was begun by one. -/
def standsFor (r : SearchResult K) : Bool :=
  (candidatesOf eng query topK key).any fun c => isDuplicate r c || identity r = identity c

/-- No memory of the store is returned twice, whatever the order of equal scores. -/
def OnePerMemory : Prop :=
  ∀ sorter : Sorter K, ∀ row ∈ memoryRows eng,
    (search eng query sorter activeTask topK).countP (standsFor eng query topK row.entry.key) ≤ 1

/-- Both channels find the memory, under different names or under the empty one. -/
def Twofold : Prop :=
  key ∈ (lexicalMem eng query).map (fun c => c.id) ∧
    ∃ hit ∈ vectorHits eng query topK, hit.1.key = key ∧ ((vectorResult eng hit).id ≠ key ∨ key = [])

/-- There is no place for two results of the memory: there is at most one place, or another class `x` such that those as
good as `x` take all places but one, and at most one of the two is as good. -/
def Crowded : Prop :=
  topK ≤ 1 ∨ ∃ x ∈ classes eng query activeTask topK, standsFor eng query topK key x = false ∧
    ((classes eng query activeTask topK).countP fun y =>
      standsFor eng query topK key y && decide (x.finalScore ≤ y.finalScore)) ≤ 1 ∧
    topK ≤ ((classes eng query activeTask topK).countP fun y =>
      !standsFor eng query topK key y && decide (x.finalScore ≤ y.finalScore)) + 1

end Code

/-! ### Names -/

/-- The identity of a candidate of a memory. -/
def memoryIdentity (name : Bytes) : Identity := ⟨name, .memory, [], [], 0, 0⟩

/-- A class with this identity has the candidates of that name. -/
def Names (name : Bytes) (i : Identity) : Prop := if name = [] then i = memoryIdentity [] else i.id = name

instance (name : Bytes) (i : Identity) : Decidable (Names name i) := by
  unfold Names
  infer_instance

theorem names_iff {name : Bytes} {i : Identity} :
    (sameIdentity i (memoryIdentity name) || i = memoryIdentity name) = true ↔ Names name i := by
  have hsame : sameIdentity i (memoryIdentity name) = true ↔ i.id ≠ [] ∧ i.id = name := by
    unfold sameIdentity memoryIdentity
    dsimp only
    split_ifs with hid hpath
    · exact iff_of_true rfl hid
    · exact absurd hpath.2.2 hpath.2.1
    · exact iff_of_false (fun h => h) hid
  rw [Bool.or_eq_true, hsame, decide_eq_true_eq]
  unfold Names
  split_ifs with hname
  · subst hname
    exact or_iff_right fun h => h.1 h.2
  · constructor
    · rintro (h | rfl)
      · exact h.2
      · rfl
    · rintro rfl
      exact Or.inl ⟨hname, rfl⟩

section Leaders

variable {ids : List Identity}

/-- At most one class has the candidates of a name that is not empty. -/
theorem countP_names_le_one {name : Bytes} (hname : name ≠ []) :
    (leaders sameIdentity ids).countP (fun i => Names name i) ≤ 1 := by
  by_contra hmany
  rw [List.countP_eq_length_filter] at hmany
  have hpairs := (pairwise_leaders sameIdentity ids).filter (fun i => decide (Names name i))
  match hfound : (leaders sameIdentity ids).filter fun i => decide (Names name i) with
  | [] => rw [hfound] at hmany; exact hmany (Nat.zero_le _)
  | [i] => rw [hfound] at hmany; exact hmany le_rfl
  | i :: j :: rest =>
    rw [hfound] at hpairs
    have hid : ∀ k ∈ i :: j :: rest, k.id = name := fun k hk => by
      rw [← hfound, List.mem_filter, decide_eq_true_eq, Names, if_neg hname] at hk
      exact hk.2
    have hi := hid i List.mem_cons_self
    have hj := hid j (List.mem_cons_of_mem i List.mem_cons_self)
    have hdup : sameIdentity i j = true := if_pos ⟨hi ▸ hname, hi.trans hj.symm⟩
    rw [(List.pairwise_cons.mp hpairs).1 j List.mem_cons_self] at hdup
    cases hdup

/-- The empty name is merged with nothing. -/
theorem countP_names_nil : (leaders sameIdentity ids).countP (fun i => Names [] i) = ids.count (memoryIdentity []) := by
  have hnever : ∀ i, sameIdentity i (memoryIdentity []) = false := by
    intro i
    unfold sameIdentity memoryIdentity
    dsimp only
    split_ifs with hid hpath
    · exact absurd hid.2 hid.1
    · exact absurd hpath.2.2 hpath.2.1
    · rfl
  rw [← count_leaders hnever ids, List.count]
  refine List.countP_congr fun i _ => ?_
  simp [Names]

/-- A candidate of a memory has a class. -/
theorem exists_names {name : Bytes} (h : memoryIdentity name ∈ ids) :
    ∃ i ∈ leaders sameIdentity ids, Names name i := by
  obtain ⟨i, hi, hsame⟩ := exists_leader sameIdentity h
  refine ⟨i, hi, names_iff.mp ?_⟩
  rw [Bool.or_eq_true, decide_eq_true_eq]
  exact hsame

end Leaders

/-! ### The candidates of a memory -/

section Candidates

variable {K : Type}

theorem nodup_vectorHits (eng : SearchEngine K) (query : Bytes) (topK : ℕ) :
    ((vectorHits eng query topK).map (·.1.key)).Nodup := by
  unfold vectorHits
  cases eng.memory with
  | none => exact .nil
  | some store => exact nodup_queryMemoriesVector store.distinct store.hitsDistinct _ _ _

theorem source_of_chunks {p : Prop} [Decidable p] {chunks : List StructuralChunk} {found : StructuralChunk → Bool}
    {g : StructuralChunk → SearchResult K} (hg : ∀ chunk, (g chunk).source = .code) {c : SearchResult K}
    (hc : c ∈ if p then [] else (chunks.filter found).map g) : c.source = .code := by
  split_ifs at hc
  · exact absurd hc List.not_mem_nil
  · obtain ⟨chunk, -, rfl⟩ := List.mem_map.mp hc
    exact hg chunk

theorem countP_code {l : List (SearchResult K)} (hl : ∀ c ∈ l, c.source = .code) :
    l.countP (fun c => identity c = memoryIdentity []) = 0 := by
  refine List.countP_eq_zero.mpr fun c hc h => ?_
  have hsource : c.source = .memory := congrArg Identity.source (of_decide_eq_true h)
  rw [hl c hc] at hsource
  cases hsource

variable [Field K] {eng : SearchEngine K} {query activeTask : Bytes} {topK : ℕ} {key : Bytes}

theorem source_of_vectorCode {c : SearchResult K} (hc : c ∈ vectorCode eng query topK) : c.source = .code := by
  unfold vectorCode at hc
  split_ifs at hc
  · exact absurd hc List.not_mem_nil
  · cases hindex : eng.vectorIndex with
    | none =>
      rw [hindex] at hc
      exact absurd hc List.not_mem_nil
    | some index =>
      rw [hindex] at hc
      obtain ⟨hit, -, rfl⟩ := List.mem_map.mp hc
      unfold indexResult
      dsimp only
      split
      · rfl
      · rfl

theorem key_of_id_nil {hit : MemoryEntry × F32} (h : (vectorResult eng hit).id = []) : hit.1.key = [] := by
  have hid : (if hit.1.id = [] then hit.1.key else hit.1.id) = [] := h
  split_ifs at hid with hnil
  · exact hid
  · exact absurd hid hnil

/-- No more than one candidate of the vector channel has the empty name; its key is empty too. -/
theorem countP_vectorHits_nil_le (eng : SearchEngine K) (query : Bytes) (topK : ℕ) :
    ((vectorHits eng query topK).countP fun hit => (vectorResult eng hit).id = []) ≤
    ((vectorHits eng query topK).map (·.1.key)).count [] := by
  rw [List.count, List.countP_map]
  refine List.countP_mono_left fun hit _ hnil => ?_
  have hkey := key_of_id_nil (of_decide_eq_true hnil)
  simp [hkey]

variable [LinearOrder K]

theorem identity_lexicalMem {c : SearchResult K} (hc : c ∈ lexicalMem eng query) : identity c = memoryIdentity c.id := by
  obtain ⟨item, hitem, rfl⟩ := List.mem_map.mp hc
  unfold searchTexts at hitem
  dsimp only at hitem
  split_ifs at hitem
  · exact absurd hitem List.not_mem_nil
  · obtain ⟨text, -, rfl⟩ := List.mem_map.mp hitem
    rfl

/-- The lexical candidates have distinct names. -/
theorem nodup_lexicalMem (eng : SearchEngine K) (query : Bytes) : ((lexicalMem eng query).map fun c => c.id).Nodup := by
  have hkeys : ((keywordHits eng query).map (·.key)).Nodup := by
    unfold keywordHits
    cases eng.memory with
    | none => exact .nil
    | some store => exact nodup_queryMemoriesKeyword store.distinct query
  rw [lexicalMem, List.map_map]
  unfold searchTexts
  dsimp only
  split_ifs
  · exact .nil
  · rw [List.map_map]
    have hsub := (List.filter_sublist (l := (keywordHits eng query).map fun mem => (mem.key, mem.value))
      (p := fun item => decide ((hundredths 10 : K) ≤ scoreContent (tokenize query) item.2))).map Prod.fst
    rw [List.map_map (l := keywordHits eng query)] at hsub
    exact hkeys.sublist hsub

theorem memoryIdentity_inj {name name' : Bytes} : memoryIdentity name = memoryIdentity name' ↔ name = name' :=
  ⟨congrArg Identity.id, congrArg memoryIdentity⟩

/-- The candidates with the empty name. -/
theorem count_memoryIdentity_nil : ((candidates eng query topK).map identity).count (memoryIdentity []) =
    ((lexicalMem eng query).map fun c => c.id).count [] +
      (vectorHits eng query topK).countP fun hit => (vectorResult eng hit).id = [] := by
  have hlexical : (lexicalMem eng query).countP (fun c => identity c = memoryIdentity []) =
      ((lexicalMem eng query).map fun c => c.id).count [] := by
    rw [List.count, List.countP_map]
    refine List.countP_congr fun c hc => ?_
    rw [identity_lexicalMem hc]
    simp [memoryIdentity_inj]
  have hvector : (vectorMem eng query topK).countP (fun c => identity c = memoryIdentity []) =
      (vectorHits eng query topK).countP fun hit => (vectorResult eng hit).id = [] := by
    rw [vectorMem, List.countP_map]
    refine List.countP_congr fun hit _ => ?_
    show decide (memoryIdentity (vectorResult eng hit).id = memoryIdentity []) = true ↔ _
    rw [decide_eq_true_eq, decide_eq_true_eq, memoryIdentity_inj]
  have hexact : (searchCode (K := K) query (codeChunks eng query)).countP (fun c => identity c = memoryIdentity []) = 0 :=
    countP_code fun c hc => source_of_chunks (fun _ => rfl) hc
  have hchunks : (searchChunks (K := K) query (codeChunks eng query) (hundredths 10)).countP
      (fun c => identity c = memoryIdentity []) = 0 :=
    countP_code fun c hc => source_of_chunks (fun _ => rfl) hc
  have hall : (searchAll (K := K) query (codeChunks eng query)).countP (fun c => identity c = memoryIdentity []) = 0 :=
    countP_code fun c hc => source_of_chunks (fun _ => rfl) hc
  have hindex : (vectorCode eng query topK).countP (fun c => identity c = memoryIdentity []) = 0 :=
    countP_code fun c hc => source_of_vectorCode hc
  have hcount : ((candidates eng query topK).map identity).count (memoryIdentity []) =
      (candidates eng query topK).countP fun c => identity c = memoryIdentity [] := by
    rw [List.count, List.countP_map]
    refine List.countP_congr fun c _ => ?_
    simp
  rw [hcount, candidates]
  simp only [List.countP_append, hexact, hchunks, hall, hindex, hlexical, hvector]
  omega

/-- The results that stand for a memory: those with its key, if the lexical channel finds it, and those with the name
that the vector channel gives it. -/
theorem standsFor_iff {r : SearchResult K} : standsFor eng query topK key r = true ↔
    key ∈ (lexicalMem eng query).map (fun c => c.id) ∧ Names key (identity r) ∨
      ∃ hit ∈ vectorHits eng query topK, hit.1.key = key ∧ Names (vectorResult eng hit).id (identity r) := by
  unfold standsFor candidatesOf
  rw [List.any_append, Bool.or_eq_true, List.any_eq_true, List.any_eq_true]
  refine or_congr ?_ ?_
  · constructor
    · rintro ⟨c, hc, hsame⟩
      obtain ⟨hc, hid⟩ := List.mem_filter.mp hc
      have hid : c.id = key := of_decide_eq_true hid
      have hsame : (sameIdentity (identity r) (identity c) || identity r = identity c) = true := hsame
      rw [identity_lexicalMem hc, hid] at hsame
      exact ⟨List.mem_map.mpr ⟨c, hc, hid⟩, names_iff.mp hsame⟩
    · rintro ⟨hkey, hnames⟩
      obtain ⟨c, hc, rfl⟩ := List.mem_map.mp hkey
      refine ⟨c, List.mem_filter.mpr ⟨hc, decide_eq_true rfl⟩, ?_⟩
      show (sameIdentity (identity r) (identity c) || identity r = identity c) = true
      rw [identity_lexicalMem hc]
      exact names_iff.mpr hnames
  · constructor
    · rintro ⟨c, hc, hsame⟩
      obtain ⟨hit, hhit, rfl⟩ := List.mem_map.mp hc
      obtain ⟨hhit, hkey⟩ := List.mem_filter.mp hhit
      exact ⟨hit, hhit, of_decide_eq_true hkey, names_iff.mp hsame⟩
    · rintro ⟨hit, hhit, hkey, hnames⟩
      exact ⟨_, List.mem_map_of_mem (List.mem_filter.mpr ⟨hhit, decide_eq_true hkey⟩), names_iff.mpr hnames⟩

/-- The classes of a name. -/
theorem countP_names_classes (name : Bytes) :
    (classes eng query activeTask topK).countP (fun r => Names name (identity r)) =
      (leaders sameIdentity ((candidates eng query topK).map identity)).countP fun i => Names name i := by
  rw [← map_identity_classes activeTask, List.countP_map]
  rfl

theorem exists_class (activeTask : Bytes) {name : Bytes} {c : SearchResult K} (hc : c ∈ candidates eng query topK)
    (hname : identity c = memoryIdentity name) :
    ∃ r ∈ classes eng query activeTask topK, Names name (identity r) := by
  have hin : memoryIdentity name ∈ (candidates eng query topK).map identity := by
    rw [← hname]
    exact List.mem_map_of_mem hc
  obtain ⟨i, hi, hnames⟩ := exists_names hin
  rw [← map_identity_classes activeTask] at hi
  obtain ⟨r, hr, rfl⟩ := List.mem_map.mp hi
  exact ⟨r, hr, hnames⟩

theorem Names.id_eq {name : Bytes} {i : Identity} (h : Names name i) : i.id = name := by
  unfold Names at h
  split_ifs at h with hname
  · rw [h, hname]
    rfl
  · exact h

theorem lexicalMem_subset (topK : ℕ) : lexicalMem eng query ⊆ candidates eng query topK := fun c hc => by
  simp only [candidates, List.mem_append]
  tauto

theorem vectorMem_subset : vectorMem eng query topK ⊆ candidates eng query topK := fun c hc => by
  simp only [candidates, List.mem_append]
  tauto

theorem two_le_countP_of_ne {α : Type} {l : List α} {p : α → Bool} {a b : α} (ha : a ∈ l) (hb : b ∈ l) (hne : a ≠ b)
    (hpa : p a = true) (hpb : p b = true) : 2 ≤ l.countP p := by
  rw [List.countP_eq_length_filter]
  have hboth : [a, b] ⊆ l.filter p := by
    intro x hx
    rcases List.mem_cons.mp hx with rfl | hx
    · exact List.mem_filter.mpr ⟨ha, hpa⟩
    · rw [List.mem_singleton.mp hx]
      exact List.mem_filter.mpr ⟨hb, hpb⟩
  have hnodup : [a, b].Nodup := by simp [hne]
  exact (hnodup.subperm hboth).length_le

/-- A memory that is found twice has two classes. -/
theorem two_le_countP (activeTask : Bytes) (h : Twofold eng query topK key) :
    2 ≤ (classes eng query activeTask topK).countP (standsFor eng query topK key) := by
  obtain ⟨hlexical, hit, hhit, hkey, htwo⟩ := h
  by_cases hname : (vectorResult eng hit).id = key
  · -- both have the empty name, and no candidate with it is merged
    have hnil : key = [] := htwo.resolve_left fun hne => hne hname
    have hmono : (classes eng query activeTask topK).countP (fun r => Names [] (identity r)) ≤
        (classes eng query activeTask topK).countP (standsFor eng query topK key) := by
      refine List.countP_mono_left fun r _ hnames => standsFor_iff.mpr (Or.inl ⟨hlexical, ?_⟩)
      rw [hnil]
      exact of_decide_eq_true hnames
    have hfirst : 0 < ((lexicalMem eng query).map fun c => c.id).count [] := by
      rw [List.count_pos_iff, ← hnil]
      exact hlexical
    have hsecond : 0 < (vectorHits eng query topK).countP fun hit => (vectorResult eng hit).id = [] :=
      List.countP_pos_iff.mpr ⟨hit, hhit, decide_eq_true (hname.trans hnil)⟩
    rw [countP_names_classes, countP_names_nil, count_memoryIdentity_nil] at hmono
    omega
  · obtain ⟨c, hc, hid⟩ := List.mem_map.mp hlexical
    obtain ⟨r, hr, hnames⟩ := exists_class activeTask (lexicalMem_subset topK hc)
      (identity_lexicalMem hc)
    obtain ⟨r', hr', hnames'⟩ := exists_class activeTask
      (vectorMem_subset (List.mem_map_of_mem (f := vectorResult eng) hhit)) rfl
    rw [hid] at hnames
    refine two_le_countP_of_ne hr hr' (fun heq => hname ?_) (standsFor_iff.mpr (Or.inl ⟨hlexical, hnames⟩))
      (standsFor_iff.mpr (Or.inr ⟨hit, hhit, hkey, hnames'⟩))
    rw [← hnames'.id_eq, ← heq, hnames.id_eq]

/-- One that is not has one class at most. -/
theorem countP_standsFor_le_one (h : ¬ Twofold eng query topK key) :
    (classes eng query activeTask topK).countP (standsFor eng query topK key) ≤ 1 := by
  -- all candidates of the memory have one name
  have hone : ∀ name, (∀ r, standsFor eng query topK key r = true → Names name (identity r)) →
      (name = [] → ((lexicalMem eng query).map fun c => c.id).count [] +
        ((vectorHits eng query topK).countP fun hit => (vectorResult eng hit).id = []) ≤ 1) →
      (classes eng query activeTask topK).countP (standsFor eng query topK key) ≤ 1 := by
    intro name hnames hnil
    have hmono : (classes eng query activeTask topK).countP (standsFor eng query topK key) ≤
        (classes eng query activeTask topK).countP fun r => Names name (identity r) :=
      List.countP_mono_left fun r _ hr => decide_eq_true (hnames r hr)
    refine hmono.trans ?_
    rw [countP_names_classes]
    by_cases hname : name = []
    · rw [hname, countP_names_nil, count_memoryIdentity_nil]
      exact hnil hname
    · exact countP_names_le_one hname
  have hcount := List.nodup_iff_count_le_one.mp (nodup_lexicalMem eng query) []
  by_cases hlexical : key ∈ (lexicalMem eng query).map fun c => c.id
  · have hsame : ∀ hit ∈ vectorHits eng query topK, hit.1.key = key → (vectorResult eng hit).id = key ∧ key ≠ [] := by
      intro hit hhit hkey
      by_contra hnot
      exact h ⟨hlexical, hit, hhit, hkey, by tauto⟩
    refine hone key (fun r hr => ?_) fun hnil => ?_
    · rcases standsFor_iff.mp hr with ⟨-, hnames⟩ | ⟨hit, hhit, hkey, hnames⟩
      · exact hnames
      · rwa [(hsame hit hhit hkey).1] at hnames
    · have hzero : ((vectorHits eng query topK).countP fun hit => (vectorResult eng hit).id = []) = 0 := by
        refine List.countP_eq_zero.mpr fun hit hhit hid => ?_
        have hkey := key_of_id_nil (of_decide_eq_true hid)
        exact (hsame hit hhit (hkey.trans hnil.symm)).2 hnil
      omega
  · by_cases hfound : ∃ hit ∈ vectorHits eng query topK, hit.1.key = key
    · obtain ⟨hit, hhit, hkey⟩ := hfound
      refine hone (vectorResult eng hit).id (fun r hr => ?_) fun hnil => ?_
      · rcases standsFor_iff.mp hr with ⟨hin, -⟩ | ⟨hit', hhit', hkey', hnames⟩
        · exact absurd hin hlexical
        · rwa [List.inj_on_of_nodup_map (nodup_vectorHits eng query topK) hhit' hhit (hkey'.trans hkey.symm)] at hnames
      · rw [← hkey, key_of_id_nil hnil] at hlexical
        have hzero := List.count_eq_zero.mpr hlexical
        have hle := countP_vectorHits_nil_le eng query topK
        have hkeys := List.nodup_iff_count_le_one.mp (nodup_vectorHits eng query topK) []
        omega
    · have hnone : (classes eng query activeTask topK).countP (standsFor eng query topK key) = 0 := by
        refine List.countP_eq_zero.mpr fun r _ hr => ?_
        rcases standsFor_iff.mp hr with ⟨hin, -⟩ | ⟨hit, hhit, hkey, -⟩
        · exact hlexical hin
        · exact hfound ⟨hit, hhit, hkey⟩
      omega

end Candidates

/-- **No memory is returned twice** exactly when there is no place for two results of any memory that both channels find
under different names, or under the empty one. -/
theorem onePerMemory_iff {K : Type} [Field K] [LinearOrder K] (eng : SearchEngine K) (query activeTask : Bytes)
    (topK : ℕ) : OnePerMemory eng query activeTask topK ↔
      ∀ row ∈ memoryRows eng, Twofold eng query topK row.entry.key →
        Crowded eng query activeTask topK row.entry.key := by
  have hrow : ∀ key, (∀ sorter : Sorter K,
      (search eng query sorter activeTask topK).countP (standsFor eng query topK key) ≤ 1) ↔
      (Twofold eng query topK key → Crowded eng query activeTask topK key) := by
    intro key
    simp only [search_eq]
    rw [forall_sorter_iff (classes eng query activeTask topK)
      (fun l => (l.take topK).countP (standsFor eng query topK key) ≤ 1), countP_take_le_iff, AtMost]
    by_cases h : Twofold eng query topK key
    · have htwo := two_le_countP activeTask h
      rw [or_iff_right (not_le.mpr htwo)]
      exact ⟨fun hcrowded _ => hcrowded, fun hall => hall h⟩
    · exact iff_of_true (Or.inl (countP_standsFor_le_one h)) fun hnot => absurd hnot h
  unfold OnePerMemory
  constructor
  · exact fun h row hin => (hrow row.entry.key).mp fun sorter => h sorter row hin
  · exact fun h sorter row hin => (hrow row.entry.key).mpr (h row hin) sorter

/-- A fact as `extract_facts` writes it, with an id of its own. -/
def extractedFact : Row :=
  ⟨{ id := ascii "mem_1700000000", key := ascii "db", value := ascii "postgres" }, some [0x3F800000]⟩

/-- A store with the fact, whose index finds it. -/
def factStore : MemoryStore where
  backend :=
    { like := fun _ _ => true
      selectKeys := fun _ rows => rows.map fun r => r.entry.key
      search := fun _ _ _ => [(ascii "db", 0x3F800000)]
      cosineSimilarity := fun _ _ => 0
      ge := fun _ _ => true
      gt := fun _ _ => false }
  indexed := true
  rows := [extractedFact]
  distinct := List.nodup_singleton _
  hitsDistinct _ _ _ := List.nodup_singleton _

/-- An engine with some memories and chunks. -/
def factEngine (chunks : List StructuralChunk) : SearchEngine ℚ where
  customChunks := chunks
  findBySymbol := none
  memory := some factStore
  vectorIndex := none
  workspaceId := ascii "default"
  embedText _ := [0x3F800000]
  value _ := 1

/-- The fact is returned under its key and under its id. -/
theorem not_onePerMemory_extractedFact : ¬ OnePerMemory (factEngine []) (ascii "postgres") [] 10 := by
  intro h
  have hle := h (mergeSorter ℚ) extractedFact List.mem_cons_self
  have hlen : (classes (factEngine []) (ascii "postgres") [] 10).length = 2 := by decide +kernel
  have htwo : (classes (factEngine []) (ascii "postgres") [] 10).countP
      (standsFor (factEngine []) (ascii "postgres") 10 extractedFact.entry.key) = 2 := by
    decide +kernel
  have hperm := ((mergeSorter ℚ).ranked (classes (factEngine []) (ascii "postgres") [] 10)).perm
  rw [search_eq, List.take_of_length_le (by rw [hperm.length_eq, hlen]; decide), hperm.countP_eq, htwo] at hle
  exact absurd hle (by decide)

/-! ### Memories beside code -/

section Starved

variable {K : Type} [Field K] [LinearOrder K]

def isMemory (r : SearchResult K) : Bool := r.source = .memory

variable (eng : SearchEngine K) (query : Bytes) (topK : ℕ)

/-- A search for `k` results cuts nothing off, and one for more finds nothing more; twice as many are still a number of
64 bits. -/
structure TruncatesNothing (k : ℕ) : Prop where
  small : k < 9223372036854775808
  enough : (classes eng query [] k).length ≤ k
  stable : ∀ k', k ≤ k' → k' < 9223372036854775808 → candidates eng query k' = candidates eng query k

/-- `search_memory` returns as many memories as a search that cuts nothing off, or `top_k` of them, whatever the order of
equal scores. -/
def ReturnsMemories : Prop :=
  ∀ k, TruncatesNothing eng query k → ∀ sorter sorter' : Sorter K,
    (searchMemory eng query sorter topK).length = min topK ((search eng query sorter' [] k).countP isMemory)

/-- The code results leave room for the memories of which there are `total` ones; and if these are fewer than `top_k`, no
more of them are found with the lower limits of `search_memory`. -/
def LeavesRoom (total : ℕ) : Prop :=
  AtLeast (·.finalScore) isMemory (classes eng query [] (twice topK)) (twice topK) (min topK total) ∧
    (total < topK → AtMost (·.finalScore) isMemory (classes eng query [] (twice topK)) (twice topK) total)

variable {eng query topK}

theorem length_searchMemory (sorter : Sorter K) : (searchMemory eng query sorter topK).length =
    min topK (((sorter.run (classes eng query [] (twice topK))).take (twice topK)).countP isMemory) := by
  have hcount : (((sorter.run (classes eng query [] (twice topK))).take (twice topK)).filter
      fun r => r.source = .memory).length =
      ((sorter.run (classes eng query [] (twice topK))).take (twice topK)).countP isMemory :=
    List.countP_eq_length_filter.symm
  rw [searchMemory, search_eq, List.length_take, hcount]
  by_cases hzero : topK = 0
  · have hnone : twice topK = 0 := by
      rw [hzero]
      rfl
    rw [hnone, List.take_zero, List.countP_nil, Nat.min_zero, Nat.min_zero]
  · rw [Nat.max_eq_left (Nat.one_le_iff_ne_zero.mpr hzero)]

/-- How many memories come back, in every order. -/
theorem length_searchMemory_eq_iff {total : ℕ} :
    (∀ sorter : Sorter K, (searchMemory eng query sorter topK).length = min topK total) ↔
      LeavesRoom eng query topK total := by
  simp only [length_searchMemory]
  rw [forall_sorter_iff (classes eng query [] (twice topK))
    (fun l => min topK ((l.take (twice topK)).countP isMemory) = min topK total), LeavesRoom, ← le_countP_take_iff,
    ← countP_take_le_iff]
  constructor
  · intro h
    refine ⟨fun l hl => ?_, fun hfew l hl => ?_⟩
    · have heq := h l hl
      omega
    · have heq := h l hl
      omega
  · rintro ⟨hleast, hmost⟩ l hl
    have hle := hleast l hl
    by_cases hfew : total < topK
    · have hge := hmost hfew l hl
      omega
    · omega

end Starved

/-- **Memories are not starved by code** exactly when the code results leave room for them. -/
theorem returnsMemories_iff {K : Type} [Field K] [LinearOrder K] (eng : SearchEngine K) (query : Bytes) (topK : ℕ) :
    ReturnsMemories eng query topK ↔ ∀ k, TruncatesNothing eng query k →
      LeavesRoom eng query topK ((classes eng query [] k).countP isMemory) := by
  unfold ReturnsMemories
  refine forall_congr' fun k => forall_congr' fun hk => ?_
  have htotal : ∀ sorter : Sorter K, (search eng query sorter [] k).countP isMemory =
      (classes eng query [] k).countP isMemory := by
    intro sorter
    have hperm := (sorter.ranked (classes eng query [] k)).perm
    rw [search_eq, List.take_of_length_le (hperm.length_eq.trans_le hk.enough), hperm.countP_eq]
  simp only [htotal]
  rw [← length_searchMemory_eq_iff]
  exact ⟨fun h sorter => h sorter sorter, fun h sorter _ => h sorter⟩

/-- A chunk of a file whose symbol is the query. -/
def postgresChunk (filePath : Bytes) : StructuralChunk where
  filePath := filePath
  symbol := ascii "postgres"
  parentSymbol := []
  language := ascii "cpp"
  startLine := 1
  endLine := 1
  sourceHash := 0
  content := ascii "int postgres();"

/-- The fact, beside two chunks with better scores. -/
def crowdedEngine : SearchEngine ℚ := factEngine [postgresChunk (ascii "a.cpp"), postgresChunk (ascii "b.cpp")]

theorem candidates_crowdedEngine (k : ℕ) :
    candidates crowdedEngine (ascii "postgres") k = candidates crowdedEngine (ascii "postgres") 10 := by
  have hhits : ∀ k, vectorHits crowdedEngine (ascii "postgres") k =
      [(extractMemoryEntry extractedFact, 0x3F800000)] := by
    intro k
    refine (List.take_of_length_le ?_).trans ?_
    · exact (List.length_filterMap_le _ _).trans (Nat.le_max_right _ _)
    · rfl
  have hvector : ∀ k, vectorMem crowdedEngine (ascii "postgres") k =
      [vectorResult crowdedEngine (extractMemoryEntry extractedFact, 0x3F800000)] := by
    intro k
    rw [vectorMem, hhits]
    rfl
  rw [candidates, candidates, hvector, hvector]
  rfl

/-- A search for one memory returns none, though there are two. -/
theorem not_returnsMemories_crowdedEngine : ¬ ReturnsMemories crowdedEngine (ascii "postgres") 1 := by
  intro h
  have hall : TruncatesNothing crowdedEngine (ascii "postgres") 10 :=
    ⟨by decide, by decide +kernel, fun k _ _ => candidates_crowdedEngine k⟩
  have htotal : (classes crowdedEngine (ascii "postgres") [] 10).countP isMemory = 2 := by decide +kernel
  have hperm := ((mergeSorter ℚ).ranked (classes crowdedEngine (ascii "postgres") [] 10)).perm
  have hlength : ∀ sorter : Sorter ℚ, (searchMemory crowdedEngine (ascii "postgres") sorter 1).length = min 1 2 := by
    intro sorter
    rw [h 10 hall sorter (mergeSorter ℚ), search_eq, List.take_of_length_le (hperm.length_eq.trans_le hall.enough),
      hperm.countP_eq, htotal]
  have hroom := (length_searchMemory_eq_iff.mp hlength).1
  unfold AtLeast at hroom
  revert hroom
  decide +kernel

end DenseLite.Search.Memories
